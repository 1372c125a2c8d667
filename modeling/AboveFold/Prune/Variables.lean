import AboveFold.Prune.Basic

/-!
# Custom properties

A custom property is used if some `var()` reads it, also in a fallback and also in the value of
another custom property. Definitions that nothing uses can go; that may leave others unused, so
`pruneVariablesFully` goes on until all that are left are used.
-/

namespace AboveFold

namespace Branch

/-- The custom property that a `var()` reads: its first argument. -/
def varName? (b : Branch) : Option String :=
  match b.kind with
  | .function name =>
    if Text.eqIgnoreCase name "var" then
      match b.children.find? (fun c => !c.kind.isTrivia) with
      | some c =>
        match c.kind with
        | .ident v => if v.startsWith "--" then some v else none
        | _ => none
      | none => none
    else none
  | _ => none

/-- The custom property that a declaration defines. -/
def definition? (b : Branch) : Option String :=
  b.kind.property?.filter (·.startsWith "--")

end Branch

namespace Stylesheet

/-- The custom properties that are used, in order of their first use. -/
def usedVariables (s : Stylesheet) : List String :=
  (s.tree.attached.filterMap Branch.varName?).eraseDups

/-- Removes the definitions of custom properties that are not in `used`. -/
def pruneVariables (s : Stylesheet) (used : List String) : Nat × Stylesheet :=
  s.pruneBy (Prune.declarations fun b => b.definition?.any (!used.contains ·))

/-- Removes unused definitions until none is left, at most `fuel` times. -/
def pruneVariablesWithin : (fuel : Nat) → Stylesheet → Nat × Stylesheet
  | 0, s => (0, s)
  | fuel + 1, s =>
    match s.pruneVariables s.usedVariables with
    | (0, s) => (0, s)
    | (n + 1, s) =>
      let (m, s) := pruneVariablesWithin fuel s
      (n + 1 + m, s)

/-- Removes all definitions that nothing uses, also after the others are gone. Each round but the
last removes one of the definitions, so there are no more rounds than those and one. -/
def pruneVariablesFully (s : Stylesheet) : Nat × Stylesheet :=
  pruneVariablesWithin ((s.tree.attached.filterMap Branch.definition?).length + 1) s

end Stylesheet

end AboveFold
