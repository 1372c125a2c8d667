import AboveFold.Proofs.Grammar.EntryUses
import AboveFold.Proofs.Stylesheet.Grammatical

/-!
# No use is missed

Numbering a tree that was read keeps what its nodes use, and so a stylesheet that was read without
diagnostics knows every custom property that its tokens use: none is hidden in raw text, in a part of a
list that was left out, in `!important` or in a `url()`, and each is met in the order of the source.
-/

namespace AboveFold
open Branch

theorem Branch.varName?_eq (b : Branch) : b.varName? = b.kind.use? (b.children.map Branch.kind) := by
  cases k : b.kind with
  | function name =>
    simp only [varName?, Node.Kind.use?, k, List.find?_map, Function.comp_def]
    cases b.children.find? fun c => !c.kind.isTrivia with
    | none => rfl
    | some c =>
      simp only [Option.map_some, Option.bind_some]
      cases c.kind <;> simp [Node.Kind.ident?, Option.filter]
  | _ => simp only [varName?, Node.Kind.use?, k]

namespace Parsed

mutual

theorem varNames_number (next : Nat) : ∀ p : Parsed,
    (number next p).1.preorder.filterMap Branch.varName? = p.uses
  | node k span ps => by
    rw [number, preorder, List.filterMap_cons, varNames_numberAll (next + 1) ps, Branch.varName?_eq, uses_node,
      children_mk, kinds_numberAll]
    simp only [Branch.kind, Branch.node]
    cases k.use? (ps.map kind) <;> rfl

theorem varNames_numberAll (next : Nat) : ∀ ps : List Parsed,
    (preorderAll (numberAll next ps).1).filterMap Branch.varName? = ps.flatMap uses
  | [] => rfl
  | p :: ps => by
    simp only [numberAll, preorderAll_cons, List.filterMap_append, varNames_number next p, varNames_numberAll _ ps,
      List.flatMap_cons]

end

end Parsed

namespace Stylesheet

/-- If nothing is wrong with a stylesheet, the custom properties it uses are those that `var(` stands
before in its tokens, each once and in the order in which they come first. -/
theorem usedVariables_parse (source : String) (path : Option String) (clean : (parse source path).errors = []) :
    (parse source path).usedVariables = (Token.uses (Token.tokens source path)).eraseDups := by
  obtain ⟨here, boundary, tiles⟩ := Token.tiles_tokens source path
  have uses := (Grammar.Input.mk source path).uses_read boundary tiles clean
  rw [← uses, ← Parsed.varNames_number 0]
  rfl

theorem usedVariables_parse_nested :
    let source := "a\x7bb:VAR(/**/ --x,var(--y))!important\x7d@media (c:var(--z))\x7bd\x7be:f(var( --x ))\x7d\x7d"
    (parse source none).errors = []
      ∧ (parse source none).usedVariables = (Token.uses (Token.tokens source none)).eraseDups
      ∧ (parse source none).usedVariables = ["--x", "--y", "--z"] := by
  intro source
  have clean : (parse source none).errors = [] := by decide +kernel
  exact ⟨clean, usedVariables_parse source none clean, by decide +kernel⟩

end Stylesheet

end AboveFold
