import AboveFold.Tree.Basic

/-!
# Walks over a tree

A walk goes over a branch in document order and asks a visitor at each node what to do with it.
Nodes that it removes may leave rules and at-rules empty; these go too, but only after the walk, so
that the visitor sees no half-removed rule. `Tree.removeEmptied` removes all rules and at-rules that
are empty, whatever made them so.
-/

namespace AboveFold

/-- Where a visitor stands: the branch it is asked about, the nodes above it, nearest first, and the
branches beside it. Those before it, nearest first, are as the walk left them. -/
structure Site where
  above : List Node
  before : List Branch
  branch : Branch
  after : List Branch

/-- What to do with a node. -/
inductive Verdict where
  /-- Keep it and go on with its children. -/
  | descend
  /-- Keep it as it is, children and all. -/
  | skip
  /-- Take it out of the tree. -/
  | remove
  /-- Give it another kind and keep its children as they are. -/
  | become (kind : Node.Kind)
  /-- Put a new node in its place. -/
  | exchange (kind : Node.Kind)

/-- Decides about each node. -/
abbrev Visitor := Site → Verdict

/-- What a walk did so far. The lists have the newest first. -/
structure Trail where
  /-- The branches that the visitor was asked about. -/
  visited : List Branch
  /-- The nodes that lost a child by removal, once for each. -/
  bereft : List Nat
  /-- How many nodes got another kind or another node in their place. -/
  changed : Nat
  /-- The branches that were taken out. -/
  loose : List Branch
  /-- The number for the next node. -/
  size : Nat

namespace Trail

/-- A walk that has not begun. -/
def start (size : Nat) : Trail := ⟨[], [], 0, [], size⟩

end Trail

/-- What became of a branch, or of a list of branches. -/
structure Passed where
  branches : List Branch
  /-- Whether anything in them was changed. -/
  touched : Bool
  trail : Trail

mutual

/-- Walks over a branch. The top of a tree cannot be removed. -/
def Branch.walk (v : Visitor) (above : List Node) (before after : List Branch) : Branch → Trail → Passed
  | .mk n cs, trail =>
    let b := Branch.mk n cs
    let trail := { trail with visited := b :: trail.visited }
    match v ⟨above, before, b, after⟩, above with
    | .descend, _ =>
      let r := Branch.walkAll v (n :: above) [] cs trail
      ⟨[.mk { n with modified := n.modified || r.touched } r.branches], r.touched, r.trail⟩
    | .skip, _ => ⟨[b], false, trail⟩
    | .become kind, _ =>
      ⟨[.mk { n with kind, modified := true } cs], true, { trail with changed := trail.changed + 1 }⟩
    | .remove, parent :: _ =>
      ⟨[], true, { trail with bereft := parent.id :: trail.bereft, loose := b :: trail.loose }⟩
    | .exchange kind, _ :: _ =>
      ⟨[.mk ⟨trail.size, kind, none, true⟩ []], true,
        { trail with changed := trail.changed + 1, loose := b :: trail.loose, size := trail.size + 1 }⟩
    | _, [] => ⟨[b], false, trail⟩

/-- Walks over branches that stand side by side. -/
def Branch.walkAll (v : Visitor) (above : List Node) (before : List Branch) : List Branch → Trail → Passed
  | [], trail => ⟨[], false, trail⟩
  | b :: bs, trail =>
    let r := Branch.walk v above before bs b trail
    let rs := Branch.walkAll v above (r.branches.reverse ++ before) bs r.trail
    ⟨r.branches ++ rs.branches, r.touched || rs.touched, rs.trail⟩

end

namespace Tree

/-- Removes emptied rules and at-rules upwards along a path of nodes, nearest first. Selector lists,
blocks and preludes stand for the rule they belong to; any other node ends the path. -/
def removeEmptiedAlong : List Nat → Tree → Nat × Tree
  | [], t => (0, t)
  | id :: up, t =>
    if id = t.root then (0, t)
    else
      match t.find? id with
      | none => (0, t)
      | some b =>
        match b.kind with
        | .selectorList | .block _ | .prelude => removeEmptiedAlong up t
        | _ =>
          if b.isEmptied then
            match t.detach id with
            | (true, t) =>
              let (n, t) := removeEmptiedAlong up t
              (n + 1, t)
            | (false, t) => (0, t)
          else (0, t)

/-- Removes the rules and at-rules that the loss of a child of `id` left empty. -/
def removeEmptiedFrom (t : Tree) (id : Nat) : Nat × Tree :=
  removeEmptiedAlong (id :: (t.ancestors id).map (·.id)) t

/-- What a walk did. -/
structure Walked where
  tree : Tree
  /-- The branches that the visitor was asked about, in order, as they were then. -/
  visited : List Branch
  /-- How many nodes the visitor removed. -/
  removed : Nat
  /-- How many nodes got another kind or another node in their place. -/
  changed : Nat
  /-- How many rules and at-rules went because they were emptied. -/
  emptied : Nat

/-- Puts what a walk made of the branch `id` back in its place. -/
def graft (t : Tree) (id : Nat) (parent : Option Node) (branches : List Branch) : Tree :=
  match parent with
  | some p =>
    t.edit p.id fun
      | .mk n cs =>
        .mk { n with modified := true } (cs.flatMap fun c => if c.id = id then branches else [c])
  | none =>
    match branches with
    | [b] => t.edit id fun _ => b
    | _ => t

/-- Walks over the branch `id` and removes what it left empty. -/
def walkFrom (t : Tree) (id : Nat) (v : Visitor) : Walked :=
  match t.find? id with
  | none => ⟨t, [], 0, 0, 0⟩
  | some b =>
    let above := t.ancestors id
    let siblings := ((above.head?.bind fun p => t.find? p.id).map Branch.children).getD []
    let before := (siblings.takeWhile (·.id ≠ id)).reverse
    let after := (siblings.dropWhile (·.id ≠ id)).tail
    let r := b.walk v above before after (.start t.size)
    let t := if r.touched then t.graft id above.head? r.branches else t
    let t := { t with loose := r.trail.loose ++ t.loose, size := r.trail.size }
    let (emptied, t) := r.trail.bereft.reverse.foldl
      (fun (n, t) parent =>
        let (m, t) := t.removeEmptiedFrom parent
        (n + m, t))
      (0, t)
    ⟨t, r.trail.visited.reverse, r.trail.bereft.length, r.trail.changed, emptied⟩

/-- Walks over the whole style sheet. -/
def walk (t : Tree) (v : Visitor) : Walked :=
  t.walkFrom t.root v

/-- Detaches a branch, removes what that left empty, and counts the nodes that went. -/
def remove (t : Tree) (id : Nat) : Nat × Tree :=
  match t.parent? id with
  | none => (0, t)
  | some p =>
    let (_, t) := t.detach id
    let (n, t) := t.removeEmptiedFrom p.id
    (n + 1, t)

end Tree

/-- What is left of branches without their empty rules and at-rules, and those. -/
structure Swept where
  kept : List Branch
  gone : List Branch

mutual

/-- Takes the empty rules and at-rules out of a branch, innermost first. -/
def Branch.sweep : Branch → Swept
  | .mk n cs =>
    let r := Branch.sweepAll cs
    let b := Branch.mk { n with modified := n.modified || !r.gone.isEmpty } r.kept
    if b.isEmptied then ⟨[], b :: r.gone⟩ else ⟨[b], r.gone⟩

/-- Takes the empty rules and at-rules out of branches. -/
def Branch.sweepAll : List Branch → Swept
  | [] => ⟨[], []⟩
  | b :: bs =>
    let r := Branch.sweep b
    let rs := Branch.sweepAll bs
    ⟨r.kept ++ rs.kept, r.gone ++ rs.gone⟩

end

namespace Tree

/-- Removes every rule without selectors or with an empty block and every at-rule with an empty
block, and says how many there were. -/
def removeEmptied (t : Tree) : Nat × Tree :=
  match t.sheet with
  | .mk n cs =>
    let r := Branch.sweepAll cs
    let sheet := Branch.mk { n with modified := n.modified || !r.gone.isEmpty } r.kept
    (r.gone.length, { t with sheet, loose := r.gone ++ t.loose })

end Tree

end AboveFold
