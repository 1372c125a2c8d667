import AboveFold.Grammar.Rule
import AboveFold.Tree.Branch

/-!
# Stylesheet trees

A tree holds every node that was ever made in it: the branch of the style sheet itself, and loose
branches, which were removed or not yet put in place. No operation drops a node, so a node can be
put back later. Every operation marks the nodes whose text it changes and all nodes above them.
-/

namespace AboveFold

/-- The branch of a style sheet, loose branches, and the number of nodes in all of them, which is
also the number that the next node gets. -/
structure Tree where
  sheet : Branch
  loose : List Branch
  size : Nat

namespace Tree

/-- The tree of what was read, with all that has no place in it loose. -/
def ofOutcome (o : Grammar.Outcome) : Tree :=
  let (sheet, next) := o.sheet.number 0
  let (loose, size) := Parsed.numberAll next o.discarded
  ⟨sheet, loose, size⟩

/-- The number of the root. -/
def root (t : Tree) : Nat := t.sheet.id

/-- The branch with the given number, attached or loose. -/
def find? (t : Tree) (id : Nat) : Option Branch :=
  (t.sheet :: t.loose).findSome? (Branch.find? id)

/-- The nodes above a node, nearest first. -/
def ancestors (t : Tree) (id : Nat) : List Node :=
  ((t.sheet :: t.loose).findSome? (Branch.ancestors? id)).getD []

/-- The node just above a node. -/
def parent? (t : Tree) (id : Nat) : Option Node :=
  (t.ancestors id).head?

/-- Whether a node is the root or below it. -/
def isAttached (t : Tree) (id : Nat) : Bool :=
  (t.sheet.find? id).isSome

/-- Applies `f` to the branch with the given number and marks all nodes above it. -/
def edit (t : Tree) (id : Nat) (f : Branch → Branch) : Tree :=
  match t.sheet.edit id f with
  | some sheet => { t with sheet }
  | none =>
    match Branch.editAll id f t.loose with
    | some loose => { t with loose }
    | none => t

/-- Makes a loose node. It has no text to be read from, so it counts as changed. -/
def create (t : Tree) (kind : Node.Kind) : Nat × Tree :=
  (t.size, { t with loose := .mk ⟨t.size, kind, none, true⟩ [] :: t.loose, size := t.size + 1 })

/-- Marks a node and all nodes above it as changed. -/
def markModified (t : Tree) (id : Nat) : Tree :=
  t.edit id Branch.marked

/-- Gives a node another kind. -/
def setKind (t : Tree) (id : Nat) (kind : Node.Kind) : Tree :=
  t.edit id fun | .mk n cs => .mk { n with kind, modified := true } cs

/-- Takes a branch out of its place and makes it loose. A root and a loose branch have no place, and
nothing happens. -/
def detach (t : Tree) (id : Nat) : Bool × Tree :=
  match t.parent? id, t.find? id with
  | some p, some b =>
    let t := t.edit p.id fun
      | .mk n cs => .mk { n with modified := true } (cs.filter (·.id ≠ id))
    (true, { t with loose := b :: t.loose })
  | _, _ => (false, t)

/-- Puts a branch below `parent`, as the child at `index` or as the last if there are fewer. It is
taken out of its old place first. Nothing happens if the branch is the root or holds `parent`. -/
def insert (t : Tree) (parent index child : Nat) : Tree :=
  if child = t.root || child = parent || (t.ancestors parent).any (·.id = child) then t
  else
    let t := (t.detach child).2
    match t.loose.find? (·.id = child) with
    | none => t
    | some b =>
      { t with loose := t.loose.filter (·.id ≠ child) }.edit parent fun
        | .mk n cs =>
          let i := min index cs.length
          .mk { n with modified := true } (cs.take i ++ b :: cs.drop i)

/-- The numbers of the children of a node. -/
def childrenOf (t : Tree) (id : Nat) : List Nat :=
  ((t.find? id).map fun b => b.children.map Branch.id).getD []

/-- Puts a branch below `parent` as the last child. -/
def append (t : Tree) (parent child : Nat) : Tree :=
  t.insert parent (t.childrenOf parent).length child

/-- Puts `replacement` in the place of `old` and makes `old` loose. A branch without a place cannot
be replaced. -/
def replace (t : Tree) (old replacement : Nat) : Bool × Tree :=
  match t.parent? old with
  | none => (false, t)
  | some p =>
    let index := (t.childrenOf p.id).idxOf old
    let t := (t.detach old).2
    (true, t.insert p.id index replacement)

/-- The branches of all attached nodes, in document order. -/
def attached (t : Tree) : List Branch :=
  t.sheet.preorder

end Tree

end AboveFold
