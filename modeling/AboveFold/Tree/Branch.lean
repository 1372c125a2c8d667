import AboveFold.Grammar.Parsed

/-!
# Branches

A branch is a node with all that hangs below it. Each node has a number of its own, so that it can
be spoken of while the tree around it changes, and a mark that says whether it or a node below it
was changed since it was read. `edit` is the one way to change a branch deep inside: it applies a
function at one node and marks the nodes above it.
-/

namespace AboveFold
open Source

/-- A node, without its children. `span` is missing where the node was not read but made. -/
structure Node where
  id : Nat
  kind : Node.Kind
  span : Option ByteSpan
  modified : Bool
deriving DecidableEq, Repr

/-- A node that was read and not changed since. -/
def Node.isPristine (n : Node) : Bool := !n.modified && n.span.isSome

/-- A node and what hangs below it. -/
inductive Branch where
  | mk (node : Node) (children : List Branch)

namespace Branch

/-- The node at the top. -/
def node : Branch → Node
  | mk node _ => node

/-- The branches below the top, in order. -/
def children : Branch → List Branch
  | mk _ children => children

/-- The number of the top node. -/
def id (b : Branch) : Nat := b.node.id

/-- The kind of the top node. -/
def kind (b : Branch) : Node.Kind := b.node.kind

/-- The branch with its top node marked. -/
def marked : Branch → Branch
  | mk n cs => mk { n with modified := true } cs

mutual

/-- All branches inside a branch, in document order, itself first. -/
def preorder : Branch → List Branch
  | mk n cs => mk n cs :: preorderAll cs

/-- All branches inside a list of branches, in document order. -/
def preorderAll : List Branch → List Branch
  | [] => []
  | b :: bs => preorder b ++ preorderAll bs

end

/-- The branch with the given number. -/
def find? (id : Nat) (b : Branch) : Option Branch :=
  b.preorder.find? (·.id = id)

/-- The numbers of all nodes of a branch, in document order. -/
def ids (b : Branch) : List Nat :=
  b.preorder.map Branch.id

/-- A branch and the nodes above it, nearest first. -/
structure Located where
  above : List Node
  branch : Branch

mutual

/-- All branches inside a branch with the nodes above them, in document order; `above` are the nodes
above the whole. -/
def locate (above : List Node) : Branch → List Located
  | mk n cs => ⟨above, mk n cs⟩ :: locateAll (n :: above) cs

/-- All branches inside a list of branches with the nodes above them, in document order. -/
def locateAll (above : List Node) : List Branch → List Located
  | [] => []
  | b :: bs => locate above b ++ locateAll above bs

end

/-- The nodes above a node, nearest first, if it is in the branch. -/
def ancestors? (id : Nat) (b : Branch) : Option (List Node) :=
  ((b.locate []).find? (·.branch.id = id)).map (·.above)

mutual

/-- Applies `f` to the branch with the given number and marks all nodes above it. There is no answer
if the number is not there. -/
def edit (id : Nat) (f : Branch → Branch) : Branch → Option Branch
  | mk n cs =>
    if n.id = id then some (f (mk n cs))
    else (editAll id f cs).map (mk { n with modified := true })

/-- Applies `f` in the branch of a list that holds the number. -/
def editAll (id : Nat) (f : Branch → Branch) : List Branch → Option (List Branch)
  | [] => none
  | b :: bs =>
    match edit id f b with
    | some b => some (b :: bs)
    | none => (editAll id f bs).map (b :: ·)

end

/-- The first child of a kind that satisfies `p`. -/
def child? (p : Node.Kind → Bool) (b : Branch) : Option Branch :=
  b.children.find? (p ·.kind)

/-- The selector list of a rule. -/
def selectorList? (b : Branch) : Option Branch := b.child? (· = .selectorList)

/-- The block of a rule or at-rule. -/
def block? (b : Branch) : Option Branch := b.child? Node.Kind.isBlock

/-- The prelude of an at-rule. -/
def prelude? (b : Branch) : Option Branch := b.child? (· = .prelude)

/-- The value of a declaration. -/
def value? (b : Branch) : Option Branch := b.child? (· = .value)

/-- The selectors of a rule. -/
def selectors (b : Branch) : List Branch :=
  (b.selectorList?.map children).getD []

/-- Whether a block holds anything but comments. -/
def hasContent (b : Branch) : Bool :=
  b.children.any (fun c => !c.kind.isComment)

/-- Whether a rule has no selector or an empty block. -/
def isEmptyRule (b : Branch) : Bool :=
  !(b.selectorList?.any (fun l => !l.children.isEmpty) && b.block?.any hasContent)

/-- Whether an at-rule has a block and the block is empty. An at-rule without a block is a statement
and never empty. -/
def isEmptyAtRule (b : Branch) : Bool :=
  b.block?.any (fun block => !block.hasContent)

/-- Whether this is a rule or an at-rule that says nothing any more. -/
def isEmptied (b : Branch) : Bool :=
  match b.kind with
  | .rule => b.isEmptyRule
  | .atRule _ => b.isEmptyAtRule
  | _ => false

end Branch

/-! ## Numbering -/

namespace Parsed

mutual

/-- Numbers the nodes of a tree from `next` on, in document order, and gives the number after the
last. -/
def number (next : Nat) : Parsed → Branch × Nat
  | node kind span children =>
    let (bs, after) := numberAll (next + 1) children
    (.mk ⟨next, kind, some span, false⟩ bs, after)

/-- Numbers the nodes of a list of trees. -/
def numberAll (next : Nat) : List Parsed → List Branch × Nat
  | [] => ([], next)
  | p :: ps =>
    let (b, next) := number next p
    let (bs, next) := numberAll next ps
    (b :: bs, next)

end

end Parsed

end AboveFold
