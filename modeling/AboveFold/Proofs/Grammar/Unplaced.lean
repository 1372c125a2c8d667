import AboveFold.Proofs.Grammar.Trimming
import AboveFold.Proofs.Tree.Unnumbered

/-!
# Trees without places

What is read twice stands in two places. Without its places, and a branch without its numbers and marks besides, a tree
is its kinds alone (`Parsed.unplaced`, `Branch.unplaced`), and trees that were read from different texts can be compared.
-/

namespace AboveFold
open Source

namespace Parsed

/-- A node without a place. -/
def bare (k : Node.Kind) (ps : List Parsed) : Parsed := node k ⟨0, 0⟩ ps

mutual

/-- A tree without its places. -/
def unplaced : Parsed → Parsed
  | node k _ ps => bare k (unplacedAll ps)

/-- Trees without their places. -/
def unplacedAll : List Parsed → List Parsed
  | [] => []
  | p :: ps => unplaced p :: unplacedAll ps

end

variable {p : Parsed} {ps : List Parsed} {k : Node.Kind} {span : ByteSpan}

theorem unplacedAll_eq (ps : List Parsed) : unplacedAll ps = ps.map unplaced := by
  induction ps with
  | nil => rfl
  | cons p ps ih => rw [unplacedAll, ih, List.map_cons]

@[simp] theorem unplaced_node (k : Node.Kind) (span : ByteSpan) (ps : List Parsed) :
    (node k span ps).unplaced = bare k (ps.map unplaced) := by
  rw [unplaced, unplacedAll_eq]

@[simp] theorem unplaced_leaf (k : Node.Kind) (span : ByteSpan) : (leaf k span).unplaced = bare k [] :=
  unplaced_node k span []

@[simp] theorem kind_bare (k : Node.Kind) (ps : List Parsed) : (bare k ps).kind = k := rfl

@[simp] theorem kind_unplaced (p : Parsed) : p.unplaced.kind = p.kind := by
  cases p
  rw [unplaced_node]
  rfl

@[simp] theorem isWhitespace_unplaced (p : Parsed) : p.unplaced.isWhitespace = p.isWhitespace := by
  rw [isWhitespace, kind_unplaced, isWhitespace]

@[simp] theorem isComma_unplaced (p : Parsed) : p.unplaced.isComma = p.isComma := by
  rw [isComma, kind_unplaced, isComma]

theorem importantAt?_unplaced (ps : List Parsed) : Grammar.importantAt? (ps.map unplaced) = Grammar.importantAt? ps := by
  have trivia : (fun p : Parsed => p.kind.isTrivia) ∘ unplaced = fun p => p.kind.isTrivia :=
    funext fun p => congrArg Node.Kind.isTrivia (kind_unplaced p)
  unfold Grammar.importantAt?
  rw [← List.map_reverse]
  cases ps.reverse with
  | nil => rfl
  | cons last before =>
    simp only [List.map_cons, kind_unplaced, List.dropWhile_map, trivia]
    cases before.dropWhile (·.kind.isTrivia) with
    | nil => rfl
    | cons bang value => simp only [List.map_cons, kind_unplaced, List.length_map]

theorem soleString?_unplaced (ps : List Parsed) : Grammar.soleString? (ps.map unplaced) = Grammar.soleString? ps := by
  have solid : (fun p : Parsed => !p.kind.isTrivia) ∘ unplaced = fun p => !p.kind.isTrivia :=
    funext fun p => congrArg (fun k : Node.Kind => !k.isTrivia) (kind_unplaced p)
  unfold Grammar.soleString?
  rw [List.filter_map, solid]
  generalize List.filter (fun p : Parsed => !p.kind.isTrivia) ps = solids
  rcases solids with _ | ⟨p, _ | ⟨q, qs⟩⟩
  · rfl
  · simp only [List.map_cons, List.map_nil, kind_unplaced]
  · rfl

theorem groupNode_unplaced (g : Grammar.Group) (span : ByteSpan) (ps : List Parsed) :
    (Grammar.groupNode g span ps).1.unplaced = (Grammar.groupNode g ⟨0, 0⟩ (ps.map unplaced)).1 := by
  unfold Grammar.groupNode
  rw [soleString?_unplaced]
  cases g with
  | function name =>
    simp only
    cases if Text.eqIgnoreCase name "url" then Grammar.soleString? ps else none with
    | none => exact unplaced_node ..
    | some sole => exact unplaced_leaf ..
  | _ => exact unplaced_node ..

end Parsed

namespace Branch

mutual

/-- A branch without numbers, places and marks. -/
def unplaced : Branch → Parsed
  | mk n cs => .bare n.kind (unplacedAll cs)

/-- Branches without numbers, places and marks. -/
def unplacedAll : List Branch → List Parsed
  | [] => []
  | b :: bs => unplaced b :: unplacedAll bs

end

theorem unplacedAll_eq (bs : List Branch) : unplacedAll bs = bs.map unplaced := by
  induction bs with
  | nil => rfl
  | cons b bs ih => rw [unplacedAll, ih, List.map_cons]

@[simp] theorem unplaced_mk (n : Node) (cs : List Branch) : (mk n cs).unplaced = .bare n.kind (cs.map unplaced) := by
  rw [unplaced, unplacedAll_eq]

@[simp] theorem kind_unplaced (b : Branch) : b.unplaced.kind = b.kind := by
  cases b
  rw [unplaced_mk]
  rfl

theorem unplaced_unnumbered (b : Branch) : b.unnumbered.unplaced = b.unplaced := by
  induction b using induct with
  | mk n cs ih =>
    rw [unnumbered_mk, unplaced_mk, unplaced_mk, List.map_map]
    congr 1
    exact List.map_congr_left ih

end Branch

/-! ## What was read, as a branch -/

namespace Parsed

mutual

/-- A tree as a branch that nothing was done to, and without numbers. -/
def branch : Parsed → Branch
  | node k span ps => .mk ⟨0, k, some span, false⟩ (branchAll ps)

/-- Trees as branches that nothing was done to, and without numbers. -/
def branchAll : List Parsed → List Branch
  | [] => []
  | p :: ps => branch p :: branchAll ps

end

theorem branchAll_eq (ps : List Parsed) : branchAll ps = ps.map branch := by
  induction ps with
  | nil => rfl
  | cons p ps ih => rw [branchAll, ih, List.map_cons]

@[simp] theorem branch_node (k : Node.Kind) (span : ByteSpan) (ps : List Parsed) :
    (node k span ps).branch = .mk ⟨0, k, some span, false⟩ (ps.map branch) := by
  rw [branch, branchAll_eq]

mutual

theorem unnumbered_number (next : Nat) : ∀ p : Parsed, (number next p).1.unnumbered = p.branch
  | node k span ps => by
    rw [number, Branch.unnumbered_mk, branch_node, ← unnumbered_numberAll (next + 1) ps]

theorem unnumbered_numberAll (next : Nat) : ∀ ps : List Parsed,
    (numberAll next ps).1.map Branch.unnumbered = ps.map branch
  | [] => rfl
  | p :: ps => by
    rw [numberAll, List.map_cons, List.map_cons, unnumbered_number next p, unnumbered_numberAll _ ps]

end

mutual

@[simp] theorem unplaced_branch : ∀ p : Parsed, p.branch.unplaced = p.unplaced
  | node k span ps => by rw [branch_node, Branch.unplaced_mk, unplaced_node, unplaced_branchAll ps]

theorem unplaced_branchAll : ∀ ps : List Parsed, (ps.map branch).map Branch.unplaced = ps.map unplaced
  | [] => rfl
  | p :: ps => by
    rw [List.map_cons, List.map_cons, List.map_cons, unplaced_branch p, unplaced_branchAll ps]

end

/-- A tree that was read has the text it was read from. -/
theorem render_branch {p : Parsed} {source text : String} (slice : p.span.slice source = some text) :
    p.branch.render (some source) = text := by
  obtain ⟨k, span, ps⟩ := p
  have unchanged : Node.unchangedText? (some source) ⟨0, k, some span, false⟩ = some text := slice
  rw [branch_node, Branch.render, unchanged]

end Parsed

end AboveFold
