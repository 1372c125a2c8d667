import AboveFold.Proofs.Tree.FixedWalk
import AboveFold.Proofs.Tree.Replacing

/-!
# Empty rules, one after the other

The rules and at-rules of a style sheet can be collected first and then looked at one by one, the last first, and
each that is empty by then detached. The node looked at stands somewhere inside the style sheet, with frames around it
(`plug`), and what is behind it was swept already; so in the end all is as after a sweep from the inside out
(`Numbered.detachEmptied_candidates`).
-/

namespace AboveFold
open Branch

namespace Tree

/-- Detaches those of some nodes that are empty rules or at-rules when it is their turn, and counts them. -/
def detachEmptied : List Nat → Tree → Nat × Tree
  | [], t => (0, t)
  | i :: ids, t =>
    if t.isEmptied i && (t.detach i).1 then
      ((detachEmptied ids (t.detach i).2).1 + 1, (detachEmptied ids (t.detach i).2).2)
    else detachEmptied ids t

/-- The rules and at-rules of the style sheet, in document order. -/
def candidates (t : Tree) : List Nat :=
  (t.attached.filter (·.kind.canBeEmpty)).map Branch.id

variable {t u : Tree} {i : Nat} {ids ids' : List Nat}

theorem Numbered.detach_fst (h : t.Numbered) (i : Nat) : (t.detach i).1 = (t.parent? i).isSome := by
  cases up : t.parent? i with
  | none => simp only [Tree.detach, up, Option.isSome_none]
  | some p =>
    obtain ⟨l, hl, -, c, child, rfl⟩ := exists_located_of_parent? up
    have mem : c ∈ t.branches := child_mem_branches (mem_branches_of_located hl) child
    simp only [Tree.detach, up, h.find?_eq_some.2 ⟨mem, rfl⟩, Option.isSome_some]

theorem detachEmptied_cons_of_stays (stays : (t.isEmptied i && (t.detach i).1) = false) (ids : List Nat) :
    detachEmptied (i :: ids) t = detachEmptied ids t := by
  rw [detachEmptied, stays]
  rfl

theorem detachEmptied_append (ids ids' : List Nat) (t : Tree) : detachEmptied (ids ++ ids') t
    = ((detachEmptied ids t).1 + (detachEmptied ids' (detachEmptied ids t).2).1,
      (detachEmptied ids' (detachEmptied ids t).2).2) := by
  induction ids generalizing t with
  | nil => simp [detachEmptied]
  | cons i ids ih =>
    simp only [List.cons_append, detachEmptied]
    split
    · rw [ih]
      simp [Nat.add_right_comm]
    · exact ih t

theorem Numbered.detachEmptied (h : t.Numbered) (ids : List Nat) : (Tree.detachEmptied ids t).2.Numbered := by
  induction ids generalizing t with
  | nil => exact h
  | cons i ids ih =>
    rw [Tree.detachEmptied]
    split
    · exact ih (h.detach i).1.numbered
    · exact ih h

theorem canBeEmpty_of_isEmptied (emptied : t.isEmptied i = true) : (t.kind? i).any Node.Kind.canBeEmpty = true := by
  unfold Tree.isEmptied at emptied
  split at emptied
  next k => rw [k]; rfl
  next k => rw [k]; rfl
  next => cases emptied

/-- Nodes of other kinds may be passed over. -/
theorem Numbered.detachEmptied_filter (h : t.Numbered) (ids : List Nat) :
    Tree.detachEmptied (ids.filter fun i => (t.kind? i).any Node.Kind.canBeEmpty) t = Tree.detachEmptied ids t := by
  induction ids generalizing t with
  | nil => rfl
  | cons i ids ih =>
    cases can : (t.kind? i).any Node.Kind.canBeEmpty with
    | false =>
      have full : t.isEmptied i = false := Bool.eq_false_iff.2 fun emptied => by simp [canBeEmpty_of_isEmptied emptied] at can
      have stays : (t.isEmptied i && (t.detach i).1) = false := by rw [full, Bool.false_and]
      rw [List.filter_cons, if_neg (by simp [can]), ih h, detachEmptied_cons_of_stays stays]
    | true =>
      have loses := h.loses_detach i
      have rest := ih loses.numbered
      simp only [loses.kind?] at rest
      rw [List.filter_cons, if_pos can, Tree.detachEmptied, Tree.detachEmptied, rest, ih h]

end Tree

/-! ## Frames -/

/-- A node with a mark more. -/
def Node.touch (m : Bool) (n : Node) : Node := { n with modified := n.modified || m }

@[simp] theorem Node.touch_false (n : Node) : n.touch false = n := by simp [touch]

@[simp] theorem Node.touch_touch (n : Node) (m m' : Bool) : (n.touch m).touch m' = n.touch (m || m') := by
  simp [touch, Bool.or_assoc]

namespace Branch

/-- A node on the way down to a branch, with the branches beside that way. -/
structure Frame where
  node : Node
  before : List Branch
  after : List Branch

/-- A branch in a frame. -/
def Frame.around (g : Frame) (b : Branch) : Branch := .mk g.node (g.before ++ b :: g.after)

def Frame.touch (m : Bool) (g : Frame) : Frame := { g with node := g.node.touch m }

/-- A branch in several frames, the innermost first. -/
def plug (fs : List Frame) (b : Branch) : Branch := fs.foldl (fun b g => g.around b) b

/-- All frames with a mark more. -/
def touchAll (m : Bool) (fs : List Frame) : List Frame := fs.map (Frame.touch m)

@[simp] theorem touchAll_touchAll (fs : List Frame) (m m' : Bool) :
    touchAll m' (touchAll m fs) = touchAll (m || m') fs := by
  simp [touchAll, Frame.touch]

@[simp] theorem touchAll_false (fs : List Frame) : touchAll false fs = fs := by
  have same : Frame.touch false = fun g => g := by
    funext g
    simp [Frame.touch]
  simp [touchAll, same]

variable {fs : List Frame} {g : Frame} {b b' x : Branch} {cs l r : List Branch} {p : Nat} {f : Branch → Branch}

theorem mem_preorder_plug (fs : List Frame) (b : Branch) : b ∈ (plug fs b).preorder := by
  induction fs generalizing b with
  | nil => exact self_mem_preorder b
  | cons g fs ih =>
    have inside := (preorder_sublist_preorder _ _ (ih (g.around b))).subset
    have child : b ∈ g.before ++ b :: g.after := by simp
    exact inside (mem_preorder_of_child child (self_mem_preorder b))

theorem once_of_plug (once : (plug fs b).ids.Nodup) : b.ids.Nodup :=
  ((preorder_sublist_preorder _ _ (mem_preorder_plug fs b)).map Branch.id).nodup once

theorem editAll_append (outside : p ∉ idsAll l) (e : edit p f b = some b') :
    editAll p f (l ++ b :: r) = some (l ++ b' :: r) := by
  induction l with
  | nil => simp [editAll, e]
  | cons c l ih =>
    rw [idsAll_cons, List.mem_append, not_or] at outside
    rcases edit_cases p f c with ⟨-, none⟩ | ⟨_, d, e', edited, -⟩
    · simp [editAll, none, ih outside.2]
    · exact absurd (mem_ids_of_edit e') outside.1

/-- An edit inside of a frame marks the frame. -/
theorem edit_around (once : (g.around b).ids.Nodup) (e : edit p f b = some b') :
    edit p f (g.around b) = some ((g.touch true).around b') := by
  have inside := mem_ids_of_edit e
  rw [Frame.around, ids_mk, idsAll_append, idsAll_cons, List.nodup_cons, List.nodup_append] at once
  obtain ⟨top, -, -, left⟩ := once
  have other : g.node.id ≠ p := by
    rintro rfl
    exact top (by simp [inside])
  have outside : p ∉ idsAll g.before := fun mem => left p mem p (by simp [inside]) rfl
  rw [Frame.around, edit, if_neg other, editAll_append outside e]
  simp [Frame.around, Frame.touch, Node.touch]

theorem edit_plug (once : (plug fs b).ids.Nodup) (e : edit p f b = some b') :
    edit p f (plug fs b) = some (plug (touchAll true fs) b') := by
  induction fs generalizing b b' with
  | nil => exact e
  | cons g fs ih =>
    have once : (plug fs (g.around b)).ids.Nodup := once
    exact ih once (edit_around (once_of_plug once) e)

end Branch

namespace Tree

variable {t : Tree} {fs : List Frame} {n : Node} {b : Branch} {l r loose : List Branch} {size : Nat}

/-- A child that is detached somewhere in the style sheet leaves its siblings, and marks on its way up. -/
theorem Numbered.detach_plug (h : Numbered ⟨plug fs (.mk n (l ++ b :: r)), loose, size⟩) :
    Tree.detach ⟨plug fs (.mk n (l ++ b :: r)), loose, size⟩ b.id
      = (true, ⟨plug (touchAll true fs) (.mk (n.touch true) (l ++ r)), b :: loose, size⟩) := by
  have once : (plug fs (.mk n (l ++ b :: r))).ids.Nodup := h.sheet_ids_nodup
  have holder : Branch.mk n (l ++ b :: r) ∈ branches ⟨plug fs (.mk n (l ++ b :: r)), loose, size⟩ :=
    mem_branches.2 (.inl (mem_preorder_plug fs _))
  have child : b ∈ (Branch.mk n (l ++ b :: r)).children := by simp
  obtain ⟨p, hp, same⟩ := exists_located_of_mem holder
  have up := h.parent?_of_child hp (same ▸ child)
  rw [same, node_mk] at up
  have found := h.find?_eq_some.2 ⟨child_mem_branches holder child, rfl⟩
  obtain ⟨left, right⟩ := apart_of_once (List.nodup_cons.1 (once_of_plug once)).2
  have edited : Branch.edit n.id (without b.id) (Branch.mk n (l ++ b :: r))
      = some (Branch.mk (n.touch true) (l ++ r)) := by
    rw [Branch.edit, if_pos rfl, without, filter_split left right]
    simp [Node.touch]
  have sheet := edit_plug once edited
  have leaves := h.detach_fst b.id
  rw [up] at leaves
  refine Prod.ext leaves ?_
  rw [detach_eq up found, Tree.edit, sheet]

/-- A branch whose turn it is goes if it is empty. -/
theorem Numbered.detachEmptied_child (h : Numbered ⟨plug fs (.mk n (l ++ b :: r)), loose, size⟩) :
    Tree.detachEmptied [b.id] ⟨plug fs (.mk n (l ++ b :: r)), loose, size⟩
      = if b.isEmptied then (1, ⟨plug (touchAll true fs) (.mk (n.touch true) (l ++ r)), b :: loose, size⟩)
        else (0, ⟨plug fs (.mk n (l ++ b :: r)), loose, size⟩) := by
  have holder : Branch.mk n (l ++ b :: r) ∈ branches ⟨plug fs (.mk n (l ++ b :: r)), loose, size⟩ :=
    mem_branches.2 (.inl (mem_preorder_plug fs _))
  have emptied := h.isEmptied_eq (child_mem_branches holder (c := b) (by simp))
  simp only [Tree.detachEmptied, emptied, h.detach_plug, Bool.and_true, Nat.zero_add]

/-- The tree in which a node `n` has children `l` and `r` and, between them, what a sweep left. -/
def sweptAt (fs : List Frame) (n : Node) (l r loose : List Branch) (size : Nat) (s : Swept) : Tree :=
  ⟨plug (touchAll (!s.gone.isEmpty) fs) (.mk (n.touch (!s.gone.isEmpty)) (l ++ s.kept ++ r)), s.gone ++ loose, size⟩

mutual

/-- The nodes of a branch in turn, the last first. -/
theorem Numbered.detachEmptied_branch : ∀ (b : Branch) (fs : List Frame) (n : Node) (l r loose : List Branch) (size : Nat),
    Numbered ⟨plug fs (.mk n (l ++ b :: r)), loose, size⟩ →
      Tree.detachEmptied b.ids.reverse ⟨plug fs (.mk n (l ++ b :: r)), loose, size⟩
        = (b.sweep.gone.length, sweptAt fs n l r loose size b.sweep)
  | .mk m cs, fs, n, l, r, loose, size, h => by
    generalize e : Branch.sweepAll cs = s
    generalize top : Branch.mk (m.touch (!s.gone.isEmpty)) s.kept = b
    have sweep : Branch.sweep (.mk m cs) = if b.isEmptied then ⟨[], b :: s.gone⟩ else ⟨[b], s.gone⟩ := by
      rw [← top, ← e]
      rfl
    -- what is below the branch is swept by then, with one frame more around it
    have below : Tree.detachEmptied (idsAll cs).reverse ⟨plug fs (.mk n (l ++ .mk m cs :: r)), loose, size⟩
        = (s.gone.length, ⟨plug (touchAll (!s.gone.isEmpty) fs) (.mk (n.touch (!s.gone.isEmpty)) (l ++ b :: r)),
          s.gone ++ loose, size⟩) := by
      have inner := Numbered.detachEmptied_branches cs (⟨n, l, r⟩ :: fs) m [] [] loose size
      simp only [List.nil_append, List.append_nil, sweptAt, e, top] at inner
      exact inner h
    have numbered := h.detachEmptied (idsAll cs).reverse
    have same : m.id = b.id := by
      rw [← top]
      rfl
    rw [below] at numbered
    rw [ids_mk, List.reverse_cons, detachEmptied_append, below, same, numbered.detachEmptied_child, sweep]
    split
    · simp [sweptAt]
    · simp [sweptAt]

/-- The nodes of branches side by side in turn, the last first. -/
theorem Numbered.detachEmptied_branches : ∀ (bs : List Branch) (fs : List Frame) (n : Node) (l r loose : List Branch)
    (size : Nat), Numbered ⟨plug fs (.mk n (l ++ bs ++ r)), loose, size⟩ →
      Tree.detachEmptied (idsAll bs).reverse ⟨plug fs (.mk n (l ++ bs ++ r)), loose, size⟩
        = ((Branch.sweepAll bs).gone.length, sweptAt fs n l r loose size (Branch.sweepAll bs))
  | [], fs, n, l, r, loose, size, h => by
    simp [sweptAt, Branch.sweepAll, Tree.detachEmptied]
  | b :: bs, fs, n, l, r, loose, size, h => by
    generalize e : Branch.sweepAll bs = s
    have sweep : Branch.sweepAll (b :: bs) = ⟨b.sweep.kept ++ s.kept, b.sweep.gone ++ s.gone⟩ := by
      rw [← e]
      rfl
    have later := Numbered.detachEmptied_branches bs fs n (l ++ [b]) r loose size
    simp only [List.append_assoc, List.cons_append, List.nil_append, e, sweptAt] at later h ⊢
    have numbered := h.detachEmptied (idsAll bs).reverse
    rw [later h] at numbered
    have first := Numbered.detachEmptied_branch b _ _ l (s.kept ++ r) _ _ numbered
    have marks : (!(b.sweep.gone ++ s.gone).isEmpty) = (!s.gone.isEmpty || !b.sweep.gone.isEmpty) := by
      cases b.sweep.gone <;> cases s.gone <;> rfl
    rw [idsAll_cons, List.reverse_append, detachEmptied_append, later h, first, sweep]
    simp only [sweptAt, marks, touchAll_touchAll, Node.touch_touch, List.append_assoc, List.length_append, Nat.add_comm]

end

theorem Numbered.candidates_eq (h : t.Numbered) :
    t.candidates = t.sheet.ids.filter fun i => (t.kind? i).any Node.Kind.canBeEmpty := by
  rw [candidates, attached, Branch.ids, List.filter_map]
  congr 1
  apply List.filter_congr
  intro b mem
  rw [Function.comp_apply, h.kind?_eq (mem_branches.2 (.inl mem)), Option.any_some]

/-- **Detaching what is empty in turn is a sweep**: when all rules and at-rules are collected first, and then each is
detached that is empty when its turn comes, the last first, the tree becomes what a sweep makes of it, and as many are
counted. -/
theorem Numbered.detachEmptied_candidates (h : t.Numbered) :
    Tree.detachEmptied t.candidates.reverse t = t.removeEmptied := by
  have all : Tree.detachEmptied t.candidates.reverse t = Tree.detachEmptied t.sheet.ids.reverse t := by
    rw [h.candidates_eq, ← List.filter_reverse, h.detachEmptied_filter]
  rw [all]
  obtain ⟨⟨n, cs⟩, loose, size⟩ := t
  have below := Numbered.detachEmptied_branches cs [] n [] [] loose size
  simp only [List.nil_append, List.append_nil] at below
  have below : Tree.detachEmptied (idsAll cs).reverse ⟨.mk n cs, loose, size⟩ = _ := below h
  have numbered := h.detachEmptied (idsAll cs).reverse
  rw [below] at numbered
  -- the root comes last and has no place to be taken out of
  have root : (Tree.detach (sweptAt [] n [] [] loose size (Branch.sweepAll cs)) n.id).1 = false := by
    rw [numbered.detach_fst, Option.isSome_eq_false_iff, Option.isNone_iff_eq_none]
    exact numbered.wellFormed.root
  rw [ids_mk, List.reverse_cons, detachEmptied_append, below,
    detachEmptied_cons_of_stays (by rw [root, Bool.and_false])]
  simp [sweptAt, Tree.removeEmptied, Tree.detachEmptied, touchAll, plug, Node.touch]

end Tree

end AboveFold
