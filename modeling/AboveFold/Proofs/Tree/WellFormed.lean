import AboveFold.Proofs.Tree.Links

/-!
# Well-formed trees

Followed one link at a time, parents lead upwards and end, and children lead to every node below just
once. A tree whose numbers are in order is well-formed in this sense.
-/

namespace AboveFold.Tree
open Branch

/-- Following parents from `id` goes through the nodes of the path and ends there. -/
def Climbs (t : Tree) (id : Nat) : List Nat → Prop
  | [] => t.parent? id = none
  | p :: path => (t.parent? id).map Node.id = some p ∧ t.Climbs p path

/-- A traversal that takes the first node off its stack and puts the children of that node on it visits
the nodes of the path, and then the stack is empty. -/
def Visits (t : Tree) (stack : List Nat) : List Nat → Prop
  | [] => stack = []
  | n :: path => ∃ rest, stack = n :: rest ∧ t.Visits (t.childrenOf n ++ rest) path

/-- What links and traversals of a tree keep to. -/
structure WellFormed (t : Tree) : Prop where
  found : ∀ id, (t.find? id).isSome ↔ id < t.size
  linked : ∀ p c, c ∈ t.childrenOf p ↔ (t.parent? c).map Node.id = some p
  once : ((List.range t.size).flatMap t.childrenOf).Nodup
  root : t.parent? t.root = none
  climbs : ∀ id, t.Climbs id ((t.ancestors id).map Node.id)
  descends : ∀ id b, t.find? id = some b →
    t.Visits [id] b.ids ∧ b.ids.Nodup ∧ ∀ n, n ∈ b.ids ↔ id ∈ n :: (t.ancestors n).map Node.id
  attached : t.Visits [t.root] (t.attached.map Branch.id) ∧ (t.attached.map Branch.id).Nodup
    ∧ ∀ n, n ∈ t.attached.map Branch.id ↔ t.isAttached n
  isAttached : ∀ n, t.isAttached n ↔ t.root ∈ n :: (t.ancestors n).map Node.id

variable {t : Tree} {b c : Branch} {l : Located} {id n : Nat}

theorem exists_located_of_mem (mem : b ∈ t.branches) : ∃ l ∈ t.located, l.branch = b :=
  exists_located mem []

theorem Numbered.parent?_of_child (h : t.Numbered) (hl : l ∈ t.located) (mem : c ∈ l.branch.children) :
    t.parent? c.id = some l.branch.node := by
  have : t.ancestors c.id = l.branch.node :: l.above := h.ancestors_eq (Located.child_mem hl mem)
  rw [Tree.parent?, this]
  rfl

theorem Numbered.ancestors_of_parent? (h : t.Numbered) {p : Node} (up : t.parent? id = some p) :
    t.ancestors id = p :: t.ancestors p.id := by
  obtain ⟨l, hl, rfl, c, child, rfl⟩ := exists_located_of_parent? up
  have above : t.ancestors l.branch.node.id = l.above := h.ancestors_eq hl
  rw [above]
  exact h.ancestors_eq (Located.child_mem hl child)

theorem childrenOf_eq (found : t.find? id = some b) : t.childrenOf id = b.children.map Branch.id := by
  simp [childrenOf, found]

theorem Numbered.childrenOf_id (h : t.Numbered) (mem : b ∈ t.branches) :
    t.childrenOf b.id = b.children.map Branch.id :=
  childrenOf_eq (h.find?_eq_some.2 ⟨mem, rfl⟩)

theorem Numbered.linked (h : t.Numbered) (p c : Nat) :
    c ∈ t.childrenOf p ↔ (t.parent? c).map Node.id = some p := by
  constructor
  · intro mem
    cases found : t.find? p with
    | none => simp [childrenOf, found] at mem
    | some b =>
      obtain ⟨inside, rfl⟩ := mem_of_find? found
      rw [childrenOf_eq found] at mem
      obtain ⟨d, child, rfl⟩ := List.mem_map.1 mem
      obtain ⟨l, hl, rfl⟩ := exists_located_of_mem inside
      rw [h.parent?_of_child hl child]
      rfl
  · intro up
    obtain ⟨node, up', rfl⟩ := Option.map_eq_some_iff.1 up
    obtain ⟨l, hl, rfl, d, child, rfl⟩ := exists_located_of_parent? up'
    have : t.childrenOf l.branch.node.id = l.branch.children.map Branch.id :=
      h.childrenOf_id (mem_branches_of_located hl)
    exact this ▸ List.mem_map_of_mem child

theorem map_id_sublist_idsAll (bs : List Branch) : (bs.map Branch.id).Sublist (idsAll bs) := by
  induction bs with
  | nil => exact List.Sublist.refl _
  | cons b bs ih =>
    obtain ⟨n, cs⟩ := b
    simp only [List.map_cons, idsAll_cons, ids_mk, List.cons_append]
    exact (ih.trans (List.sublist_append_right _ _)).cons_cons _

theorem Numbered.childrenOf_nodup (h : t.Numbered) (id : Nat) : (t.childrenOf id).Nodup := by
  cases found : t.find? id with
  | none => simp [childrenOf, found]
  | some b =>
    obtain ⟨mem, rfl⟩ := mem_of_find? found
    rw [childrenOf_eq found]
    exact (map_id_sublist_idsAll b.children).nodup (h.once_children mem)

theorem Numbered.climbs (h : t.Numbered) (id : Nat) : t.Climbs id ((t.ancestors id).map Node.id) := by
  have located (l : Located) (hl : l ∈ t.located) : t.Climbs l.branch.id (l.above.map Node.id) := by
    induction e : l.above generalizing l with
    | nil => simp [Climbs, Tree.parent?, h.ancestors_eq hl, e]
    | cons m ms ih =>
      rcases locateAll_cases t.forest [] l hl with ⟨top, -⟩ | ⟨p, hp, above, child⟩
      · simp [top] at e
      · rw [above, List.cons.injEq] at e
        obtain ⟨rfl, below⟩ := e
        refine ⟨?_, ih p hp below⟩
        rw [h.parent?_of_child hp child]
        rfl
  cases up : t.ancestors id with
  | nil => simp [Climbs, Tree.parent?, up]
  | cons m ms =>
    have first : t.parent? id = some m := by simp [Tree.parent?, up]
    obtain ⟨p, hp, rfl, c, child, rfl⟩ := exists_located_of_parent? first
    have := located _ (Located.child_mem hp child)
    rwa [← h.ancestors_eq (Located.child_mem hp child), up] at this

mutual

theorem Numbered.visits (h : t.Numbered) {stack path : List Nat} : ∀ b : Branch, b.preorder ⊆ t.branches →
    t.Visits stack path → t.Visits (b.id :: stack) (b.ids ++ path)
  | .mk n cs, inside, later => by
    have children : t.childrenOf (Branch.mk n cs).id = cs.map Branch.id :=
      h.childrenOf_id (inside (self_mem_preorder _))
    refine ⟨stack, rfl, ?_⟩
    rw [children]
    exact h.visitsAll cs (fun x mem => inside (mem_preorder.2 (.inr mem))) later

/-- Branches on a stack are visited with all that is below them. -/
theorem Numbered.visitsAll (h : t.Numbered) {stack path : List Nat} : ∀ bs : List Branch,
    preorderAll bs ⊆ t.branches → t.Visits stack path → t.Visits (bs.map Branch.id ++ stack) (idsAll bs ++ path)
  | [], inside, later => later
  | b :: bs, inside, later => by
    rw [List.map_cons, List.cons_append, idsAll_cons, List.append_assoc]
    refine h.visits b (fun x mem => inside (by simp [mem])) ?_
    exact h.visitsAll bs (fun x mem => inside (by simp [mem])) later

end

/-- What a branch holds are the nodes from which parents lead up to it. -/
theorem Numbered.mem_ids_branch_iff (h : t.Numbered) (mem : b ∈ t.branches) :
    n ∈ b.ids ↔ b.id ∈ n :: (t.ancestors n).map Node.id := by
  constructor
  · intro inside
    rcases h.top_or_ancestor mem inside with rfl | above
    · exact List.mem_cons_self ..
    · exact List.mem_cons_of_mem _ (List.mem_map_of_mem above)
  · intro up
    rcases List.mem_cons.1 up with same | up
    · exact same ▸ id_mem_ids b
    · obtain ⟨m, hm, e⟩ := List.mem_map.1 up
      obtain ⟨l, hl, rfl⟩ := exists_located_of_ancestor hm
      rw [h.ancestors_eq hl] at hm
      obtain ⟨p, hp, rfl, below⟩ := (Located.holder hl hm).resolve_left (by simp)
      obtain rfl := h.unique mem (mem_branches_of_located hp) e.symm
      exact List.mem_map_of_mem below

theorem isAttached_iff (n : Nat) : t.isAttached n ↔ n ∈ t.sheet.ids := by
  simp [Tree.isAttached, Branch.find?, Branch.ids]

/-- A tree whose numbers are in order is well-formed. -/
theorem Numbered.wellFormed (h : t.Numbered) : t.WellFormed where
  found := by
    intro id
    rw [Option.isSome_iff_exists, ← h.mem_ids_iff, mem_ids]
    exact exists_congr fun b => h.find?_eq_some
  linked := h.linked
  once := by
    rw [List.Nodup, List.pairwise_flatMap]
    refine ⟨fun p _ => h.childrenOf_nodup p, List.nodup_range.imp fun {p q} apart c hc d hd e => apart ?_⟩
    rw [h.linked] at hc hd
    subst e
    exact Option.some.inj (hc.symm.trans hd)
  root := by
    have top : ⟨[], t.sheet⟩ ∈ t.located := mem_locateAll.2 ⟨t.sheet, List.mem_cons_self .., mem_locate.2 (.inl rfl)⟩
    have : t.ancestors t.root = [] := h.ancestors_eq top
    rw [Tree.parent?, this]
    rfl
  climbs := h.climbs
  descends := by
    intro id b found
    obtain ⟨mem, rfl⟩ := mem_of_find? found
    have inside := preorder_sublist_preorderAll t.forest b mem
    refine ⟨?_, (inside.map Branch.id).nodup h.once, fun n => h.mem_ids_branch_iff mem⟩
    have done : t.Visits [] [] := rfl
    simpa using h.visits b inside.subset done
  attached := by
    have done : t.Visits [] [] := rfl
    have inside := preorder_sublist_preorderAll t.forest t.sheet t.sheet_mem_branches
    have visits := h.visits t.sheet inside.subset done
    rw [List.append_nil] at visits
    exact ⟨visits, (inside.map Branch.id).nodup h.once, fun n => (isAttached_iff n).symm⟩
  isAttached := fun n => (isAttached_iff n).trans (h.mem_ids_branch_iff t.sheet_mem_branches)

end AboveFold.Tree
