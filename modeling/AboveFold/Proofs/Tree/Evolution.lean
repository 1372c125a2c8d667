import AboveFold.Proofs.Tree.Links

/-!
# What operations keep

Whatever is done to a tree, its numbers stay in order, its root stays the root, and a node that is not
marked afterwards is still the branch it was before. Each operation has one lemma that says so.
-/

namespace AboveFold

/-- A branch without one of its children. -/
def Branch.without (id : Nat) : Branch → Branch
  | mk n cs => mk { n with modified := true } (cs.filter (·.id ≠ id))

/-- A branch with another as its child at `index`, or as the last if there are fewer. -/
def Branch.including (index : Nat) (b : Branch) : Branch → Branch
  | mk n cs => mk { n with modified := true } (cs.take (min index cs.length) ++ b :: cs.drop (min index cs.length))

namespace Tree
open Branch

/-- How a tree may become another: nodes are only added, the root stays, and what is not marked in the
new tree was in the old one as it is. -/
structure Evolves (t t' : Tree) : Prop where
  numbered : t'.Numbered
  root : t'.root = t.root
  size_le : t.size ≤ t'.size
  unmarked : ∀ b ∈ t'.branches, b.node.modified = false → b ∈ t.branches

variable {t u v : Tree} {b c : Branch} {n : Node} {id : Nat} {cs : List Branch}

theorem Evolves.refl (h : t.Numbered) : t.Evolves t :=
  ⟨h, rfl, Nat.le_refl _, fun _ mem _ => mem⟩

theorem Evolves.trans (h : t.Evolves u) (h' : u.Evolves v) : t.Evolves v where
  numbered := h'.numbered
  root := h'.root.trans h.root
  size_le := Nat.le_trans h.size_le h'.size_le
  unmarked := fun b mem unmodified => h.unmarked b (h'.unmarked b mem unmodified) unmodified

/-! ## Edits -/

theorem children_subset_branches (mem : b ∈ t.branches) : preorderAll b.children ⊆ t.branches :=
  fun _ hx => (preorder_sublist_preorderAll t.forest b mem).subset (mem_preorder.2 (.inr hx))

/-- An edit applies its function at one branch of the tree. -/
theorem edit_spec (t : Tree) (id : Nat) (f : Branch → Branch) (kept : ∀ c, c.id = id → (f c).id = id) :
    id ∉ t.ids ∧ t.edit id f = t
      ∨ ∃ c, EditedAt id f t.forest (t.edit id f).forest c ∧ (t.edit id f).size = t.size
        ∧ (t.edit id f).root = t.root := by
  unfold Tree.edit
  rcases edit_cases id f t.sheet with ⟨absent, e⟩ | ⟨sheet, c, e, edited, same⟩
  · rcases editAll_cases id f t.loose with ⟨absent', e'⟩ | ⟨loose, c, e', edited⟩
    · exact .inl ⟨by simp [ids, forest, absent, absent'], by simp [e, e']⟩
    · refine .inr ⟨c, ?_⟩
      simp only [e, e', Tree.root, and_true]
      exact edited.beside [t.sheet] [] (by simp [forest]) (by simp [forest])
  · refine .inr ⟨c, ?_⟩
    simp only [e, true_and]
    refine ⟨edited.beside [] t.loose (by simp [forest]) (by simp [forest]), ?_⟩
    rcases same with same | ⟨same, same'⟩
    · exact same
    · rw [Tree.root, Tree.root, same', kept c edited.id_eq, same, edited.id_eq]

/-- An edit that puts no other nodes in place of those that were there. -/
theorem Numbered.edit (h : t.Numbered) (id : Nat) (f : Branch → Branch) (kept : ∀ c, c.id = id → (f c).id = id)
    (count : ∀ c ∈ t.branches, c.id = id → ∀ n, (f c).ids.count n = c.ids.count n)
    (unmarked : ∀ c ∈ t.branches, c.id = id → ∀ x ∈ (f c).preorder, x.node.modified = false → x ∈ t.branches) :
    t.Evolves (t.edit id f) := by
  rcases t.edit_spec id f kept with ⟨-, e⟩ | ⟨c, edited, size, root⟩
  · rw [e]
    exact .refl h
  · refine ⟨fun n => ?_, root, Nat.le_of_eq size.symm, fun x mem unmodified => ?_⟩
    · have := edited.count n
      have := count c edited.mem edited.id_eq n
      have := h n
      simp only [ids] at this ⊢
      rw [size]
      omega
    · rcases edited.unmarked x mem unmodified with mem | mem
      · exact mem
      · exact unmarked c edited.mem edited.id_eq x mem unmodified

theorem Numbered.markModified (h : t.Numbered) (id : Nat) : t.Evolves (t.markModified id) := by
  refine h.edit id _ ?_ ?_ ?_
  · rintro ⟨n, cs⟩ e
    exact e
  · rintro ⟨n, cs⟩ - - m
    rfl
  · rintro ⟨n, cs⟩ mem - x hx unmodified
    exact children_subset_branches mem (mem_of_unmarked hx rfl unmodified)

theorem Numbered.setKind (h : t.Numbered) (id : Nat) (kind : Node.Kind) : t.Evolves (t.setKind id kind) := by
  refine h.edit id _ ?_ ?_ ?_
  · rintro ⟨n, cs⟩ e
    exact e
  · rintro ⟨n, cs⟩ - - m
    rfl
  · rintro ⟨n, cs⟩ mem - x hx unmodified
    exact children_subset_branches mem (mem_of_unmarked hx rfl unmodified)

theorem Numbered.create (h : t.Numbered) (kind : Node.Kind) : t.Evolves (t.create kind).2 where
  numbered := by
    intro n
    have := h n
    simp only [ids, forest, Tree.create, idsAll_cons, ids_mk, idsAll_nil, List.count_append, List.count_cons,
      List.count_nil, beq_iff_eq] at this ⊢
    split <;> omega
  root := rfl
  size_le := Nat.le_succ _
  unmarked := by
    intro x mem unmodified
    simp only [branches, forest, Tree.create, preorderAll_cons, List.mem_append] at mem ⊢
    rcases mem with mem | mem | mem
    · exact .inl mem
    · have := mem_of_unmarked mem rfl unmodified
      simp at this
    · exact .inr mem

/-! ## Moving branches -/

/-- A branch among others whose numbers occur once is the only one with its number. -/
theorem apart_of_once {l r : List Branch} (once : (idsAll (l ++ b :: r)).Nodup) :
    (∀ c ∈ l, c.id ≠ b.id) ∧ ∀ c ∈ r, c.id ≠ b.id := by
  simp only [idsAll_append, idsAll_cons, List.nodup_append, List.mem_append] at once
  obtain ⟨-, ⟨-, -, right⟩, left⟩ := once
  have top {c : Branch} {bs : List Branch} (mem : c ∈ bs) : c.id ∈ idsAll bs :=
    mem_idsAll.2 ⟨c, mem_preorderAll_of_mem mem, rfl⟩
  refine ⟨fun c mem => ?_, fun c mem e => ?_⟩
  · exact left c.id (top mem) b.id (.inl (id_mem_ids b))
  · exact right b.id (id_mem_ids b) c.id (top mem) e.symm

theorem exists_split (once : (idsAll cs).Nodup) (mem : b ∈ cs) :
    ∃ l r, cs = l ++ b :: r ∧ (∀ c ∈ l, c.id ≠ b.id) ∧ ∀ c ∈ r, c.id ≠ b.id := by
  obtain ⟨l, r, rfl⟩ := List.append_of_mem mem
  exact ⟨l, r, rfl, apart_of_once once⟩

theorem filter_split {l r : List Branch} (left : ∀ c ∈ l, c.id ≠ b.id) (right : ∀ c ∈ r, c.id ≠ b.id) :
    (l ++ b :: r).filter (·.id ≠ b.id) = l ++ r := by
  simp only [List.filter_append, List.filter_cons, ne_eq, not_true_eq_false, decide_false]
  rw [List.filter_eq_self.2 (by simpa using left), List.filter_eq_self.2 (by simpa using right)]
  rfl

/-- A node with a parent is a child of the one branch that has the number of the parent. -/
theorem Numbered.exists_parent (h : t.Numbered) {p : Node} (e : t.parent? id = some p) (found : t.find? id = some b) :
    ∃ q ∈ t.branches, q.node = p ∧ b ∈ q.children := by
  obtain ⟨l, hl, node, c, child, rfl⟩ := exists_located_of_parent? e
  obtain ⟨mem, same⟩ := mem_of_find? found
  have hc : c ∈ t.branches := children_subset_branches (mem_branches_of_located hl) (mem_preorderAll_of_mem child)
  exact ⟨l.branch, mem_branches_of_located hl, node, h.unique mem hc same ▸ child⟩

theorem detach_eq {p : Node} (up : t.parent? id = some p) (found : t.find? id = some b) :
    (t.detach id).2 = { t.edit p.id (without id) with loose := b :: (t.edit p.id (without id)).loose } := by
  simp only [Tree.detach, up, found]
  rfl

/-- Putting branches in the place of a branch: its nodes go, and theirs come. -/
structure Grafted (t : Tree) (b : Branch) (bs : List Branch) (t' : Tree) : Prop where
  size : t'.size = t.size
  root : t'.root = t.root
  count : ∀ n, t'.ids.count n + b.ids.count n = t.ids.count n + (idsAll bs).count n
  unmarked : ∀ x ∈ t'.branches, x.node.modified = false → x ∈ t.branches ∨ x ∈ preorderAll bs

/-- An edit of a branch that puts others in the place of one child. -/
theorem Numbered.edit_child (h : t.Numbered) {q : Branch} (hq : q ∈ t.branches) (child : b ∈ q.children)
    (bs : List Branch) {f : Branch → Branch} (kept : ∀ c, (f c).id = c.id)
    (replaced : ∀ l r n, (∀ c ∈ l, c.id ≠ b.id) → (∀ c ∈ r, c.id ≠ b.id) →
      f (.mk n (l ++ b :: r)) = .mk { n with modified := true } (l ++ bs ++ r)) :
    Grafted t b bs (t.edit q.id f) := by
  rcases t.edit_spec q.id f (fun c e => (kept c).trans e) with ⟨absent, -⟩ | ⟨c, edited, size, root⟩
  · exact absurd (mem_ids.2 ⟨q, hq, rfl⟩) absent
  obtain rfl := h.unique edited.mem hq edited.id_eq
  have within := children_subset_branches hq
  obtain ⟨l, r, split, left, right⟩ := exists_split (h.once_children hq) child
  obtain ⟨n, cs⟩ := c
  simp only [Branch.children] at split
  subst split
  have e := replaced l r n left right
  refine ⟨size, root, fun m => ?_, fun x mem unmodified => ?_⟩
  · have := edited.count m
    simp only [e, ids_mk, idsAll_append, idsAll_cons, List.count_cons, List.count_append] at this
    simp only [ids]
    omega
  · rcases edited.unmarked x mem unmodified with mem | mem
    · exact .inl mem
    · rw [e] at mem
      have := mem_of_unmarked mem rfl unmodified
      simp only [Branch.children, preorderAll_append, preorderAll_cons, List.mem_append] at this within
      rcases this with (mem | mem) | mem
      · exact .inl (within (by simp [mem]))
      · exact .inr mem
      · exact .inl (within (by simp [mem]))

theorem Numbered.edit_without (h : t.Numbered) {q : Branch} (hq : q ∈ t.branches) (child : b ∈ q.children) :
    Grafted t b [] (t.edit q.id (without b.id)) := by
  refine h.edit_child hq child [] (fun c => ?_) fun l r n left right => ?_
  · cases c
    rfl
  · simp only [without, filter_split left right, List.append_nil]

/-- Taking a branch out of its place keeps it whole. -/
theorem Numbered.detach (h : t.Numbered) (id : Nat) :
    t.Evolves (t.detach id).2 ∧ (t.detach id).2.size = t.size
      ∧ ∀ b ∈ t.branches, b.id = id → b ∈ (t.detach id).2.branches := by
  have nothing : t.Evolves t ∧ t.size = t.size ∧ ∀ b ∈ t.branches, b.id = id → b ∈ t.branches :=
    ⟨.refl h, rfl, fun _ mem _ => mem⟩
  cases up : t.parent? id with
  | none => simpa only [Tree.detach, up] using nothing
  | some p =>
    cases found : t.find? id with
    | none => simpa only [Tree.detach, up, found] using nothing
    | some b =>
      obtain ⟨q, hq, rfl, child⟩ := h.exists_parent up found
      obtain ⟨mem, rfl⟩ := mem_of_find? found
      obtain ⟨size, root, count, unmarked⟩ := h.edit_without hq child
      simp only [idsAll_nil, List.count_nil, preorderAll_nil, List.not_mem_nil, or_false] at count unmarked
      have e : (t.detach b.id).2 =
          { t.edit q.id (without b.id) with loose := b :: (t.edit q.id (without b.id)).loose } := detach_eq up found
      rw [e]
      refine ⟨⟨fun m => ?_, root, Nat.le_of_eq size.symm, fun x hx unmodified => ?_⟩, size, fun c hc e => ?_⟩
      · have := h m
        have := count m
        simp only [count_ids, idsAll_cons, List.count_append] at *
        omega
      · rcases mem_branches.1 hx with hx | hx
        · exact unmarked x (mem_branches.2 (.inl hx)) unmodified
        · rcases List.mem_append.1 hx with hx | hx
          · exact (preorder_sublist_preorderAll t.forest b mem).subset hx
          · exact unmarked x (mem_branches.2 (.inr hx)) unmodified
      · rw [h.unique hc mem e]
        exact mem_branches.2 (.inr (by simp [self_mem_preorder]))

theorem count_including (index : Nat) (b c : Branch) (m : Nat) :
    (including index b c).ids.count m = c.ids.count m + b.ids.count m := by
  obtain ⟨n, cs⟩ := c
  have parts := List.take_append_drop (min index cs.length) cs
  have : (idsAll cs).count m
      = (idsAll (cs.take (min index cs.length))).count m + (idsAll (cs.drop (min index cs.length))).count m := by
    rw [← List.count_append, ← idsAll_append, parts]
  simp only [including, ids_mk, idsAll_append, idsAll_cons, List.count_cons, List.count_append]
  omega

theorem mem_of_including {index : Nat} {x : Branch} (mem : x ∈ (including index b c).preorder)
    (unmodified : x.node.modified = false) : x ∈ c.preorder ∨ x ∈ b.preorder := by
  obtain ⟨n, cs⟩ := c
  have := mem_of_unmarked mem rfl unmodified
  simp only [preorderAll_append, preorderAll_cons, List.mem_append] at this
  rcases this with mem | mem | mem
  · exact .inl (mem_preorder.2 (.inr (preorderAll_subset (List.take_subset _ _) mem)))
  · exact .inr mem
  · exact .inl (mem_preorder.2 (.inr (preorderAll_subset (List.drop_subset _ _) mem)))

/-- Putting a loose branch below a node that is not inside it. -/
theorem Numbered.edit_including (h : t.Numbered) (mem : b ∈ t.loose) {parent : Nat} (lt : parent < t.size)
    (outside : parent ∉ b.ids) (index : Nat) :
    t.Evolves (Tree.edit { t with loose := t.loose.filter (·.id ≠ b.id) } parent (including index b)) := by
  have once : (idsAll t.loose).Nodup := by
    have := h.once
    rw [ids, forest, idsAll_cons, List.nodup_append] at this
    exact this.2.1
  obtain ⟨l, r, split, left, right⟩ := exists_split once mem
  rw [split, filter_split left right]
  have count (m : Nat) : (Tree.mk t.sheet (l ++ r) t.size).ids.count m + b.ids.count m = t.ids.count m := by
    simp only [count_ids, split, idsAll_append, idsAll_cons, List.count_append]
    omega
  have sub : (Tree.mk t.sheet (l ++ r) t.size).branches ⊆ t.branches := by
    refine preorderAll_subset ?_
    rw [forest, forest, split]
    exact (((List.sublist_cons_self b r).append_left l).cons_cons t.sheet).subset
  have inside : b.preorder ⊆ t.branches :=
    (preorder_sublist_preorderAll t.forest b (mem_branches.2 (.inr (mem_preorderAll_of_mem mem)))).subset
  have kept (c : Branch) (e : c.id = parent) : (including index b c).id = parent := by
    cases c
    exact e
  rcases edit_spec ⟨t.sheet, l ++ r, t.size⟩ parent (including index b) kept with
    ⟨absent, -⟩ | ⟨c, edited, size, root⟩
  · have := count parent
    have := h parent
    rw [← List.count_eq_zero] at absent outside
    omega
  · refine ⟨fun m => ?_, root, Nat.le_of_eq size.symm, fun x mem unmodified => ?_⟩
    · have := h m
      have := count m
      have := edited.count m
      rw [count_including] at this
      simp only [ids] at *
      omega
    · rcases edited.unmarked x mem unmodified with mem | mem
      · exact sub mem
      · rcases mem_of_including mem unmodified with mem | mem
        · exact sub ((preorder_sublist_preorderAll _ c edited.mem).subset mem)
        · exact inside mem

theorem Numbered.insert (h : t.Numbered) {parent : Nat} (lt : parent < t.size) (index child : Nat) :
    t.Evolves (t.insert parent index child) := by
  unfold Tree.insert
  split
  next => exact .refl h
  next free =>
    obtain ⟨evolves, size, whole⟩ := h.detach child
    simp only
    split
    next => exact evolves
    next b found =>
      have mem := List.mem_of_find?_eq_some found
      obtain rfl : b.id = child := by simpa using List.find?_some found
      refine evolves.trans (evolves.numbered.edit_including mem (size ▸ lt) (fun inside => ?_) index)
      have hb : b ∈ (t.detach b.id).2.branches := mem_branches.2 (.inr (mem_preorderAll_of_mem mem))
      obtain ⟨c, hc, e⟩ := mem_ids.1 (h.mem_ids_iff.2 (size ▸ evolves.numbered.id_lt hb))
      obtain rfl := evolves.numbered.unique (whole c hc e) hb e
      simp only [Bool.or_eq_true, decide_eq_true_eq, List.any_eq_true, not_or, not_exists, not_and] at free
      rcases h.top_or_ancestor hc inside with same | above
      · exact free.1.2 same.symm
      · exact free.2 _ above rfl

theorem Numbered.append (h : t.Numbered) {parent : Nat} (lt : parent < t.size) (child : Nat) :
    t.Evolves (t.append parent child) :=
  h.insert lt _ child

theorem Numbered.replace (h : t.Numbered) (old replacement : Nat) :
    t.Evolves (t.replace old replacement).2 := by
  unfold Tree.replace
  split
  next => exact .refl h
  next p up =>
    obtain ⟨l, hl, rfl, -⟩ := exists_located_of_parent? up
    obtain ⟨evolves, size, -⟩ := h.detach old
    have lt : l.branch.id < (t.detach old).2.size := size ▸ h.id_lt (mem_branches_of_located hl)
    exact evolves.trans (evolves.numbered.insert lt _ replacement)

end Tree

end AboveFold
