import AboveFold.Tree.Basic

/-!
# Branches side by side

The branches of a tree stand side by side, the style sheet first. Here is what holds of any such list:
which branches are inside, what stands above each of them, and what an edit deep inside changes.
-/

namespace AboveFold.Branch

/-- The numbers of all nodes of a list of branches, in document order. -/
def idsAll (bs : List Branch) : List Nat :=
  (preorderAll bs).map Branch.id

variable {b c x : Branch} {bs cs : List Branch}

@[simp] theorem preorderAll_nil : preorderAll [] = [] := rfl

@[simp] theorem preorderAll_cons (b : Branch) (bs : List Branch) :
    preorderAll (b :: bs) = b.preorder ++ preorderAll bs := rfl

@[simp] theorem preorderAll_append (bs cs : List Branch) :
    preorderAll (bs ++ cs) = preorderAll bs ++ preorderAll cs := by
  induction bs with
  | nil => rfl
  | cons b bs ih => simp [ih]

@[simp] theorem idsAll_nil : idsAll [] = [] := rfl

@[simp] theorem idsAll_cons (b : Branch) (bs : List Branch) : idsAll (b :: bs) = b.ids ++ idsAll bs := by
  simp [idsAll, ids]

@[simp] theorem idsAll_append (bs cs : List Branch) : idsAll (bs ++ cs) = idsAll bs ++ idsAll cs := by
  simp [idsAll]

@[simp] theorem ids_mk (n : Node) (cs : List Branch) : (mk n cs).ids = n.id :: idsAll cs := rfl

theorem mem_preorderAll : x ∈ preorderAll bs ↔ ∃ b ∈ bs, x ∈ b.preorder := by
  induction bs with
  | nil => simp
  | cons b bs ih => simp [ih]

theorem mem_preorder : x ∈ b.preorder ↔ x = b ∨ x ∈ preorderAll b.children := by
  cases b
  simp [preorder, children]

theorem self_mem_preorder (b : Branch) : b ∈ b.preorder := mem_preorder.2 (.inl rfl)

/-- A marked node hides nothing but what is below it. -/
theorem mem_of_unmarked {n : Node} (mem : x ∈ (Branch.mk n cs).preorder) (marked : n.modified = true)
    (unmodified : x.node.modified = false) : x ∈ preorderAll cs := by
  rcases mem_preorder.1 mem with rfl | mem
  · rw [Branch.node, marked] at unmodified
    cases unmodified
  · exact mem

theorem mem_preorderAll_of_mem (mem : b ∈ bs) : b ∈ preorderAll bs :=
  mem_preorderAll.2 ⟨b, mem, self_mem_preorder b⟩

theorem preorderAll_subset (sub : cs ⊆ bs) : preorderAll cs ⊆ preorderAll bs := by
  intro x mem
  obtain ⟨b, hb, hx⟩ := mem_preorderAll.1 mem
  exact mem_preorderAll.2 ⟨b, sub hb, hx⟩

mutual

theorem preorder_sublist_preorder : ∀ b : Branch, ∀ c ∈ b.preorder, c.preorder.Sublist b.preorder
  | mk n cs, c, mem => by
    rcases mem_preorder.1 mem with rfl | mem
    · exact List.Sublist.refl _
    · exact (preorder_sublist_preorderAll cs c mem).cons _

/-- A branch inside others brings all that hangs below it. -/
theorem preorder_sublist_preorderAll : ∀ bs : List Branch, ∀ c ∈ preorderAll bs,
    c.preorder.Sublist (preorderAll bs)
  | b :: bs, c, mem => by
    simp only [preorderAll_cons, List.mem_append] at mem ⊢
    rcases mem with mem | mem
    · exact (preorder_sublist_preorder b c mem).trans (List.sublist_append_left _ _)
    · exact (preorder_sublist_preorderAll bs c mem).trans (List.sublist_append_right _ _)

end

theorem id_mem_ids (b : Branch) : b.id ∈ b.ids := List.mem_map_of_mem (self_mem_preorder b)

theorem mem_idsAll {n : Nat} : n ∈ idsAll bs ↔ ∃ b ∈ preorderAll bs, b.id = n := by
  simp [idsAll]

/-! ## What stands above -/

section Located

variable {above : List Node} {l p : Located}

mutual

theorem locate_branch (above : List Node) : ∀ b : Branch, (locate above b).map Located.branch = b.preorder
  | mk n cs => by simp [locate, preorder, locateAll_branch (n :: above) cs]

theorem locateAll_branch (above : List Node) :
    ∀ bs : List Branch, (locateAll above bs).map Located.branch = preorderAll bs
  | [] => rfl
  | b :: bs => by simp [locateAll, locate_branch above b, locateAll_branch above bs]

end

theorem mem_locateAll : l ∈ locateAll above bs ↔ ∃ b ∈ bs, l ∈ locate above b := by
  induction bs with
  | nil => simp [locateAll]
  | cons b bs ih => simp [locateAll, ih]

theorem mem_locate : l ∈ locate above b ↔ l = ⟨above, b⟩ ∨ l ∈ locateAll (b.node :: above) b.children := by
  cases b
  simp [locate, node, children]

/-- Each branch inside others has its place. -/
theorem exists_located (mem : b ∈ preorderAll bs) (above : List Node) :
    ∃ l ∈ locateAll above bs, l.branch = b := by
  rw [← locateAll_branch above bs] at mem
  simpa using mem

theorem Located.branch_mem (mem : l ∈ locateAll above bs) : l.branch ∈ preorderAll bs := by
  rw [← locateAll_branch above bs]
  exact List.mem_map_of_mem mem

mutual

theorem locate_cases : ∀ (b : Branch) (above : List Node), ∀ l ∈ locate above b,
    l = ⟨above, b⟩ ∨ ∃ p ∈ locate above b, l.above = p.branch.node :: p.above ∧ l.branch ∈ p.branch.children
  | mk n cs, above, l, mem => by
    rcases mem_locate.1 mem with rfl | mem
    · exact .inl rfl
    · rcases locateAll_cases cs (n :: above) l mem with ⟨e, mem⟩ | ⟨p, hp, h⟩
      · exact .inr ⟨⟨above, mk n cs⟩, mem_locate.2 (.inl rfl), e, mem⟩
      · exact .inr ⟨p, mem_locate.2 (.inr hp), h⟩

/-- A branch stands at the top or below one whose node comes first among those above it. -/
theorem locateAll_cases : ∀ (bs : List Branch) (above : List Node), ∀ l ∈ locateAll above bs,
    l.above = above ∧ l.branch ∈ bs
      ∨ ∃ p ∈ locateAll above bs, l.above = p.branch.node :: p.above ∧ l.branch ∈ p.branch.children
  | b :: bs, above, l, mem => by
    rw [locateAll, List.mem_append] at mem
    rcases mem with mem | mem
    · rcases locate_cases b above l mem with rfl | ⟨p, hp, h⟩
      · exact .inl ⟨rfl, by simp⟩
      · exact .inr ⟨p, by simp [locateAll, hp], h⟩
    · rcases locateAll_cases bs above l mem with ⟨e, mem⟩ | ⟨p, hp, h⟩
      · exact .inl ⟨e, by simp [mem]⟩
      · exact .inr ⟨p, by simp [locateAll, hp], h⟩

end

mutual

theorem locate_subset_locate : ∀ (b : Branch) (above : List Node), ∀ p ∈ locate above b,
    locate p.above p.branch ⊆ locate above b
  | mk n cs, above, p, mem => by
    rcases mem_locate.1 mem with rfl | mem
    · exact List.Subset.refl _
    · exact fun l hl => mem_locate.2 (.inr (locate_subset_locateAll cs (n :: above) p mem hl))

/-- What stands below a branch has its place below the place of the branch. -/
theorem locate_subset_locateAll : ∀ (bs : List Branch) (above : List Node), ∀ p ∈ locateAll above bs,
    locate p.above p.branch ⊆ locateAll above bs
  | b :: bs, above, p, mem => by
    rw [locateAll, List.mem_append] at mem
    rcases mem with mem | mem
    · exact fun l hl => List.mem_append_left _ (locate_subset_locate b above p mem hl)
    · exact fun l hl => List.mem_append_right _ (locate_subset_locateAll bs above p mem hl)

end

theorem Located.child_mem (hp : p ∈ locateAll above bs) (mem : c ∈ p.branch.children) :
    ⟨p.branch.node :: p.above, c⟩ ∈ locateAll above bs := by
  refine locate_subset_locateAll bs above p hp (mem_locate.2 (.inr ?_))
  exact mem_locateAll.2 ⟨c, mem, mem_locate.2 (.inl rfl)⟩

/-- A node above a branch is the top of one that holds it. -/
theorem Located.holder (hl : l ∈ locateAll above bs) {n : Node} (mem : n ∈ l.above) :
    n ∈ above ∨ ∃ p ∈ locateAll above bs, p.branch.node = n ∧ l.branch ∈ p.branch.preorder := by
  induction e : l.above generalizing l with
  | nil => simp [e] at mem
  | cons m ms ih =>
    rcases locateAll_cases bs above l hl with ⟨top, -⟩ | ⟨p, hp, e', child⟩
    · exact .inl (top ▸ mem)
    · rw [e', List.mem_cons] at mem
      rcases mem with rfl | mem
      · exact .inr ⟨p, hp, rfl, mem_preorder.2 (.inr (mem_preorderAll_of_mem child))⟩
      · rw [e, List.cons.injEq] at e'
        rcases ih hp mem e'.2.symm with top | ⟨q, hq, e'', inside⟩
        · exact .inl top
        · refine .inr ⟨q, hq, e'', (preorder_sublist_preorder q.branch p.branch inside).subset ?_⟩
          exact mem_preorder.2 (.inr (mem_preorderAll_of_mem child))

/-- Of a branch and what is below it, all but itself stand below its node. -/
theorem Located.node_mem_above (mem : l ∈ locate above b) : l.branch = b ∨ b.node ∈ l.above := by
  induction e : l.above.length generalizing l with
  | zero =>
    rcases locate_cases b above l mem with rfl | ⟨p, -, e', -⟩
    · exact .inl rfl
    · simp [e'] at e
  | succ k ih =>
    rcases locate_cases b above l mem with rfl | ⟨p, hp, e', -⟩
    · exact .inl rfl
    · rw [e'] at e ⊢
      rcases ih hp (by simpa using e) with rfl | h
      · exact .inr (by simp)
      · exact .inr (List.mem_cons_of_mem _ h)

end Located

/-! ## Edits deep inside -/

section Edit

variable {id : Nat} {f : Branch → Branch}

/-- What was made of the branches `bs` by applying `f` at the node `id`: numbers change only there, and
what is not marked was there before or comes from `f`. -/
structure EditedAt (id : Nat) (f : Branch → Branch) (bs bs' : List Branch) (c : Branch) : Prop where
  mem : c ∈ preorderAll bs
  id_eq : c.id = id
  mem_new : f c ∈ preorderAll bs'
  count : ∀ n, (idsAll bs').count n + c.ids.count n = (idsAll bs).count n + (f c).ids.count n
  unmarked : ∀ x ∈ preorderAll bs', x.node.modified = false → x ∈ preorderAll bs ∨ x ∈ (f c).preorder

theorem EditedAt.below {n : Node} {bs' : List Branch} (h : EditedAt id f bs bs' c) :
    EditedAt id f [Branch.mk n bs] [Branch.mk { n with modified := true } bs'] c where
  mem := by simp [mem_preorder, h.mem, children]
  id_eq := h.id_eq
  mem_new := by simp [mem_preorder, h.mem_new, children]
  count := by
    intro m
    have := h.count m
    simp only [idsAll_cons, idsAll_nil, ids_mk, List.append_nil, List.count_cons]
    omega
  unmarked := by
    intro x mem unmodified
    simp only [preorderAll_cons, preorderAll_nil, List.append_nil] at mem ⊢
    rcases mem_preorder.1 mem with rfl | mem
    · simp [node] at unmodified
    · exact (h.unmarked x mem unmodified).imp_left fun h => mem_preorder.2 (.inr h)

theorem EditedAt.beside {bs' cs' : List Branch} (ds es : List Branch) (h : EditedAt id f bs bs' c)
    (split : cs = ds ++ bs ++ es) (split' : cs' = ds ++ bs' ++ es) : EditedAt id f cs cs' c where
  mem := by simp [split, h.mem]
  id_eq := h.id_eq
  mem_new := by simp [split', h.mem_new]
  count := by
    intro m
    have := h.count m
    simp only [split, split', idsAll_append, List.count_append]
    omega
  unmarked := by
    intro x mem unmodified
    simp only [split, split', preorderAll_append, List.mem_append] at mem ⊢
    rcases mem with (mem | mem) | mem
    · exact .inl (.inl (.inl mem))
    · exact (h.unmarked x mem unmodified).imp_left fun h => .inl (.inr h)
    · exact .inl (.inr mem)

mutual

theorem edit_cases (id : Nat) (f : Branch → Branch) : ∀ b : Branch,
    id ∉ b.ids ∧ edit id f b = none ∨ ∃ b' c, edit id f b = some b' ∧ EditedAt id f [b] [b'] c
      ∧ (b'.id = b.id ∨ b = c ∧ b' = f c)
  | mk n cs => by
    by_cases here : n.id = id
    · refine .inr ⟨_, mk n cs, by simp only [edit, here, if_true], ⟨?_, here, ?_, ?_, ?_⟩, .inr ⟨rfl, rfl⟩⟩
      · simp [self_mem_preorder]
      · simp [self_mem_preorder]
      · intro m
        simp only [idsAll_cons, idsAll_nil, List.append_nil]
        omega
      · exact fun x mem _ => .inr (by simpa using mem)
    · rcases editAll_cases id f cs with ⟨absent, e⟩ | ⟨cs', c, e, edited⟩
      · exact .inl ⟨by simpa using ⟨fun h => here h.symm, absent⟩, by simp [edit, here, e]⟩
      · exact .inr ⟨_, c, by simp only [edit, here, if_false, e, Option.map_some], edited.below, .inl rfl⟩

/-- An edit applies its function at one place, or the number is not there. -/
theorem editAll_cases (id : Nat) (f : Branch → Branch) : ∀ bs : List Branch,
    id ∉ idsAll bs ∧ editAll id f bs = none ∨ ∃ bs' c, editAll id f bs = some bs' ∧ EditedAt id f bs bs' c
  | [] => .inl ⟨by simp, rfl⟩
  | b :: bs => by
    rcases edit_cases id f b with ⟨absent, e⟩ | ⟨b', c, e, edited, -⟩
    · rcases editAll_cases id f bs with ⟨absent', e'⟩ | ⟨bs', c, e', edited⟩
      · exact .inl ⟨by simp [absent, absent'], by simp [editAll, e, e']⟩
      · exact .inr ⟨b :: bs', c, by simp only [editAll, e, e', Option.map_some],
          edited.beside [b] [] (by simp) (by simp)⟩
    · exact .inr ⟨b' :: bs, c, by simp only [editAll, e], edited.beside [] bs (by simp) (by simp)⟩

end

end Edit

end AboveFold.Branch
