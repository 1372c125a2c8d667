import AboveFold.Proofs.Tree.Settling

/-!
# Walks that take nodes out

A walk whose visitor does nothing but take nodes out notes each node that lost a child. So when no rule was
empty before, each that is empty after the walk waits for a node that was noted, the cascade finds them all,
and the walk ends as a sweep would.
-/

namespace AboveFold
open Branch

/-- A visitor that changes nothing but by taking nodes out. -/
def Visitor.Removes (v : Visitor) : Prop :=
  ∀ site, v site = .descend ∨ v site = .skip ∨ v site = .remove

/-- What a walk that takes nodes out made of branches: a node that stays has the children it had, or was
noted. -/
structure Passed.Follows (above : List Node) (bs : List Branch) (trail : Trail) (r : Passed) : Prop where
  noted : trail.bereft ⊆ r.trail.bereft
  stays : ∀ i ∈ r.trail.bereft, i ∈ trail.bereft ∨ i ∈ idsAll r.branches ∨ ∃ n, above.head? = some n ∧ n.id = i
  beside : r.branches.map Branch.id = bs.map Branch.id ∨ ∃ n, above.head? = some n ∧ n.id ∈ r.trail.bereft
  inside : ∀ x' ∈ preorderAll r.branches, ∃ x ∈ preorderAll bs, x'.id = x.id ∧ x'.kind = x.kind
    ∧ (x'.children.map Branch.id = x.children.map Branch.id ∨ x'.id ∈ r.trail.bereft)

section

variable {above : List Node} {trail : Trail} {b : Branch} {bs cs : List Branch} {r rs : Passed} {n : Node}

theorem Passed.Follows.same (visited : List Branch) :
    Passed.Follows above bs trail ⟨bs, false, { trail with visited }⟩ where
  noted := List.Subset.refl _
  stays := fun _ mem => .inl mem
  beside := .inl rfl
  inside := fun x mem => ⟨x, mem, rfl, rfl, .inl rfl⟩

theorem Passed.Follows.append (h : Passed.Follows above [b] trail r) (h' : Passed.Follows above bs r.trail rs) :
    Passed.Follows above (b :: bs) trail ⟨r.branches ++ rs.branches, r.touched || rs.touched, rs.trail⟩ where
  noted := List.Subset.trans h.noted h'.noted
  stays := by
    intro i mem
    simp only [idsAll_append, List.mem_append]
    rcases h'.stays i mem with mem | here | top
    · rcases h.stays i mem with mem | here | top
      · exact .inl mem
      · exact .inr (.inl (.inl here))
      · exact .inr (.inr top)
    · exact .inr (.inl (.inr here))
    · exact .inr (.inr top)
  beside := by
    rcases h.beside with same | ⟨n, top, mem⟩
    · rcases h'.beside with same' | top
      · refine .inl ?_
        rw [List.map_append, same, same']
        rfl
      · exact .inr top
    · exact .inr ⟨n, top, h'.noted mem⟩
  inside := by
    intro x' mem
    rw [preorderAll_append, List.mem_append] at mem
    rw [preorderAll_cons]
    rcases mem with mem | mem
    · obtain ⟨x, hx, id, kind, children⟩ := h.inside x' mem
      rw [preorderAll_cons, preorderAll_nil, List.append_nil] at hx
      exact ⟨x, List.mem_append_left _ hx, id, kind, children.imp_right fun mem => h'.noted mem⟩
    · obtain ⟨x, hx, same⟩ := h'.inside x' mem
      exact ⟨x, List.mem_append_right _ hx, same⟩

theorem Passed.Follows.below {visited : List Branch} (h : Passed.Follows (n :: above) cs { trail with visited } r) :
    Passed.Follows above [.mk n cs] trail
      ⟨[.mk { n with modified := n.modified || r.touched } r.branches], r.touched, r.trail⟩ where
  noted := h.noted
  stays := by
    intro i mem
    simp only [idsAll_cons, idsAll_nil, List.append_nil, ids_mk, List.mem_cons]
    rcases h.stays i mem with mem | here | ⟨m, top, rfl⟩
    · exact .inl mem
    · exact .inr (.inl (.inr here))
    · obtain rfl := Option.some.inj top
      exact .inr (.inl (.inl rfl))
  beside := .inl rfl
  inside := by
    intro x' mem
    rw [preorderAll_cons, preorderAll_nil, List.append_nil] at mem ⊢
    rcases mem_preorder.1 mem with rfl | mem
    · refine ⟨.mk n cs, self_mem_preorder _, rfl, rfl, h.beside.imp_right ?_⟩
      rintro ⟨m, top, mem⟩
      obtain rfl := Option.some.inj top
      exact mem
    · obtain ⟨x, hx, same⟩ := h.inside x' mem
      exact ⟨x, mem_preorder.2 (.inr hx), same⟩

theorem Passed.Follows.remove (visited : List Branch) :
    Passed.Follows (n :: above) [b] trail
      ⟨[], true, { trail with visited, bereft := n.id :: trail.bereft, loose := b :: trail.loose }⟩ where
  noted := List.subset_cons_self _ _
  stays := by
    intro i mem
    rcases List.mem_cons.1 mem with rfl | mem
    · exact .inr (.inr ⟨n, rfl, rfl⟩)
    · exact .inl mem
  beside := .inr ⟨n, rfl, List.mem_cons_self ..⟩
  inside := by simp

mutual

theorem Visitor.Removes.walk {v : Visitor} (removes : v.Removes) :
    ∀ (b : Branch) (above : List Node) (before after : List Branch) (trail : Trail),
      Passed.Follows above [b] trail (b.walk v above before after trail)
  | .mk n cs, above, before, after, trail => by
    rcases removes ⟨above, before, .mk n cs, after⟩ with verdict | verdict | verdict
    · simp only [Branch.walk, verdict]
      exact (Visitor.Removes.walkAll removes cs (n :: above) [] _).below
    · simp only [Branch.walk, verdict]
      exact .same _
    · cases above with
      | nil =>
        simp only [Branch.walk, verdict]
        exact .same _
      | cons m above =>
        simp only [Branch.walk, verdict]
        exact .remove _

/-- A walk that takes nodes out notes all that lose a child. -/
theorem Visitor.Removes.walkAll {v : Visitor} (removes : v.Removes) :
    ∀ (bs : List Branch) (above : List Node) (before : List Branch) (trail : Trail),
      Passed.Follows above bs trail (Branch.walkAll v above before bs trail)
  | [], above, before, trail => .same trail.visited
  | b :: bs, above, before, trail => by
    rw [Branch.walkAll]
    exact (Visitor.Removes.walk removes b above before bs trail).append
      (Visitor.Removes.walkAll removes bs above _ _)

end

end

namespace Branch
open Cut

mutual

theorem length_gone_sweep : ∀ b : Branch, b.sweep.gone.length = b.preorder.countP (·.clear.kept.isEmpty)
  | mk n cs => by
    have below := length_gone_sweepAll cs
    rw [preorder, List.countP_cons, ← below, clear, sweep]
    simp only
    split
    · simp
    · simp

/-- A sweep takes out the branches of which it leaves nothing. -/
theorem length_gone_sweepAll : ∀ bs : List Branch,
    (sweepAll bs).gone.length = (preorderAll bs).countP (·.clear.kept.isEmpty)
  | [] => rfl
  | b :: bs => by
    rw [sweepAll, preorderAll, List.countP_append, ← length_gone_sweep b, ← length_gone_sweepAll bs]
    simp

end

theorem swept_eq_self {b : Branch} (full : ∀ c ∈ b.preorder, c.isEmptied = false) : b.swept = b := by
  obtain ⟨n, cs⟩ := b
  have below : each clear cs = .whole cs :=
    each_eq_whole fun c mem => clear_eq_whole fun d inside => full d (mem_preorder_of_child mem inside)
  rw [swept, children_mk, below, node_mk, under_whole]

end Branch

namespace Tree

variable {t u : Tree} {b c : Branch} {v : Visitor}

theorem removeEmptied_sheet (t : Tree) : t.removeEmptied.2.sheet = t.sheet.swept := by
  obtain ⟨⟨n, cs⟩, loose, size⟩ := t
  obtain ⟨kept, touched⟩ := sweepAll_eq cs
  simp only [Tree.removeEmptied, kept, touched]
  rfl

theorem removeEmptied_count (t : Tree) :
    t.removeEmptied.1 = (preorderAll t.sheet.children).countP (·.clear.kept.isEmpty) := by
  obtain ⟨⟨n, cs⟩, loose, size⟩ := t
  exact length_gone_sweepAll cs

/-- Sweeping does nothing where nothing is empty. -/
theorem removeEmptied_of_full (full : ∀ b ∈ t.attached, b.isEmptied = false) : t.removeEmptied = (0, t) := by
  obtain ⟨⟨n, cs⟩, loose, size⟩ := t
  have below : Cut.each clear cs = .whole cs :=
    Cut.each_eq_whole fun c mem => clear_eq_whole fun d inside => full d (mem_preorder_of_child mem inside)
  obtain ⟨kept, touched⟩ := sweepAll_eq cs
  rw [below] at kept touched
  have gone : (sweepAll cs).gone = [] := by simpa [Cut.whole] using touched
  simp only [Tree.removeEmptied, kept, gone]
  simp [Cut.whole]

/-- A node is in the style sheet when its parent is. -/
theorem Numbered.attached_closed (h : t.Numbered) (p c : Nat) (child : c ∈ t.childrenOf p) :
    c ∈ t.sheet.ids ↔ p ∈ t.sheet.ids := by
  rw [h.linked] at child
  obtain ⟨m, up, rfl⟩ := Option.map_eq_some_iff.1 child
  have below : t.sheet.id ≠ c := by
    rintro rfl
    have := h.wellFormed.root
    rw [Tree.root, up] at this
    cases this
  rw [h.mem_ids_branch_iff t.sheet_mem_branches, h.mem_ids_branch_iff t.sheet_mem_branches,
    h.ancestors_of_parent? up, List.map_cons, List.mem_cons]
  exact or_iff_right below

theorem Numbered.sheet_ids_nodup (h : t.Numbered) : t.sheet.ids.Nodup :=
  (h.wellFormed.descends t.root t.sheet (h.find?_eq_some.2 ⟨t.sheet_mem_branches, rfl⟩)).2.1

/-- In the style sheet, what is still to go is what a sweep takes out. -/
theorem Numbered.pending_attached (h : t.Numbered) : t.pending t.sheet.ids = t.removeEmptied.1 := by
  have top : t.parent? t.sheet.id = none := h.wellFormed.root
  have root : t.sheet.ids = t.sheet.id :: idsAll t.sheet.children := by
    cases t.sheet
    rfl
  rw [removeEmptied_count, pending, root, List.countP_cons, top]
  simp only [Option.isSome_none, Bool.false_and, Bool.false_eq_true, if_false, Nat.add_zero]
  rw [idsAll, List.countP_map]
  apply List.countP_congr
  intro c inside
  have mem : c ∈ t.branches := children_subset_branches t.sheet_mem_branches inside
  have below : t.parent? c.id ≠ none := by
    intro none
    have up : t.ancestors c.id = [] := List.head?_eq_none_iff.1 none
    have held : c.id ∈ t.sheet.ids := by
      rw [root]
      exact List.mem_cons_of_mem _ (List.mem_map_of_mem inside)
    rw [h.mem_ids_branch_iff t.sheet_mem_branches, up, List.map_nil, List.mem_singleton] at held
    have once := h.sheet_ids_nodup
    rw [root, List.nodup_cons, held] at once
    exact once.1 (List.mem_map_of_mem inside)
  have below : (t.parent? c.id).isSome = true := Option.isSome_iff_ne_none.2 below
  simp only [Function.comp_apply, below, Bool.true_and, h.isHollow_eq mem]

/-! ## Walks that end as sweeps -/

/-- What a walk that takes nodes out made of the style sheet. -/
theorem Numbered.unsettled_follows (h : t.Numbered) (removes : v.Removes) :
    (∀ i ∈ (t.passed v).trail.bereft, i ∈ (t.unsettled v).sheet.ids)
      ∧ ∀ i ∈ (t.unsettled v).sheet.ids, i ∈ t.sheet.ids ∧ (t.unsettled v).kind? i = t.kind? i
        ∧ ((t.unsettled v).childrenOf i = t.childrenOf i ∨ i ∈ (t.passed v).trail.bereft) := by
  have numbered := (h.walk_eq v).1.numbered
  have follows : Passed.Follows [] [t.sheet] (.start t.size) (t.passed v) := removes.walk t.sheet [] [] [] _
  have branches := t.passed_branches v
  refine ⟨fun i noted => ?_, fun i mem => ?_⟩
  · rcases follows.stays i noted with mem | here | ⟨n, top, -⟩
    · cases mem
    · simpa [branches] using here
    · cases top
  · obtain ⟨x', inside, rfl⟩ := List.mem_map.1 mem
    obtain ⟨x, hx, id, kind, children⟩ := follows.inside x' (by simpa [branches] using inside)
    have hx : x ∈ t.sheet.preorder := by simpa using hx
    have mem' : x' ∈ (t.unsettled v).branches := mem_branches.2 (.inl inside)
    have mem : x ∈ t.branches := mem_branches.2 (.inl hx)
    refine ⟨id ▸ List.mem_map_of_mem hx, ?_, ?_⟩
    · rw [numbered.kind?_eq mem', id, h.kind?_eq mem, kind]
    · rw [numbered.childrenOf_id mem', id, h.childrenOf_id mem, ← id]
      exact children

/-- After such a walk each empty rule waits for a node that was noted, if none was empty before. -/
theorem Numbered.awaits_unsettled (h : t.Numbered) (removes : v.Removes)
    (full : ∀ c ∈ t.sheet.preorder, c.isEmptied = false) :
    (t.unsettled v).Awaits (t.unsettled v).sheet.ids (t.passed v).trail.bereft.reverse := by
  have numbered := (h.walk_eq v).1.numbered
  obtain ⟨-, follows⟩ := h.unsettled_follows removes
  have closed := numbered.attached_closed
  have noted {i : Nat} (mem : i ∈ (t.unsettled v).sheet.ids) (changed : (t.unsettled v).childrenOf i ≠ t.childrenOf i) :
      i ∈ (t.passed v).trail.bereft.reverse :=
    List.mem_reverse.2 ((follows i mem).2.2.resolve_left changed)
  refine ⟨numbered, closed, fun i mem emptied _ => ?_⟩
  have inside : ∀ p ∈ (t.unsettled v).sheet.ids, ∀ c ∈ (t.unsettled v).childrenOf p, c ∈ (t.unsettled v).sheet.ids :=
    fun p hp c child => (closed p c child).2 hp
  rcases isEmptied_cases (fun i mem => (follows i mem).2.1) inside mem emptied with
    before | changed | ⟨c, child, part, changed⟩
  · obtain ⟨x, hx, rfl⟩ := List.mem_map.1 (follows i mem).1
    rw [h.isEmptied_eq (mem_branches.2 (.inl hx)), full x hx] at before
    cases before
  · exact ⟨i, noted mem changed, .inl rfl⟩
  · exact ⟨c, noted (inside i mem c child) changed, .inr ⟨child, part⟩⟩

/-- A walk that takes nodes out of a style sheet in which nothing is empty ends as a sweep would. -/
theorem Numbered.walk_eq_removeEmptied (h : t.Numbered) (removes : v.Removes) (root : t.sheet.kind = .styleSheet)
    (full : ∀ c ∈ t.sheet.preorder, c.isEmptied = false) :
    (t.walk v).tree.sheet = (t.unsettled v).removeEmptied.2.sheet
      ∧ (t.walk v).emptied = (t.unsettled v).removeEmptied.1
      ∧ (t.walk v).tree.sheet.kind = .styleSheet
      ∧ ∀ c ∈ (t.walk v).tree.sheet.preorder, c.isEmptied = false := by
  obtain ⟨evolves, e⟩ := h.walk_eq v
  have numbered := evolves.numbered
  obtain ⟨within, follows⟩ := h.unsettled_follows removes
  have settles := h.walk_settles v
  have here : (t.unsettled v).root ∈ (t.unsettled v).sheet.ids := id_mem_ids _
  obtain ⟨awaits, count⟩ := (h.awaits_unsettled removes full).removeEmptiedFromAll numbered.sheet_ids_nodup
    fun q mem => within q (List.mem_reverse.1 mem)
  rw [awaits.pending_eq_zero, numbered.pending_attached, Nat.add_zero] at count
  have kind : (t.unsettled v).sheet.kind = .styleSheet := by
    have same := (follows _ here).2.1
    have top : (t.unsettled v).root = t.root := evolves.root
    have old : t.kind? t.root = some t.sheet.kind := h.kind?_eq t.sheet_mem_branches
    have new : (t.unsettled v).kind? (t.unsettled v).root = some (t.unsettled v).sheet.kind :=
      numbered.kind?_eq (t.unsettled v).sheet_mem_branches
    rw [new, top, old, Option.some.injEq] at same
    rw [same, root]
  have kind' : (t.walk v).tree.sheet.kind = .styleSheet := settles.thinned.kind.trans kind
  have nothing : ∀ c ∈ (t.walk v).tree.sheet.preorder, c.isEmptied = false := by
    have top : (t.walk v).tree.root = (t.unsettled v).root := settles.thinned.id
    have plain : (t.walk v).tree.sheet.isEmptied = false := by rw [Branch.isEmptied, kind']
    rw [e] at top plain ⊢
    exact awaits.attached (top ▸ here) plain
  refine ⟨?_, ?_, kind', nothing⟩
  · rw [removeEmptied_sheet, ← settles.swept, swept_eq_self nothing]
  · rw [e]
    exact count

end Tree

end AboveFold
