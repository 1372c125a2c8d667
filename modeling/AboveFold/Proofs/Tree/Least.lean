import AboveFold.Proofs.Tree.InTurn
import Mathlib.Order.Bounds.Defs
import Mathlib.Data.Set.Basic

/-!
# What a sweep takes out

Whether a rule is empty depends on what is gone already, and the more is gone the more rules are empty. A sweep detaches
no node before it is empty, so it takes out no more than any set of nodes closed under becoming empty (`Drains.least`);
and when it is over, each empty rule that is left would have to wait for a node whose turn is still to come
(`Awaits.detachEmptied`). So it takes out the least of these sets (`Numbered.sweepsOut`).
-/

namespace AboveFold
open Branch

namespace Tree

variable {t u v : Tree} {i id p q : Nat} {S S' : Set Nat} {I Q D ids : List Nat}

/-! ## Empty without some nodes -/

/-- Whether a block holds anything but comments and nodes of `S`. -/
def ContentWithout (t : Tree) (S : Set Nat) (block : Nat) : Prop :=
  ∃ c ∈ t.childrenOf block, c ∉ S ∧ (t.kind? c).any Node.Kind.isComment = false

/-- Whether a node is a rule or at-rule that is empty if the nodes of `S` are gone. -/
def EmptyWithout (t : Tree) (S : Set Nat) (i : Nat) : Prop :=
  match t.kind? i with
  | some .rule =>
    ¬((∃ l ∈ t.childOf? (· = .selectorList) i, ∃ c ∈ t.childrenOf l, c ∉ S)
      ∧ ∃ block ∈ t.childOf? Node.Kind.isBlock i, t.ContentWithout S block)
  | some (.atRule _) => ∃ block ∈ t.childOf? Node.Kind.isBlock i, ¬t.ContentWithout S block
  | _ => False

theorem ContentWithout.anti (sub : S ⊆ S') (h : t.ContentWithout S' i) : t.ContentWithout S i :=
  h.imp fun _ ⟨child, stays, other⟩ => ⟨child, fun mem => stays (sub mem), other⟩

/-- The more is gone, the more is empty. -/
theorem EmptyWithout.mono (sub : S ⊆ S') (h : t.EmptyWithout S i) : t.EmptyWithout S' i := by
  unfold EmptyWithout at *
  split at h
  · refine fun ⟨⟨l, list, c, child, stays⟩, block, found, content⟩ => h ⟨⟨l, list, c, child, ?_⟩, block, found, ?_⟩
    · exact fun mem => stays (sub mem)
    · exact content.anti sub
  · exact h.imp fun _ ⟨found, empty⟩ => ⟨found, fun content => empty (content.anti sub)⟩
  · exact h

theorem contentWithout_empty : t.ContentWithout ∅ i ↔ t.hasContent i = true := by
  simp [ContentWithout, Tree.hasContent]

/-- If nothing is gone, what is empty without it is empty. -/
theorem emptyWithout_empty : t.EmptyWithout ∅ i ↔ t.isEmptied i = true := by
  unfold EmptyWithout Tree.isEmptied
  cases t.kind? i with
  | none => simp
  | some k =>
    cases k with
    | rule =>
      have filled (l : Nat) : (∃ c ∈ t.childrenOf l, c ∉ (∅ : Set Nat)) ↔ (!(t.childrenOf l).isEmpty) = true := by
        cases t.childrenOf l <;> simp
      simp only [filled, contentWithout_empty, Option.mem_def, Bool.not_eq_true', ← Bool.not_eq_true, Bool.and_eq_true,
        Option.any_eq_true]
    | atRule name =>
      simp only [contentWithout_empty, Option.mem_def, Bool.not_eq_true, Option.any_eq_true, Bool.not_eq_true']
    | _ => simp

/-! ## One node gone -/

theorem find?_filter_ne {a : Nat} {p : Nat → Bool} (other : p a = false) (xs : List Nat) :
    (xs.filter (· ≠ a)).find? p = xs.find? p := by
  induction xs with
  | nil => rfl
  | cons x xs ih =>
    by_cases same : x = a
    · subst same
      rw [List.filter_cons_of_neg (by simp), ih, List.find?_cons_of_neg (by simp [other])]
    · rw [List.filter_cons_of_pos (by simpa using same), List.find?_cons, List.find?_cons, ih]

/-- A rule or at-rule is no part of a rule. -/
theorem Loses.childOf? (loses : t.Loses id u) (can : (t.kind? id).any Node.Kind.canBeEmpty = true)
    {p : Node.Kind → Bool} (part : ∀ k, k.canBeEmpty = true → p k = false) (i : Nat) : u.childOf? p i = t.childOf? p i := by
  obtain ⟨k, kind, can⟩ := (Option.any_eq_true _ _).1 can
  have other : (t.kind? id).any p = false := by rw [kind, Option.any_some, part k can]
  simp only [Tree.childOf?, loses.childrenOf, loses.kind?]
  exact find?_filter_ne other _

theorem Loses.contentWithout (loses : t.Loses id u) : u.ContentWithout S i ↔ t.ContentWithout ({id} ∪ S) i := by
  simp only [ContentWithout, loses.childrenOf, loses.kind?, List.mem_filter, Set.mem_union, Set.mem_singleton_iff, not_or,
    decide_eq_true_eq, and_assoc, ne_eq]

/-- When a rule or at-rule was detached, it is gone. -/
theorem Loses.emptyWithout (loses : t.Loses id u) (can : (t.kind? id).any Node.Kind.canBeEmpty = true) :
    u.EmptyWithout S i ↔ t.EmptyWithout ({id} ∪ S) i := by
  have list := loses.childOf? can (p := (· = .selectorList)) (fun k can => by cases k <;> first | rfl | cases can) i
  have block := loses.childOf? can (p := Node.Kind.isBlock) (fun k can => by cases k <;> first | rfl | cases can) i
  simp only [EmptyWithout, loses.kind?, list, block, loses.contentWithout, loses.childrenOf, List.mem_filter,
    Set.mem_union, Set.mem_singleton_iff, not_or, decide_eq_true_eq, and_assoc, ne_eq]

/-! ## Several nodes gone, one after the other -/

/-- A tree becomes another when the nodes of a list are detached in turn, each a rule or at-rule that is empty by then. -/
inductive Drains : Tree → List Nat → Tree → Prop
  | nil {t : Tree} : Drains t [] t
  | cons {t u v : Tree} {id : Nat} {D : List Nat} (emptied : t.isEmptied id = true) (place : t.parent? id ≠ none)
      (loses : t.Loses id u) (rest : Drains u D v) : Drains t (id :: D) v

theorem Numbered.drains (h : t.Numbered) (ids : List Nat) :
    ∃ D, D.Sublist ids ∧ (Tree.detachEmptied ids t).1 = D.length ∧ t.Drains D (Tree.detachEmptied ids t).2 := by
  induction ids generalizing t with
  | nil => exact ⟨[], .slnil, rfl, .nil⟩
  | cons id ids ih =>
    rw [Tree.detachEmptied]
    split
    next goes =>
      obtain ⟨emptied, leaves⟩ := Bool.and_eq_true_iff.1 goes
      have loses := h.loses_detach id
      obtain ⟨D, sub, count, drains⟩ := ih loses.numbered
      refine ⟨id :: D, sub.cons_cons id, congrArg Nat.succ count, .cons emptied ?_ loses drains⟩
      rw [h.detach_fst] at leaves
      exact Option.isSome_iff_ne_none.1 leaves
    next =>
      obtain ⟨D, sub, count, drains⟩ := ih h
      exact ⟨D, sub.cons id, count, drains⟩

/-- What it is that a tree loses, and that it loses nothing else. -/
theorem Drains.links (h : t.Drains D v) (numbered : t.Numbered) :
    v.Numbered ∧ v.root = t.root ∧ (∀ q, v.kind? q = t.kind? q)
      ∧ (∀ q, v.childrenOf q = (t.childrenOf q).filter (· ∉ D))
      ∧ ∀ q, (v.parent? q).map Node.id = if q ∈ D then none else (t.parent? q).map Node.id := by
  induction h with
  | nil => simp [numbered]
  | @cons t u v id D emptied place loses rest ih =>
    obtain ⟨numbered', root, kinds, children, parents⟩ := ih loses.numbered
    refine ⟨numbered', root.trans loses.root, fun q => (kinds q).trans (loses.kind? q), fun q => ?_, fun q => ?_⟩
    · rw [children, loses.childrenOf, List.filter_filter]
      apply List.filter_congr
      simp [Bool.and_comm]
    · rw [parents, loses.parent? numbered]
      by_cases here : q = id <;> by_cases later : q ∈ D <;> simp [here, later]

/-- No node is detached twice, and each had a place. -/
theorem Drains.places (h : t.Drains D v) (numbered : t.Numbered) :
    D.Nodup ∧ ∀ i ∈ D, t.parent? i ≠ none ∧ (t.kind? i).any Node.Kind.canBeEmpty = true := by
  induction h with
  | nil => simp
  | @cons t u v id D emptied place loses rest ih =>
    obtain ⟨once, places⟩ := ih loses.numbered
    have before {i : Nat} (mem : i ∈ D) := loses.parent?_ne_none numbered (places i mem).1
    refine ⟨List.nodup_cons.2 ⟨fun mem => (before mem).1 rfl, once⟩, fun i mem => ?_⟩
    rcases List.mem_cons.1 mem with rfl | mem
    · exact ⟨place, canBeEmpty_of_isEmptied emptied⟩
    · exact ⟨(before mem).2, loses.kind? i ▸ (places i mem).2⟩

/-- What is empty at the end is empty without what is gone. -/
theorem Drains.emptyWithout (h : t.Drains D v) : v.EmptyWithout S i ↔ t.EmptyWithout ({j | j ∈ D} ∪ S) i := by
  induction h with
  | nil => simp
  | @cons t u v id D emptied place loses rest ih =>
    rw [ih, loses.emptyWithout (canBeEmpty_of_isEmptied emptied), ← Set.union_assoc]
    have same : {id} ∪ {j | j ∈ D} = {j | j ∈ id :: D} := by
      ext j
      simp
    rw [same]

/-- Nothing goes that a set which is closed under becoming empty does not have. -/
theorem Drains.least (h : t.Drains D v) (within : ∀ i ∈ D, i ∈ I) (closed : ∀ i ∈ I, t.EmptyWithout S i → i ∈ S) :
    ∀ i ∈ D, i ∈ S := by
  induction h with
  | nil => simp
  | @cons t u v id D emptied place loses rest ih =>
    rw [List.forall_mem_cons] at within ⊢
    have here : id ∈ S := closed id within.1 ((emptyWithout_empty.2 emptied).mono (Set.empty_subset S))
    refine ⟨here, ih within.2 fun i mem empty => closed i mem ?_⟩
    rw [loses.emptyWithout (canBeEmpty_of_isEmptied emptied)] at empty
    rwa [Set.singleton_union, Set.insert_eq_of_mem here] at empty

/-! ## When all had their turn -/

/-- Each node of a list comes before its parent. -/
def LeavesFirst (t : Tree) : List Nat → Prop
  | [] => True
  | i :: ids => (∀ p, (t.parent? i).map Node.id = some p → p ∈ ids) ∧ LeavesFirst t ids

mutual

theorem Numbered.leavesFirst_branch (h : t.Numbered) : ∀ (b : Branch) (ids : List Nat), b ∈ t.branches →
    (∀ p, (t.parent? b.id).map Node.id = some p → p ∈ ids) → t.LeavesFirst ids → t.LeavesFirst (b.ids.reverse ++ ids)
  | .mk n cs, ids, inside, above, later => by
    rw [ids_mk, List.reverse_cons, List.append_assoc]
    refine h.leavesFirst_branches cs (n.id :: ids) (fun c child => child_mem_branches inside child) (fun c child p up => ?_)
      ⟨above, later⟩
    have link : c.id ∈ t.childrenOf n.id := by
      rw [← id_mk n cs, h.childrenOf_id inside]
      exact List.mem_map_of_mem child
    rw [h.linked, up] at link
    exact Option.some.inj link ▸ List.mem_cons_self ..

theorem Numbered.leavesFirst_branches (h : t.Numbered) : ∀ (bs : List Branch) (ids : List Nat),
    (∀ b ∈ bs, b ∈ t.branches) → (∀ b ∈ bs, ∀ p, (t.parent? b.id).map Node.id = some p → p ∈ ids) →
      t.LeavesFirst ids → t.LeavesFirst ((idsAll bs).reverse ++ ids)
  | [], ids, _, _, later => later
  | b :: bs, ids, inside, above, later => by
    rw [List.forall_mem_cons] at inside above
    rw [idsAll_cons, List.reverse_append, List.append_assoc]
    have first := h.leavesFirst_branch b ids inside.1 above.1 later
    exact h.leavesFirst_branches bs _ inside.2 (fun c mem p up => List.mem_append_right _ (above.2 c mem p up)) first

end

/-- Document order backwards comes to each node before its parent. -/
theorem Numbered.leavesFirst (h : t.Numbered) : t.LeavesFirst t.sheet.ids.reverse := by
  have first := h.leavesFirst_branch t.sheet [] t.sheet_mem_branches (fun p up => ?_) trivial
  · rwa [List.append_nil] at first
  · have root : t.parent? t.sheet.id = none := h.wellFormed.root
    rw [root] at up
    cases up

theorem Loses.leavesFirst (loses : t.Loses id u) (numbered : t.Numbered) (first : t.LeavesFirst ids) :
    u.LeavesFirst ids := by
  induction ids with
  | nil => trivial
  | cons i ids ih =>
    refine ⟨fun p up => first.1 p ?_, ih first.2⟩
    rw [loses.parent? numbered] at up
    split at up
    next => cases up
    next => exact up

theorem Awaits.subset {Q' : List Nat} (h : t.Awaits I Q) (sub : Q ⊆ Q') : t.Awaits I Q' :=
  ⟨h.numbered, h.closed, fun i mem emptied below => (h.heeds i mem emptied below).imp fun _ => .imp_left (sub ·)⟩

/-- **When all had their turn, nothing waits any more**, if each node comes before its parent: what became empty by the
loss of a child still has its turn. -/
theorem Awaits.detachEmptied (h : t.Awaits I Q) (first : t.LeavesFirst Q) : (Tree.detachEmptied Q t).2.Awaits I [] := by
  induction Q generalizing t with
  | nil => exact h
  | cons q Q ih =>
    obtain ⟨above, first⟩ := first
    have upwards {t' : Tree} {p : Nat} (up : (t.parent? q).map Node.id = some p) (awaits : t'.Awaits I (p :: Q)) :
        t'.Awaits I Q :=
      awaits.subset (List.cons_subset.2 ⟨above p up, List.Subset.refl Q⟩)
    rw [Tree.detachEmptied]
    split
    next goes =>
      obtain ⟨emptied, leaves⟩ := Bool.and_eq_true_iff.1 goes
      rw [h.numbered.detach_fst] at leaves
      obtain ⟨p, up⟩ := Option.isSome_iff_exists.1 leaves
      have up : (t.parent? q).map Node.id = some p.id := by rw [up, Option.map_some]
      have loses := h.numbered.loses_detach q
      have other : (t.kind? q).any Node.Kind.isPart = false := by
        refine Bool.eq_false_iff.2 fun part => ?_
        rw [isEmptied_of_isPart part] at emptied
        cases emptied
      exact ih (upwards up (h.detach loses other up)) (loses.leavesFirst h.numbered first)
    next stays =>
      rw [h.numbered.detach_fst, Bool.and_eq_true, not_and] at stays
      refine ih ?_ first
      cases up : t.parent? q with
      | none => exact h.stop (.inl up)
      | some p =>
        have full : t.isEmptied q = false := Bool.eq_false_iff.2 fun emptied => stays emptied (by rw [up]; rfl)
        have up : (t.parent? q).map Node.id = some p.id := by rw [up, Option.map_some]
        cases part : (t.kind? q).any Node.Kind.isPart with
        | true => exact upwards up (h.climb part up)
        | false => exact h.stop (.inr ⟨part, full⟩)

/-! ## Sweeping -/

/-- A set of rules and at-rules of the style sheet such that no other would be empty without them. -/
structure ClosedUnderEmptying (t : Tree) (S : Set Nat) : Prop where
  within : ∀ i ∈ S, i ∈ t.sheet.ids ∧ (t.kind? i).any Node.Kind.canBeEmpty = true
  closed : ∀ i ∈ t.sheet.ids, t.EmptyWithout S i → i ∈ S

/-- The nodes of the style sheet that were below another and are below none any more, in document order. -/
def lost (t u : Tree) : List Nat :=
  t.sheet.ids.filter fun i => (t.parent? i).isSome && (u.parent? i).isNone

/-- What removing the empty rules of a style sheet does. -/
structure SweepsOut (t : Tree) : Prop where
  /-- It is the same as to collect the rules and at-rules first, and then to detach each that is empty when its turn
  comes, the last first. -/
  inTurn : Tree.detachEmptied t.candidates.reverse t = t.removeEmptied
  /-- Nothing that is left is empty. -/
  full : ∀ b ∈ t.removeEmptied.2.attached,
    (b.kind = .rule → b.isEmptyRule = false) ∧ (b.kind.isAtRule = true → b.isEmptyAtRule = false)
  /-- What goes is the least set of rules and at-rules that is closed under becoming empty. -/
  least : IsLeast {S | t.ClosedUnderEmptying S} {i | i ∈ t.lost t.removeEmptied.2}
  /-- Each node that goes is counted once. -/
  once : (t.lost t.removeEmptied.2).Nodup
  count : t.removeEmptied.1 = (t.lost t.removeEmptied.2).length
  /-- All other nodes are where they were. -/
  children : ∀ q, t.removeEmptied.2.childrenOf q = (t.childrenOf q).filter (· ∉ t.lost t.removeEmptied.2)
  kinds : ∀ q, t.removeEmptied.2.kind? q = t.kind? q
  /-- Nothing is left for a second time. -/
  again : t.removeEmptied.2.removeEmptied = (0, t.removeEmptied.2)

theorem Numbered.eq_root (h : t.Numbered) (mem : i ∈ t.sheet.ids) (top : t.parent? i = none) : i = t.root := by
  rw [h.mem_ids_branch_iff t.sheet_mem_branches, List.head?_eq_none_iff.1 top] at mem
  exact (List.mem_singleton.1 mem).symm

theorem mem_lost : i ∈ t.lost u ↔ i ∈ t.sheet.ids ∧ t.parent? i ≠ none ∧ u.parent? i = none := by
  rw [lost, List.mem_filter, Bool.and_eq_true, Option.isSome_iff_ne_none, Option.isNone_iff_eq_none]

/-- What was detached in turn is lost, and nothing else. -/
theorem Drains.mem_lost (h : t.Drains D v) (numbered : t.Numbered) (within : ∀ i ∈ D, i ∈ t.sheet.ids) :
    i ∈ t.lost v ↔ i ∈ D := by
  have parents := (h.links numbered).2.2.2.2 i
  rw [Tree.mem_lost]
  constructor
  · rintro ⟨-, place, gone⟩
    refine Classical.byContradiction fun stays => place ?_
    rwa [if_neg stays, gone, Option.map_none, eq_comm, Option.map_eq_none_iff] at parents
  · intro mem
    rw [if_pos mem, Option.map_eq_none_iff] at parents
    exact ⟨within i mem, ((h.places numbered).2 i mem).1, parents⟩

theorem isEmptied_of_root (root : t.kind? i = some .styleSheet) : t.isEmptied i = false := by
  rw [Tree.isEmptied, root]

/-- When nothing waits, what is lost is closed under becoming empty. -/
theorem Drains.closed (h : t.Drains D v) (numbered : t.Numbered) (root : t.sheet.kind = .styleSheet)
    (within : ∀ i ∈ D, i ∈ t.sheet.ids) (rests : v.Awaits t.sheet.ids []) : t.ClosedUnderEmptying {i | i ∈ D} where
  within i mem := ⟨within i mem, ((h.places numbered).2 i mem).2⟩
  closed i mem empty := by
    obtain ⟨-, -, kinds, -, parents⟩ := h.links numbered
    have emptied : v.isEmptied i = true := by
      rw [← emptyWithout_empty, h.emptyWithout, Set.union_empty]
      exact empty
    refine Classical.byContradiction fun stays => ?_
    have stays : i ∉ D := stays
    have parent := parents i
    rw [if_neg stays] at parent
    cases up : v.parent? i with
    | some p =>
      obtain ⟨q, hq, -⟩ := rests.heeds i mem emptied (by simp [up])
      cases hq
    | none =>
      rw [up, Option.map_none, eq_comm, Option.map_eq_none_iff] at parent
      have top : v.kind? i = some .styleSheet := by
        rw [kinds, numbered.eq_root mem parent, Tree.root, numbered.kind?_eq t.sheet_mem_branches, root]
      rw [isEmptied_of_root top] at emptied
      cases emptied

/-- **Removing empty rules comes to its end in one sweep**, and takes out nothing else. -/
theorem Numbered.sweepsOut (h : t.Numbered) (root : t.sheet.kind = .styleSheet) : t.SweepsOut := by
  have inTurn := h.detachEmptied_candidates
  have all : Tree.detachEmptied t.sheet.ids.reverse t = t.removeEmptied := by
    rw [← inTurn, h.candidates_eq, ← List.filter_reverse, h.detachEmptied_filter]
  obtain ⟨D, sub, count, drains⟩ := h.drains t.sheet.ids.reverse
  have awaits : t.Awaits t.sheet.ids t.sheet.ids.reverse :=
    ⟨h, h.attached_closed, fun i mem _ _ => ⟨i, List.mem_reverse.2 mem, .inl rfl⟩⟩
  have rests := awaits.detachEmptied h.leavesFirst
  rw [all] at count drains rests
  obtain ⟨numbered, top, kinds, children, -⟩ := drains.links h
  have within : ∀ i ∈ D, i ∈ t.sheet.ids := fun i mem => List.mem_reverse.1 (sub.subset mem)
  have lost (i : Nat) : i ∈ t.lost t.removeEmptied.2 ↔ i ∈ D := drains.mem_lost h within
  have once : (t.lost t.removeEmptied.2).Nodup := h.sheet_ids_nodup.filter _
  have kind : t.removeEmptied.2.sheet.kind = .styleSheet := by
    have new : t.removeEmptied.2.kind? t.removeEmptied.2.root = some t.removeEmptied.2.sheet.kind :=
      numbered.kind?_eq (sheet_mem_branches _)
    have old : t.kind? t.root = some .styleSheet := by rw [Tree.root, h.kind?_eq t.sheet_mem_branches, root]
    rw [top, kinds, old] at new
    exact (Option.some.inj new).symm
  have full : ∀ b ∈ t.removeEmptied.2.attached, b.isEmptied = false :=
    rests.attached (top ▸ id_mem_ids _) (by rw [Branch.isEmptied, kind])
  refine ⟨inTurn, fun b mem => ?_, ?_, once, ?_, fun q => ?_, kinds, removeEmptied_of_full full⟩
  · have full := full b mem
    rw [Branch.isEmptied] at full
    refine ⟨fun k => by rwa [k] at full, fun k => ?_⟩
    cases name : b.kind <;> simp_all [Node.Kind.isAtRule]
  · simp only [lost]
    exact ⟨drains.closed h root within rests, fun S closed i mem => drains.least within closed.closed i mem⟩
  · rw [count, ((List.perm_ext_iff_of_nodup once (drains.places h).1).2 lost).length_eq]
  · rw [children]
    exact List.filter_congr fun c _ => by simp only [lost]

end Tree

end AboveFold
