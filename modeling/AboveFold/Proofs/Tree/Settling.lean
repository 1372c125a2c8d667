import AboveFold.Proofs.Tree.Graph

/-!
# Cascades that come to an end

A cascade climbs from each node that lost a child, and stops at the first rule that is not empty. Still it
finds everything: at any time, each empty rule waits for one of the nodes from which the cascade is still
to climb (`Awaits`). When none of these is left, no empty rule is left, and as many nodes were removed as
a sweep takes out.
-/

namespace AboveFold
open Branch

namespace Tree

variable {t u : Tree} {b c : Branch} {i id p q : Nat} {I Q up path : List Nat}

/-! ## Paths upwards -/

theorem Climbs.unique (h : t.Climbs id up) (h' : t.Climbs id path) : up = path := by
  induction up generalizing id path with
  | nil =>
    cases path with
    | nil => rfl
    | cons p path =>
      have up : t.parent? id = none := h
      simp [Climbs, up] at h'
  | cons p up ih =>
    cases path with
    | nil =>
      have up : t.parent? id = none := h'
      simp [Climbs, up] at h
    | cons q path =>
      obtain rfl : p = q := Option.some.inj (h.1.symm.trans h'.1)
      rw [ih h.2 h'.2]

theorem Climbs.of_mem (h : t.Climbs id up) (mem : p ∈ up) : ∃ path, t.Climbs p path ∧ path.length < up.length := by
  induction up generalizing id with
  | nil => cases mem
  | cons q up ih =>
    rcases List.mem_cons.1 mem with rfl | mem
    · exact ⟨up, h.2, by simp⟩
    · obtain ⟨path, climbs, lt⟩ := ih h.2 mem
      exact ⟨path, climbs, by simp only [List.length_cons]; omega⟩

/-- A node does not stand above itself. -/
theorem Climbs.not_mem (h : t.Climbs id up) : id ∉ up := by
  intro mem
  obtain ⟨path, climbs, lt⟩ := h.of_mem mem
  rw [h.unique climbs] at lt
  omega

/-- A path that does not lead through the node that was detached. -/
theorem Loses.climbs (h : t.Loses id u) (numbered : t.Numbered) (climbs : t.Climbs q path) (apart : id ∉ q :: path) :
    u.Climbs q path := by
  induction path generalizing q with
  | nil =>
    have up := h.parent? numbered q
    have top : t.parent? q = none := climbs
    rw [top, Option.map_none, ite_self] at up
    exact Option.map_eq_none_iff.1 up
  | cons p path ih =>
    simp only [List.mem_cons, not_or] at apart
    refine ⟨?_, ih climbs.2 (by simpa using apart.2)⟩
    rw [h.parent? numbered, if_neg (Ne.symm apart.1)]
    exact climbs.1

/-! ## What is still to go -/

/-- A loss at `q` may leave `i` empty: `q` is `i` or a part of it. -/
def Heeds (t : Tree) (i q : Nat) : Prop :=
  q = i ∨ q ∈ t.childrenOf i ∧ (t.kind? q).any Node.Kind.isPart = true

/-- Of the nodes `I`, each empty rule or at-rule that could be detached may be so by a loss at one of `Q`. -/
structure Awaits (t : Tree) (I Q : List Nat) : Prop where
  numbered : t.Numbered
  closed : ∀ p c, c ∈ t.childrenOf p → (c ∈ I ↔ p ∈ I)
  heeds : ∀ i ∈ I, t.isEmptied i = true → t.parent? i ≠ none → ∃ q ∈ Q, t.Heeds i q

/-- How many of the nodes `I` are in a place that a sweep would take them out of. -/
def pending (t : Tree) (I : List Nat) : Nat :=
  I.countP fun i => (t.parent? i).isSome && t.isHollow i

/-- Nothing waits for a node without a parent, nor for one that is neither a part nor empty. -/
theorem Awaits.stop (h : t.Awaits I (q :: Q))
    (stops : t.parent? q = none ∨ (t.kind? q).any Node.Kind.isPart = false ∧ t.isEmptied q = false) :
    t.Awaits I Q := by
  refine ⟨h.numbered, h.closed, fun i mem emptied below => ?_⟩
  obtain ⟨q', hq, heeds⟩ := h.heeds i mem emptied below
  rcases List.mem_cons.1 hq with rfl | hq
  · rcases heeds with rfl | ⟨child, part⟩
    · rcases stops with top | ⟨-, full⟩
      · exact absurd top below
      · rw [full] at emptied
        cases emptied
    · rcases stops with top | ⟨other, -⟩
      · rw [h.numbered.linked, top] at child
        cases child
      · rw [other] at part
        cases part
  · exact ⟨q', hq, heeds⟩

theorem isEmptied_of_isPart (part : (t.kind? id).any Node.Kind.isPart = true) : t.isEmptied id = false := by
  obtain ⟨k, e, part⟩ := (Option.any_eq_true _ _).1 part
  unfold Tree.isEmptied
  rw [e]
  cases k <;> first | rfl | cases part

/-- A part passes on what it waits for. -/
theorem Awaits.climb (h : t.Awaits I (q :: Q)) (part : (t.kind? q).any Node.Kind.isPart = true)
    (up : (t.parent? q).map Node.id = some p) : t.Awaits I (p :: Q) := by
  refine ⟨h.numbered, h.closed, fun i mem emptied below => ?_⟩
  obtain ⟨q', hq, heeds⟩ := h.heeds i mem emptied below
  rcases List.mem_cons.1 hq with rfl | hq
  · rcases heeds with rfl | ⟨child, -⟩
    · rw [isEmptied_of_isPart part] at emptied
      cases emptied
    · rw [h.numbered.linked, up] at child
      exact ⟨p, List.mem_cons_self .., .inl (Option.some.inj child)⟩
  · exact ⟨q', List.mem_cons_of_mem _ hq, heeds⟩

/-- Only the parent of the node that is detached has other children then. -/
theorem Loses.eq_of_changed (loses : t.Loses id u) (numbered : t.Numbered) (up : (t.parent? id).map Node.id = some p)
    {q : Nat} (changed : u.childrenOf q ≠ t.childrenOf q) : q = p := by
  refine Classical.byContradiction fun apart => changed ?_
  rw [loses.childrenOf, List.filter_eq_self]
  intro c child
  rw [numbered.linked] at child
  have : c ≠ id := by
    rintro rfl
    exact apart (Option.some.inj (child.symm.trans up))
  simpa using this

theorem Loses.mem_childrenOf (loses : t.Loses id u) {c q : Nat} (child : c ∈ u.childrenOf q) : c ∈ t.childrenOf q := by
  rw [loses.childrenOf] at child
  exact (List.mem_filter.1 child).1

/-- What has a place after a node was detached is another node and had a place before. -/
theorem Loses.parent?_ne_none (loses : t.Loses id u) (numbered : t.Numbered) {i : Nat} (place : u.parent? i ≠ none) :
    i ≠ id ∧ t.parent? i ≠ none := by
  have parent := loses.parent? numbered i
  have apart : i ≠ id := by
    rintro rfl
    rw [if_pos rfl, Option.map_eq_none_iff] at parent
    exact place parent
  refine ⟨apart, fun none => place ?_⟩
  rwa [if_neg apart, none, Option.map_none, Option.map_eq_none_iff] at parent

/-- When an empty rule is detached, its parent may be the next. -/
theorem Awaits.detach (h : t.Awaits I (id :: Q)) (loses : t.Loses id u)
    (other : (t.kind? id).any Node.Kind.isPart = false)
    (up : (t.parent? id).map Node.id = some p) : u.Awaits I (p :: Q) := by
  have lost {q : Nat} (changed : u.childrenOf q ≠ t.childrenOf q) : q = p :=
    loses.eq_of_changed h.numbered up changed
  have inside : ∀ i ∈ I, ∀ c ∈ u.childrenOf i, c ∈ I :=
    fun i mem c child => (h.closed i c (loses.mem_childrenOf child)).2 mem
  refine ⟨loses.numbered, fun q c child => h.closed q c (loses.mem_childrenOf child), fun i mem emptied top => ?_⟩
  obtain ⟨apart, place⟩ := loses.parent?_ne_none h.numbered top
  rcases isEmptied_cases (fun i _ => loses.kind? i) inside mem emptied with
    before | changed | ⟨c, child, part, changed⟩
  · obtain ⟨q, hq, heeds⟩ := h.heeds i mem before place
    rcases List.mem_cons.1 hq with rfl | hq
    · rcases heeds with rfl | ⟨-, part⟩
      · exact absurd rfl apart
      · rw [other] at part
        cases part
    · refine ⟨q, List.mem_cons_of_mem _ hq, heeds.imp_right fun ⟨child, part⟩ => ⟨?_, loses.kind? q ▸ part⟩⟩
      rw [loses.childrenOf, List.mem_filter]
      refine ⟨child, ?_⟩
      have : q ≠ id := by
        rintro rfl
        rw [other] at part
        cases part
      simpa using this
  · exact ⟨p, List.mem_cons_self .., .inl (lost changed).symm⟩
  · exact ⟨p, List.mem_cons_self .., .inr (lost changed ▸ ⟨child, part⟩)⟩

/-- A node that is detached is no longer to go, and nothing else changes. -/
theorem Loses.pending (h : t.Loses id u) (numbered : t.Numbered) (once : I.Nodup) (mem : id ∈ I)
    (below : t.parent? id ≠ none) (hollow : t.isHollow id = true) (stays : ∀ q, u.isHollow q = t.isHollow q) :
    u.pending I + 1 = t.pending I := by
  have here : ((t.parent? id).isSome && t.isHollow id) = true := by
    rw [hollow, Bool.and_true]
    exact Option.isSome_iff_ne_none.2 below
  have same {i : Nat} (apart : i ≠ id) :
      ((u.parent? i).isSome && u.isHollow i) = ((t.parent? i).isSome && t.isHollow i) := by
    have := h.parent? numbered i
    rw [if_neg apart] at this
    rw [stays, ← Option.isSome_map (f := Node.id), this, Option.isSome_map]
  have gone : ((u.parent? id).isSome && u.isHollow id) = false := by
    have := h.parent? numbered id
    rw [if_pos rfl, Option.map_eq_none_iff] at this
    rw [this]
    rfl
  unfold Tree.pending
  induction I with
  | nil => cases mem
  | cons i I ih =>
    rw [List.nodup_cons] at once
    rcases List.mem_cons.1 mem with rfl | mem
    · have rest : I.countP (fun i => (u.parent? i).isSome && u.isHollow i)
          = I.countP fun i => (t.parent? i).isSome && t.isHollow i := by
        apply List.countP_congr
        intro i hi
        rw [same fun e => once.1 (e ▸ hi)]
      simp only [List.countP_cons, gone, here, rest, Bool.false_eq_true, if_true, if_false, Nat.add_zero]
    · have apart : i ≠ id := fun e => once.1 (e ▸ mem)
      have := ih once.2 mem
      rw [List.countP_cons, List.countP_cons, same apart]
      omega

/-! ## One climb, and all of them -/

/-- What a cascade does at a node: it stops there, goes on to what stands above, or detaches the node and
goes on. -/
theorem Numbered.removeEmptiedAlong_cases (h : t.Numbered) (id : Nat) (up : List Nat) :
    Tree.removeEmptiedAlong (id :: up) t = (0, t)
        ∧ (t.parent? id = none ∨ (t.kind? id).any Node.Kind.isPart = false ∧ t.isEmptied id = false)
      ∨ Tree.removeEmptiedAlong (id :: up) t = Tree.removeEmptiedAlong up t
        ∧ (t.kind? id).any Node.Kind.isPart = true
      ∨ ∃ u p, Tree.removeEmptiedAlong (id :: up) t
          = ((Tree.removeEmptiedAlong up u).1 + 1, (Tree.removeEmptiedAlong up u).2)
        ∧ (t.kind? id).any Node.Kind.isPart = false ∧ t.parent? id = some p ∧ t.isHollow id = true
        ∧ t.Loses id u ∧ ∀ q, u.isHollow q = t.isHollow q := by
  rw [Tree.removeEmptiedAlong]
  split
  next top => exact .inl ⟨rfl, .inl (top ▸ h.wellFormed.root)⟩
  next =>
    split
    next none =>
      have none : t.kind? id = Option.none := by rw [Tree.kind?, none]; rfl
      exact .inl ⟨rfl, .inr ⟨by rw [none]; rfl, by rw [Tree.isEmptied, none]⟩⟩
    next b found =>
      have kind : t.kind? id = some b.kind := by rw [Tree.kind?, found]; rfl
      have part : (t.kind? id).any Node.Kind.isPart = b.kind.isPart := by rw [kind]; rfl
      obtain ⟨mem, rfl⟩ := mem_of_find? found
      rw [part, h.isEmptied_eq mem]
      split
      next k => exact .inr (.inl ⟨rfl, by rw [k]; rfl⟩)
      next k => exact .inr (.inl ⟨rfl, by rw [k]; rfl⟩)
      next k => exact .inr (.inl ⟨rfl, by rw [k]; rfl⟩)
      next list block prelude =>
        have other : b.kind.isPart = false := by
          cases k : b.kind <;> first | rfl | simp_all
        split
        next emptied =>
          cases up' : t.parent? b.id with
          | none =>
            refine .inl ⟨?_, .inl rfl⟩
            simp only [Tree.detach, up']
          | some p =>
            have loses := h.detach_loses up' found
            have stays := h.isHollow_detach up' found emptied
            have detached : (t.detach b.id).1 = true := by simp only [Tree.detach, up', found]
            refine .inr (.inr ⟨(t.detach b.id).2, p, ?_, other, rfl, ?_, loses, stays⟩)
            · generalize t.detach b.id = r at detached
              obtain ⟨done, u⟩ := r
              obtain rfl : done = true := detached
              rfl
            · rw [h.isHollow_eq mem, clear_eq_gone emptied]
              rfl
        next full => exact .inl ⟨rfl, .inr ⟨other, by simpa using full⟩⟩

/-- One climb: nothing waits for where it began any more, and it counts the nodes that it detached. -/
theorem Awaits.removeEmptiedAlong (once : I.Nodup) (h : t.Awaits I (id :: Q)) (mem : id ∈ I)
    (climbs : t.Climbs id up) :
    (Tree.removeEmptiedAlong (id :: up) t).2.Awaits I Q
      ∧ (Tree.removeEmptiedAlong (id :: up) t).1 + (Tree.removeEmptiedAlong (id :: up) t).2.pending I
        = t.pending I := by
  induction up generalizing t id with
  | nil =>
    have top : t.parent? id = none := climbs
    rcases h.numbered.removeEmptiedAlong_cases id [] with ⟨e, stops⟩ | ⟨e, -⟩ | ⟨u, p, -, -, up, -⟩
    · rw [e]
      exact ⟨h.stop stops, Nat.zero_add _⟩
    · rw [e]
      exact ⟨h.stop (.inl top), Nat.zero_add _⟩
    · rw [top] at up
      cases up
  | cons p up ih =>
    have above : p ∈ I := (h.closed p id ((h.numbered.linked p id).2 climbs.1)).1 mem
    rcases h.numbered.removeEmptiedAlong_cases id (p :: up) with
      ⟨e, stops⟩ | ⟨e, part⟩ | ⟨u, p', e, other, up', hollow, loses, stays⟩
    · rw [e]
      exact ⟨h.stop stops, Nat.zero_add _⟩
    · rw [e]
      exact ih (h.climb part climbs.1) above climbs.2
    · rw [e]
      have counted := loses.pending h.numbered once mem (by simp [up']) hollow stays
      have path := loses.climbs h.numbered climbs.2 climbs.not_mem
      obtain ⟨awaits, count⟩ := ih (h.detach loses other climbs.1) above path
      refine ⟨awaits, ?_⟩
      simp only
      omega

/-- After the last climb nothing waits any more. -/
theorem Awaits.removeEmptiedFromAll (once : I.Nodup) (h : t.Awaits I Q) (within : ∀ q ∈ Q, q ∈ I) :
    (t.removeEmptiedFromAll Q).2.Awaits I []
      ∧ (t.removeEmptiedFromAll Q).1 + (t.removeEmptiedFromAll Q).2.pending I = t.pending I := by
  induction Q generalizing t with
  | nil => exact ⟨h, Nat.zero_add _⟩
  | cons q Q ih =>
    have climbed := h.removeEmptiedAlong once (within q (List.mem_cons_self ..)) (h.numbered.climbs q)
    rw [← Tree.removeEmptiedFrom] at climbed
    obtain ⟨awaits, count⟩ := ih climbed.1 fun q mem => within q (List.mem_cons_of_mem _ mem)
    rw [removeEmptiedFromAll_cons]
    refine ⟨awaits, ?_⟩
    have := climbed.2
    simp only
    omega

/-! ## When nothing waits any more -/

/-- The nodes below one of `I` are of `I` too, and have a parent. -/
theorem Awaits.inside (h : t.Awaits I Q) (mem : b ∈ t.branches) (hb : b.id ∈ I) :
    ∀ c ∈ b.preorder, c.id ∈ I ∧ (c = b ∨ t.parent? c.id ≠ none) := by
  induction b using induct with
  | mk n cs ih =>
    intro c inside
    rcases mem_preorder.1 inside with rfl | inside
    · exact ⟨hb, .inl rfl⟩
    · obtain ⟨d, child, inside⟩ := mem_preorderAll.1 inside
      have link : d.id ∈ t.childrenOf (Branch.mk n cs).id := by
        rw [h.numbered.childrenOf_id mem]
        exact List.mem_map_of_mem child
      have place : t.parent? d.id ≠ none := by
        rw [h.numbered.linked] at link
        intro none
        rw [none] at link
        cases link
      obtain ⟨hc, below⟩ := ih d child (child_mem_branches mem child) ((h.closed _ _ link).2 hb) c inside
      refine ⟨hc, .inr ?_⟩
      rcases below with rfl | below
      · exact place
      · exact below

/-- No node of `I` is empty, but for those that have no parent. -/
theorem Awaits.isEmptied_eq_false (h : t.Awaits I []) (mem : c ∈ t.branches) (hc : c.id ∈ I)
    (below : t.parent? c.id ≠ none) : c.isEmptied = false := by
  rw [← h.numbered.isEmptied_eq mem]
  cases emptied : t.isEmptied c.id with
  | false => rfl
  | true =>
    obtain ⟨q, hq, -⟩ := h.heeds c.id hc emptied below
    cases hq

theorem Awaits.pending_eq_zero (h : t.Awaits I []) : t.pending I = 0 := by
  rw [Tree.pending, List.countP_eq_zero]
  intro i mem counted
  rw [Bool.and_eq_true, Option.isSome_iff_ne_none, isHollow, Option.any_eq_true] at counted
  obtain ⟨below, b, found, hollow⟩ := counted
  obtain ⟨hb, rfl⟩ := mem_of_find? found
  have full : ∀ c ∈ b.preorder, c.isEmptied = false := by
    intro c inside
    obtain ⟨hc, place⟩ := h.inside hb mem c inside
    have branch := (preorder_sublist_preorderAll t.forest b hb).subset inside
    refine h.isEmptied_eq_false branch hc ?_
    rcases place with rfl | place
    · exact below
    · exact place
  rw [clear_eq_whole full] at hollow
  cases hollow

/-- Nothing in the style sheet is empty. -/
theorem Awaits.attached (h : t.Awaits I []) (root : t.root ∈ I) (top : t.sheet.isEmptied = false) :
    ∀ c ∈ t.sheet.preorder, c.isEmptied = false := by
  intro c inside
  obtain ⟨hc, place⟩ := h.inside t.sheet_mem_branches root c inside
  rcases place with rfl | place
  · exact top
  · exact h.isEmptied_eq_false (mem_branches.2 (.inl inside)) hc place

end Tree

end AboveFold
