import AboveFold.Proofs.Tree.Settling

/-!
# Putting nodes in place

Inserting a node takes its number out of the list it stood in and puts it among the children of its new parent
(`Tree.Numbered.insert_places`). Replacing a node is to detach it and to insert another in its place, which is counted
before anything is taken out (`Tree.Numbered.replaces`). So a node that stood before the old one below the same parent
ends up one place too far behind. A node that may not be inserted there, because it is the root or the parent stands
below it, leaves the old one detached with nothing in its place.
-/

namespace AboveFold.Tree
open Branch

variable {t u : Tree} {b c : Branch} {p : Node} {id parent index child old replacement : Nat}

/-- A node that may not be put below `parent`: it is the root, or `parent`, or stands above it. -/
def Refuses (t : Tree) (parent child : Nat) : Prop :=
  child = t.root ∨ child = parent ∨ child ∈ (t.ancestors parent).map Node.id

/-- What inserting a node makes of a tree. -/
structure Places (t : Tree) (parent index child : Nat) (u : Tree) : Prop where
  numbered : u.Numbered
  root : u.root = t.root
  kind? : ∀ q, u.kind? q = t.kind? q
  here : u.childrenOf parent = ((t.childrenOf parent).filter (· ≠ child)).take index
    ++ child :: ((t.childrenOf parent).filter (· ≠ child)).drop index
  elsewhere : ∀ q, q ≠ parent → u.childrenOf q = (t.childrenOf q).filter (· ≠ child)

theorem filter_ne_of_not_mem {a : Nat} {xs : List Nat} (free : a ∉ xs) : xs.filter (· ≠ a) = xs := by
  rw [List.filter_eq_self]
  intro c mem
  have apart : c ≠ a := fun same => free (same ▸ mem)
  simpa using apart

theorem filter_ne_of_nodup {a : Nat} {xs ys : List Nat} (once : (xs ++ a :: ys).Nodup) :
    (xs ++ a :: ys).filter (· ≠ a) = xs ++ ys := by
  rw [List.nodup_append, List.nodup_cons] at once
  obtain ⟨-, ⟨right, -⟩, left⟩ := once
  have left : a ∉ xs := fun mem => left a mem a (by simp) rfl
  rw [List.filter_append, List.filter_cons_of_neg (by simp), filter_ne_of_not_mem left, filter_ne_of_not_mem right]

/-! ## Inserting -/

theorem refuses_iff : (child = t.root || child = parent || (t.ancestors parent).any (·.id = child)) = true
    ↔ t.Refuses parent child := by
  simp only [Bool.or_eq_true, decide_eq_true_eq, List.any_eq_true, or_assoc, Refuses, List.mem_map]

theorem insert_of_refuses (h : t.Refuses parent child) (index : Nat) : t.insert parent index child = t := by
  rw [Tree.insert, if_pos (refuses_iff.2 h)]

/-- A node that has no parent is among the children of none. -/
theorem Numbered.filter_childrenOf (h : t.Numbered) (top : t.parent? id = none) (q : Nat) :
    (t.childrenOf q).filter (· ≠ id) = t.childrenOf q := by
  refine filter_ne_of_not_mem fun mem => ?_
  rw [h.linked, top] at mem
  cases mem

/-- Detaching takes a node out of the list of children it is in, if any. -/
theorem Numbered.loses_detach (h : t.Numbered) (id : Nat) : t.Loses id (t.detach id).2 := by
  cases up : t.parent? id with
  | none =>
    have same : (t.detach id).2 = t := by simp only [Tree.detach, up]
    rw [same]
    exact ⟨h, rfl, fun _ => rfl, fun q => (h.filter_childrenOf up q).symm⟩
  | some p =>
    obtain ⟨l, hl, -, c, child, rfl⟩ := exists_located_of_parent? up
    have mem : c ∈ t.branches := child_mem_branches (mem_branches_of_located hl) child
    exact h.detach_loses up (h.find?_eq_some.2 ⟨mem, rfl⟩)

/-- A branch with no parent is the style sheet or loose. -/
theorem Numbered.mem_loose (h : t.Numbered) (mem : b ∈ t.branches) (top : t.parent? b.id = none)
    (other : b.id ≠ t.root) : b ∈ t.loose := by
  obtain ⟨l, hl, rfl⟩ := exists_located_of_mem mem
  rcases locateAll_cases t.forest [] l hl with ⟨-, first⟩ | ⟨q, hq, -, child⟩
  · rcases List.mem_cons.1 first with sheet | loose
    · exact absurd (congrArg Branch.id sheet) other
    · exact loose
  · rw [h.parent?_of_child hq child] at top
    cases top

theorem children_including (index : Nat) (b x : Branch) : (including index b x).children.map Branch.id
    = (x.children.map Branch.id).take index ++ b.id :: (x.children.map Branch.id).drop index := by
  cases x with
  | mk n cs =>
    have size : cs.length = (cs.map Branch.id).length := (List.length_map _).symm
    simp only [including, children_mk, List.map_append, List.map_cons, List.map_take, List.map_drop]
    rw [size, ← List.take_eq_take_min, ← List.drop_eq_drop_min]

/-- Everything but a loose branch is left when that branch is put elsewhere. -/
theorem Numbered.mem_without_loose (h : t.Numbered) (mem : b ∈ t.loose) (hc : c ∈ t.branches) (outside : c.id ∉ b.ids) :
    c ∈ branches { t with loose := t.loose.filter (·.id ≠ b.id) } := by
  rcases mem_branches.1 hc with sheet | loose
  · exact mem_branches.2 (.inl sheet)
  · obtain ⟨d, hd, inside⟩ := mem_preorderAll.1 loose
    refine mem_branches.2 (.inr (mem_preorderAll.2 ⟨d, List.mem_filter.2 ⟨hd, ?_⟩, inside⟩))
    have apart : d.id ≠ b.id := by
      intro same
      have branch {x : Branch} (mem : x ∈ t.loose) : x ∈ t.branches := mem_branches.2 (.inr (mem_preorderAll_of_mem mem))
      rw [h.unique (branch hd) (branch mem) same] at inside
      exact outside (List.mem_map_of_mem inside)
    simpa using apart

/-- Putting a loose branch below a node that is not inside it. -/
theorem Numbered.including_places (h : t.Numbered) (mem : b ∈ t.loose) (top : t.parent? b.id = none)
    (lt : parent < t.size) (outside : parent ∉ b.ids) (index : Nat) :
    t.Places parent index b.id
      (Tree.edit { t with loose := t.loose.filter (·.id ≠ b.id) } parent (including index b)) := by
  have evolves := h.edit_including mem lt outside index
  have sub : branches { t with loose := t.loose.filter (·.id ≠ b.id) } ⊆ t.branches :=
    preorderAll_subset (List.cons_subset_cons _ List.filter_sublist.subset)
  have inside : b.preorder ⊆ t.branches :=
    (preorder_sublist_preorderAll t.forest b (mem_branches.2 (.inr (mem_preorderAll_of_mem mem)))).subset
  -- the node that gets the branch
  obtain ⟨q, hq, rfl⟩ := mem_ids.1 (h.mem_ids_iff.2 lt)
  have stays := h.mem_without_loose mem hq outside
  have given : including index b q
      ∈ (Tree.edit { t with loose := t.loose.filter (·.id ≠ b.id) } q.id (including index b)).branches := by
    have kept (x : Branch) (e : x.id = q.id) : (including index b x).id = q.id :=
      (keepsTop_including index b x).1.trans e
    rcases edit_spec { t with loose := t.loose.filter (·.id ≠ b.id) } q.id (including index b) kept with
      ⟨absent, -⟩ | ⟨x, edited, -⟩
    · exact absurd (mem_ids.2 ⟨q, stays, rfl⟩) absent
    · obtain rfl := h.unique (sub edited.mem) hq edited.id_eq
      exact edited.mem_new
  have origin : ∀ x' ∈ (Tree.edit { t with loose := t.loose.filter (·.id ≠ b.id) } q.id (including index b)).branches,
      ∃ x ∈ t.branches, x'.id = x.id ∧ x'.kind = x.kind
        ∧ (x'.children.map Branch.id = x.children.map Branch.id ∨ x.id = q.id) := by
    intro x' mem'
    rcases mem_edit mem' with old | ⟨x, hx, e⟩ | ⟨x, hx, -, below⟩
    · exact ⟨x', sub old, rfl, rfl, .inl rfl⟩
    · obtain ⟨id, kind⟩ := (keepsTop_including index b).edit e
      exact ⟨x, sub hx, id, kind, ((keepsTop_including index b).edit_children e).imp_right And.left⟩
    · refine ⟨x', ?_, rfl, rfl, .inl rfl⟩
      obtain ⟨n, cs⟩ := x
      simp only [including, children_mk, preorderAll_append, preorderAll_cons, List.mem_append] at below
      have old {ds : List Branch} (part : ds ⊆ cs) (mem : x' ∈ preorderAll ds) : x' ∈ t.branches :=
        children_subset_branches (sub hx) (preorderAll_subset part mem)
      rcases below with left | here | right
      · exact old (List.take_subset _ _) left
      · exact inside here
      · exact old (List.drop_subset _ _) right
  have numbered := evolves.numbered
  generalize Tree.edit { t with loose := t.loose.filter (·.id ≠ b.id) } q.id (including index b) = u
    at evolves given origin numbered
  have both (m : Nat) : u.find? m = none ∧ t.find? m = none ∨ ∃ x x', t.find? m = some x ∧ u.find? m = some x'
      ∧ x'.kind = x.kind ∧ (x'.children.map Branch.id = x.children.map Branch.id ∨ m = q.id) := by
    cases found : u.find? m with
    | none =>
      refine .inl ⟨rfl, Option.not_isSome_iff_eq_none.1 fun some => ?_⟩
      have size := Nat.lt_of_lt_of_le ((h.wellFormed.found m).1 some) evolves.size_le
      rw [← numbered.wellFormed.found m, found] at size
      cases size
    | some x' =>
      obtain ⟨mem', rfl⟩ := mem_of_find? found
      obtain ⟨x, hx, id, kind, children⟩ := origin x' mem'
      exact .inr ⟨x, x', h.find?_eq_some.2 ⟨hx, id.symm⟩, rfl, kind, children.imp_right id.trans⟩
  refine ⟨numbered, evolves.root, fun m => ?_, ?_, fun m other => ?_⟩
  · rcases both m with ⟨none, none'⟩ | ⟨x, x', found, found', kind, -⟩
    · rw [Tree.kind?, Tree.kind?, none, none']
    · rw [Tree.kind?, Tree.kind?, found, found', Option.map_some, Option.map_some, kind]
  · have children := numbered.childrenOf_id given
    rw [(keepsTop_including index b q).1] at children
    rw [children, children_including, h.filter_childrenOf top, h.childrenOf_id hq]
  · rw [h.filter_childrenOf top]
    rcases both m with ⟨none, none'⟩ | ⟨x, x', found, found', -, children⟩
    · simp [Tree.childrenOf, none, none']
    · rw [childrenOf_eq found, childrenOf_eq found', children.resolve_right other]

/-- **Inserting** a node that may stand below the parent puts it there, and takes it from where it was. -/
theorem Numbered.insert_places (h : t.Numbered) (lt : parent < t.size) (lt' : child < t.size)
    (free : ¬t.Refuses parent child) (index : Nat) : t.Places parent index child (t.insert parent index child) := by
  obtain ⟨evolves, size, whole⟩ := h.detach child
  have loses := h.loses_detach child
  have numbered := loses.numbered
  obtain ⟨b, hb, rfl⟩ := mem_ids.1 (h.mem_ids_iff.2 lt')
  have top : (t.detach b.id).2.parent? b.id = none := by
    have up := loses.parent? h b.id
    rw [if_pos rfl] at up
    exact Option.map_eq_none_iff.1 up
  have detached := whole b hb rfl
  have loose : b ∈ (t.detach b.id).2.loose :=
    numbered.mem_loose detached top fun same => free (.inl (same.trans loses.root))
  have outside : parent ∉ b.ids := by
    intro inside
    rcases h.top_or_ancestor hb inside with same | above
    · exact free (.inr (.inl same.symm))
    · exact free (.inr (.inr (List.mem_map_of_mem above)))
  have found : (t.detach b.id).2.loose.find? (·.id = b.id) = some b := by
    cases found : (t.detach b.id).2.loose.find? (·.id = b.id) with
    | none => simpa using List.find?_eq_none.1 found b loose
    | some c =>
      have same : c.id = b.id := by simpa using List.find?_some found
      have hc := mem_branches.2 (.inr (mem_preorderAll_of_mem (List.mem_of_find?_eq_some found)))
      rw [numbered.unique hc detached same]
  have places := numbered.including_places loose top (size ▸ lt) outside index
  have result : t.insert parent index b.id
      = Tree.edit { (t.detach b.id).2 with loose := (t.detach b.id).2.loose.filter (·.id ≠ b.id) } parent
        (including index b) := by
    rw [Tree.insert, if_neg (refuses_iff.not.2 free)]
    simp only [found]
    rfl
  rw [result]
  have same (q : Nat) : ((t.detach b.id).2.childrenOf q).filter (· ≠ b.id) = (t.childrenOf q).filter (· ≠ b.id) :=
    (numbered.filter_childrenOf top q).trans (loses.childrenOf q)
  refine ⟨places.numbered, places.root.trans loses.root, fun q => (places.kind? q).trans (loses.kind? q), ?_, ?_⟩
  · rw [places.here, same]
  · exact fun q other => (places.elsewhere q other).trans (same q)

/-! ## Replacing -/

/-- Whether a node may stand below another does not depend on what is detached, unless it is above. -/
theorem Loses.refuses_iff (loses : t.Loses old u) (h : t.Numbered)
    (apart : old ∉ parent :: (t.ancestors parent).map Node.id) : u.Refuses parent child ↔ t.Refuses parent child := by
  have climbs := loses.climbs h (h.climbs parent) apart
  have same := (loses.numbered.climbs parent).unique climbs
  rw [Refuses, Refuses, loses.root, same]

/-- A node is put in the place of another below the parent `p`, where `before` and `after` stand around it. Everything
else stays, but that the node is taken from where it was. If it was among those before, there is one less of these,
and it ends up behind the first of those after. -/
structure Takes (t : Tree) (old replacement p : Nat) (before after : List Nat) (u : Tree) : Prop where
  numbered : u.Numbered
  root : u.root = t.root
  kind? : ∀ q, u.kind? q = t.kind? q
  detached : u.parent? old = none
  elsewhere : ∀ q, q ≠ p → u.childrenOf q = (t.childrenOf q).filter (· ≠ replacement)
  here : replacement ∉ before → u.childrenOf p = before ++ replacement :: after.filter (· ≠ replacement)
  shifted : replacement ∈ before →
    u.childrenOf p = before.filter (· ≠ replacement) ++ after.take 1 ++ replacement :: after.drop 1

/-- What replacing a node by another makes of a tree. -/
structure Replaces (t : Tree) (old replacement : Nat) (result : Bool × Tree) : Prop where
  /-- Without a parent there is no place to give, and nothing happens. -/
  placeless : t.parent? old = none → result = (false, t)
  /-- A node that may not stand below the parent does not, but the old one goes. -/
  refused : ∀ p, t.parent? old = some p → t.Refuses p.id replacement → result = (true, (t.detach old).2)
  taken : ∀ p before after, t.parent? old = some p → ¬t.Refuses p.id replacement →
    t.childrenOf p.id = before ++ old :: after →
    result.1 = true ∧ t.Takes old replacement p.id before after result.2

/-- **Replacing** a node. -/
theorem Numbered.replaces (h : t.Numbered) (lt : replacement < t.size) (other : replacement ≠ old) :
    t.Replaces old replacement (t.replace old replacement) := by
  have loses := h.loses_detach old
  obtain ⟨-, size, -⟩ := h.detach old
  have apart {p : Node} (up : t.parent? old = some p) : old ∉ p.id :: (t.ancestors p.id).map Node.id := by
    have climbs := h.climbs old
    rw [h.ancestors_of_parent? up] at climbs
    exact climbs.not_mem
  refine ⟨fun up => ?_, fun p up refuses => ?_, fun p before after up free children => ?_⟩
  · simp only [Tree.replace, up]
  · have result : (t.detach old).2.insert p.id ((t.childrenOf p.id).idxOf old) replacement = (t.detach old).2 :=
      insert_of_refuses ((loses.refuses_iff h (apart up)).2 refuses) _
    simp only [Tree.replace, up, result]
  · obtain ⟨l, hl, node, -⟩ := exists_located_of_parent? up
    have lt' : p.id < (t.detach old).2.size := by
      rw [size, ← node]
      exact h.id_lt (mem_branches_of_located hl)
    have places := loses.numbered.insert_places lt' (size ▸ lt) ((loses.refuses_iff h (apart up)).not.2 free)
      ((t.childrenOf p.id).idxOf old)
    have result : t.replace old replacement
        = (true, (t.detach old).2.insert p.id ((t.childrenOf p.id).idxOf old) replacement) := by
      simp only [Tree.replace, up]
    rw [result]
    refine ⟨rfl, ?_⟩
    have once := h.childrenOf_nodup p.id
    have left : (t.detach old).2.childrenOf p.id = before ++ after := by
      rw [loses.childrenOf, children]
      exact filter_ne_of_nodup (children ▸ once)
    have index : (t.childrenOf p.id).idxOf old = before.length := by
      rw [children] at once ⊢
      have first : old ∉ before := fun mem => (List.nodup_append.1 once).2.2 old mem old (by simp) rfl
      rw [List.idxOf_append_of_notMem first, List.idxOf_cons_self, Nat.add_zero]
    have gone (q : Nat) : old ∉ (t.detach old).2.childrenOf q := by
      rw [loses.childrenOf]
      simp
    rw [index] at places ⊢
    have here := places.here
    rw [left, List.filter_append] at here
    refine ⟨places.numbered, places.root.trans loses.root, fun q => (places.kind? q).trans (loses.kind? q), ?_,
      fun q away => ?_, fun apart => ?_, fun mem => ?_⟩
    · rw [← Option.map_eq_none_iff (f := Node.id), Option.eq_none_iff_forall_ne_some]
      intro q up
      rw [← places.numbered.linked] at up
      by_cases same : q = p.id
      · rw [same, places.here, List.mem_append, List.mem_cons] at up
        rcases up with before | rfl | after
        · exact gone _ (List.mem_of_mem_filter (List.mem_of_mem_take before))
        · exact other rfl
        · exact gone _ (List.mem_of_mem_filter (List.mem_of_mem_drop after))
      · rw [places.elsewhere q same] at up
        exact gone q (List.mem_of_mem_filter up)
    · rw [places.elsewhere q away, loses.childrenOf, filter_ne_of_not_mem (a := old)]
      intro mem
      rw [h.linked, up] at mem
      exact away (Option.some.inj mem).symm
    · rw [here, filter_ne_of_not_mem apart, List.take_left, List.drop_left]
    · obtain ⟨xs, ys, rfl⟩ := List.append_of_mem mem
      rw [children, List.nodup_append] at once
      obtain ⟨once, -, apart⟩ := once
      have behind : replacement ∉ after := fun later => apart replacement mem replacement (by simp [later]) rfl
      have size : (xs ++ replacement :: ys).length = (xs ++ ys).length + 1 := by
        simp only [List.length_append, List.length_cons]
        omega
      rw [here, filter_ne_of_nodup once, filter_ne_of_not_mem behind, size, List.take_length_add_append,
        List.drop_length_add_append]

/-- The first of three children in place of the second comes behind the third. -/
example :
    let leaf (id : Nat) : Branch := .mk ⟨id, .comma, none, false⟩ []
    let t : Tree := ⟨.mk ⟨0, .styleSheet, none, false⟩ [leaf 1, leaf 2, leaf 3], [], 4⟩
    (t.replace 2 1).1 = true ∧ (t.replace 2 1).2.childrenOf 0 = [3, 1] := by decide

end AboveFold.Tree
