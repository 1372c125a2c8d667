import AboveFold.Proofs.Tree.Removal

/-!
# Walks by number

The simplest visitor decides by the number of a node alone. Such a walk asks about the nodes that have no
node above them that it removes or skips, and takes out what detaching the removed ones one by one would
take out.
-/

namespace AboveFold
open Branch

/-- What to do with a node. -/
inductive Action where
  | descend
  | skip
  | remove
deriving DecidableEq, Repr

/-- An action as an answer to a walk. -/
def Action.verdict : Action → Verdict
  | descend => .descend
  | skip => .skip
  | remove => .remove

/-- The visitor that decides by the number of a node. -/
def Visitor.fixed (act : Nat → Action) : Visitor := fun site => (act site.branch.id).verdict

/-- Whether no node above a branch is removed or skipped. -/
def Branch.Located.isReached (act : Nat → Action) (l : Located) : Bool :=
  l.above.all (act ·.id = .descend)

namespace Tree

/-- The branches of a style sheet that have no removed or skipped node above them, in document order. -/
def reached (act : Nat → Action) (t : Tree) : List Branch :=
  ((t.sheet.locate []).filter (·.isReached act)).map Located.branch

/-- The numbers of the nodes that are removed. -/
def marked (act : Nat → Action) (t : Tree) : List Nat :=
  ((t.reached act).map Branch.id).filter (act · = .remove)

/-- Detaches nodes one after the other and counts those that had a place. -/
def detachAll (t : Tree) : List Nat → Nat × Tree
  | [] => (0, t)
  | i :: ids =>
    match t.detach i with
    | (true, t) => ((t.detachAll ids).1 + 1, (t.detachAll ids).2)
    | (false, t) => t.detachAll ids

end Tree

theorem Visitor.removes_fixed (act : Nat → Action) : (Visitor.fixed act).Removes := by
  intro site
  unfold Visitor.fixed
  cases act site.branch.id with
  | descend => exact .inl rfl
  | skip => exact .inr (.inl rfl)
  | remove => exact .inr (.inr rfl)

/-! ## What the walk asks about -/

namespace Branch

variable {act : Nat → Action} {above : List Node} {b : Branch} {bs cs : List Branch} {l : Located} {n : Node}

theorem Located.suffix (mem : l ∈ locateAll above bs) : above <:+ l.above := by
  induction e : l.above.length generalizing l with
  | zero =>
    rcases locateAll_cases bs above l mem with ⟨top, -⟩ | ⟨p, -, e', -⟩
    · exact top ▸ List.suffix_rfl
    · simp [e'] at e
  | succ k ih =>
    rcases locateAll_cases bs above l mem with ⟨top, -⟩ | ⟨p, hp, e', -⟩
    · exact top ▸ List.suffix_rfl
    · rw [e'] at e ⊢
      exact (ih hp (by simpa using e)).trans (List.suffix_cons _ _)

/-- Below a node that is not descended into nothing is reached. -/
theorem isReached_eq_false (stops : act n.id ≠ .descend) (mem : l ∈ locateAll (n :: above) bs) :
    l.isReached act = false := by
  rw [Located.isReached, List.all_eq_false]
  refine ⟨n, (Located.suffix mem).subset (List.mem_cons_self ..), ?_⟩
  simpa using stops

/-- What a walk by number saw of the branches with these places, and how many of them it removed. -/
structure Sees (act : Nat → Action) (places : List Located) (before after : Trail) : Prop where
  visited : after.visited = ((places.filter (·.isReached act)).map Located.branch).reverse ++ before.visited
  removed : after.bereft.length
    = before.bereft.length + places.countP fun l => l.isReached act && act l.branch.id = .remove && !l.above.isEmpty

/-- Of a node that is not descended into only the node itself is seen. -/
theorem Sees.of_stop {before after : Trail} (here : Located.isReached act ⟨above, .mk n cs⟩ = true)
    (stops : act n.id ≠ .descend) (visited : after.visited = .mk n cs :: before.visited)
    (removed : after.bereft.length
      = before.bereft.length + if act n.id = .remove && !above.isEmpty then 1 else 0) :
    Sees act ((Branch.mk n cs).locate above) before after := by
  have unseen : ∀ l ∈ locateAll (n :: above) cs, l.isReached act = false := fun l mem => isReached_eq_false stops mem
  constructor
  · have none : (locateAll (n :: above) cs).filter (·.isReached act) = [] := by
      rw [List.filter_eq_nil_iff]
      intro l mem
      simp [unseen l mem]
    rw [visited, locate, List.filter_cons_of_pos here, none]
    rfl
  · have none : (locateAll (n :: above) cs).countP (fun l =>
        l.isReached act && act l.branch.id = .remove && !l.above.isEmpty) = 0 := by
      rw [List.countP_eq_zero]
      intro l mem
      simp [unseen l mem]
    rw [removed, locate, List.countP_cons, none, here]
    simp only [Bool.true_and, Nat.zero_add]
    rfl

mutual

theorem sees_walk (act : Nat → Action) :
    ∀ (b : Branch) (above : List Node) (before after : List Branch) (trail : Trail),
      (∀ n ∈ above, act n.id = .descend) →
      Sees act (b.locate above) trail (b.walk (.fixed act) above before after trail).trail
  | mk n cs, above, before, after, trail, open_ => by
    have here : Located.isReached act ⟨above, mk n cs⟩ = true := by
      simpa [Located.isReached] using open_
    cases verdict : act n.id with
    | descend =>
      have answer : Visitor.fixed act ⟨above, before, mk n cs, after⟩ = .descend := congrArg Action.verdict verdict
      have below := sees_walkAll act cs (n :: above) [] { trail with visited := mk n cs :: trail.visited }
        (by simpa [verdict] using open_)
      simp only [Branch.walk, answer]
      constructor
      · rw [below.visited, locate, List.filter_cons_of_pos here]
        simp
      · rw [below.removed, locate, List.countP_cons_of_neg (by simp [verdict])]
    | skip =>
      have answer : Visitor.fixed act ⟨above, before, mk n cs, after⟩ = .skip := congrArg Action.verdict verdict
      simp only [Branch.walk, answer]
      exact .of_stop here (by simp [verdict]) rfl (by simp [verdict])
    | remove =>
      have answer : Visitor.fixed act ⟨above, before, mk n cs, after⟩ = .remove := congrArg Action.verdict verdict
      -- the top of a tree cannot be removed
      cases above with
      | nil =>
        simp only [Branch.walk, answer]
        exact .of_stop here (by simp [verdict]) rfl (by simp)
      | cons m above =>
        simp only [Branch.walk, answer]
        exact .of_stop here (by simp [verdict]) rfl (by simp [verdict])

theorem sees_walkAll (act : Nat → Action) :
    ∀ (bs : List Branch) (above : List Node) (before : List Branch) (trail : Trail),
      (∀ n ∈ above, act n.id = .descend) →
      Sees act (locateAll above bs) trail (walkAll (.fixed act) above before bs trail).trail
  | [], above, before, trail, open_ => ⟨rfl, rfl⟩
  | b :: bs, above, before, trail, open_ => by
    have first := sees_walk act b above before bs trail open_
    have later := sees_walkAll act bs above ((b.walk (.fixed act) above before bs trail).branches.reverse ++ before)
      (b.walk (.fixed act) above before bs trail).trail open_
    rw [walkAll]
    constructor
    · rw [later.visited, first.visited, locateAll]
      simp
    · rw [later.removed, first.removed, locateAll, List.countP_append]
      omega

end

/-! ## What the walk takes out -/

open Cut

/-- The plan that takes out the nodes with the given numbers. -/
def Plan.dropping (M : Nat → Bool) : Plan := fun _ b => if M b.id then some .gone else none

variable {M N : Nat → Bool} {ks : List Node.Kind}

theorem dropping_eq_none : Plan.dropping M ks b = none ↔ M b.id = false := by
  unfold Plan.dropping
  cases M b.id <;> simp

theorem dropping_eq_gone (h : M b.id = true) : Plan.dropping M ks b = some .gone := by
  unfold Plan.dropping
  rw [if_pos h]

/-- Nodes can be taken out one after the other. -/
theorem cutBelow_dropping (M N : Nat → Bool) (ks : List Node.Kind) (b : Branch) :
    cutBelow (.dropping N) ks (cutBelow (.dropping M) ks b) = cutBelow (.dropping fun i => M i || N i) ks b := by
  have both : (Plan.dropping M).andThen (.dropping N) = .dropping fun i => M i || N i := by
    funext ks b
    unfold Plan.andThen Plan.dropping
    cases e : M b.id <;> simp [e]
  rw [cutBelow_cutBelow, both]
  · exact fun _ _ _ _ => rfl
  · intro _ c _ _
    unfold Plan.dropping
    cases N c.id <;> simp

theorem cut_dropping_eq_whole (spared : ∀ c ∈ b.preorder, M c.id = false) : cut (.dropping M) ks b = .whole [b] :=
  cut_eq_whole fun _ c mem => .inl (dropping_eq_none.2 (spared c mem))

theorem cutBelow_dropping_eq_self (spared : ∀ c ∈ preorderAll b.children, M c.id = false) :
    cutBelow (.dropping M) ks b = b := by
  obtain ⟨n, cs⟩ := b
  have whole : each (cut (.dropping M) (n.kind :: ks)) cs = .whole cs :=
    each_eq_whole fun c child => cut_dropping_eq_whole fun d mem => spared d (mem_preorderAll.2 ⟨c, child, mem⟩)
  rw [cutBelow, children_mk, kind_mk, node_mk, whole, under_whole]

mutual

theorem walk_fixed {act : Nat → Action} :
    ∀ (b : Branch) (above : List Node) (before after : List Branch) (trail : Trail) (ks : List Node.Kind), above ≠ [] →
      (∀ l ∈ b.locate above, M l.branch.id = true ↔ act l.branch.id = .remove ∧ l.isReached act = true) →
      (∀ n ∈ above, act n.id = .descend) →
      (b.walk (.fixed act) above before after trail).cut = cut (.dropping M) ks b
  | mk n cs, above, before, after, trail, ks, below, marks, open_ => by
    have here : Located.isReached act ⟨above, mk n cs⟩ = true := by
      simpa [Located.isReached] using open_
    have top : M n.id = true ↔ act n.id = .remove := by
      have := marks ⟨above, mk n cs⟩ (mem_locate.2 (.inl rfl))
      rwa [here, and_iff_left rfl] at this
    have inside : ∀ l ∈ locateAll (n :: above) cs,
        M l.branch.id = true ↔ act l.branch.id = .remove ∧ l.isReached act = true :=
      fun l mem => marks l (mem_locate.2 (.inr mem))
    cases verdict : act n.id with
    | descend =>
      have answer : Visitor.fixed act ⟨above, before, mk n cs, after⟩ = .descend := congrArg Action.verdict verdict
      have spared : M n.id = false := by simpa [verdict] using top
      have children := walkAll_fixed cs (n :: above) [] { trail with visited := mk n cs :: trail.visited }
        (n.kind :: ks) (by simp) inside (by simpa [verdict] using open_)
      rw [cut_of_none (dropping_eq_none.2 spared), children_mk, kind_mk, node_mk, ← children]
      simp only [Branch.walk, answer]
      rfl
    | skip =>
      have answer : Visitor.fixed act ⟨above, before, mk n cs, after⟩ = .skip := congrArg Action.verdict verdict
      have spared : ∀ c ∈ (mk n cs).preorder, M c.id = false := by
        intro c mem
        rw [← locate_branch above] at mem
        obtain ⟨l, hl, rfl⟩ := List.mem_map.1 mem
        rcases mem_locate.1 hl with rfl | hl
        · simpa [verdict] using top
        · have := inside l hl
          rw [isReached_eq_false (by simp [verdict]) hl] at this
          simpa using this
      rw [cut_dropping_eq_whole spared]
      simp only [Branch.walk, answer]
      rfl
    | remove =>
      have answer : Visitor.fixed act ⟨above, before, mk n cs, after⟩ = .remove := congrArg Action.verdict verdict
      rw [cut_of_some (dropping_eq_gone (top.2 verdict))]
      cases above with
      | nil => exact absurd rfl below
      | cons m above =>
        simp only [Branch.walk, answer]
        rfl

theorem walkAll_fixed {act : Nat → Action} :
    ∀ (bs : List Branch) (above : List Node) (before : List Branch) (trail : Trail) (ks : List Node.Kind), above ≠ [] →
      (∀ l ∈ locateAll above bs, M l.branch.id = true ↔ act l.branch.id = .remove ∧ l.isReached act = true) →
      (∀ n ∈ above, act n.id = .descend) →
      (walkAll (.fixed act) above before bs trail).cut = each (cut (.dropping M) ks) bs
  | [], above, before, trail, ks, below, marks, open_ => rfl
  | b :: bs, above, before, trail, ks, below, marks, open_ => by
    have first := walk_fixed b above before bs trail ks below (fun l mem => marks l (by simp [locateAll, mem])) open_
    have later := walkAll_fixed bs above ((b.walk (.fixed act) above before bs trail).branches.reverse ++ before)
      (b.walk (.fixed act) above before bs trail).trail ks below (fun l mem => marks l (by simp [locateAll, mem])) open_
    rw [each_cons, ← first, ← later, walkAll]
    rfl

end

/-- The top of a tree stays, whatever the visitor says of it. -/
theorem walk_top_fixed (trail : Trail) (marks : ∀ l ∈ locateAll [b.node] b.children,
    M l.branch.id = true ↔ act l.branch.id = .remove ∧ l.isReached act = true) :
    (b.walk (.fixed act) [] [] [] trail).branches = [cutBelow (.dropping M) [] b] := by
  obtain ⟨n, cs⟩ := b
  rw [node_mk, children_mk] at marks
  have stays (stops : act n.id ≠ .descend) : cutBelow (.dropping M) [] (mk n cs) = mk n cs := by
    apply cutBelow_dropping_eq_self
    intro d mem
    obtain ⟨l, hl, rfl⟩ := exists_located mem [n]
    have := marks l hl
    rw [isReached_eq_false stops hl] at this
    simpa using this
  cases verdict : act n.id with
  | descend =>
    have answer : Visitor.fixed act ⟨[], [], mk n cs, []⟩ = .descend := congrArg Action.verdict verdict
    have children := walkAll_fixed cs [n] [] { trail with visited := mk n cs :: trail.visited } [n.kind] (by simp)
      marks (by simp [verdict])
    simp only [Branch.walk, answer]
    rw [cutBelow, children_mk, kind_mk, node_mk, ← children]
    rfl
  | skip =>
    have answer : Visitor.fixed act ⟨[], [], mk n cs, []⟩ = .skip := congrArg Action.verdict verdict
    simp only [Branch.walk, answer]
    rw [stays (by simp [verdict])]
  | remove =>
    have answer : Visitor.fixed act ⟨[], [], mk n cs, []⟩ = .remove := congrArg Action.verdict verdict
    simp only [Branch.walk, answer]
    rw [stays (by simp [verdict])]

end Branch

namespace Tree

variable {t u : Tree} {act : Nat → Action}

/-- A node of the style sheet is removed if it is reached. -/
theorem Numbered.mem_marked (h : t.Numbered) {l : Located} (mem : l ∈ t.sheet.locate []) :
    l.branch.id ∈ t.marked act ↔ act l.branch.id = .remove ∧ l.isReached act = true := by
  have ids : (t.sheet.locate []).map (fun l => l.branch.id) = t.sheet.ids := by
    rw [Branch.ids, ← locate_branch [] t.sheet, List.map_map]
    rfl
  have once : ((t.sheet.locate []).map fun l => l.branch.id).Nodup := ids ▸ h.sheet_ids_nodup
  simp only [marked, reached, List.mem_filter, List.mem_map, decide_eq_true_eq]
  constructor
  · rintro ⟨⟨_, ⟨l', ⟨mem', reached⟩, rfl⟩, e⟩, removed⟩
    obtain rfl := List.inj_on_of_nodup_map once mem' mem e
    exact ⟨removed, reached⟩
  · rintro ⟨removed, reached⟩
    exact ⟨⟨l.branch, ⟨l, ⟨mem, reached⟩, rfl⟩, rfl⟩, removed⟩

/-- The style sheet without the nodes that are removed. -/
theorem Numbered.unsettled_fixed (h : t.Numbered) (act : Nat → Action) :
    (t.unsettled (.fixed act)).sheet = cutBelow (.dropping fun i => decide (i ∈ t.marked act)) [] t.sheet := by
  have marks : ∀ l ∈ locateAll [t.sheet.node] t.sheet.children,
      (decide (l.branch.id ∈ t.marked act) = true ↔ act l.branch.id = .remove ∧ l.isReached act = true) :=
    fun l mem => by rw [decide_eq_true_eq, h.mem_marked (mem_locate.2 (.inr mem))]
  have walked := t.passed_branches (.fixed act)
  rw [passed, walk_top_fixed (M := fun i => decide (i ∈ t.marked act)) _ marks, List.cons.injEq] at walked
  exact walked.1.symm

end Tree

/-! ## Detaching one by one -/

namespace Branch

variable {x x' b c d : Branch} {p i : Nat} {ks : List Node.Kind}

/-- What is inside a branch is its top or the child of what is inside. -/
theorem mem_preorder_cases (mem : d ∈ c.preorder) : d = c ∨ ∃ y ∈ c.preorder, d ∈ y.children := by
  induction c using induct with
  | mk n cs ih =>
    rcases mem_preorder.1 mem with rfl | mem
    · exact .inl rfl
    · obtain ⟨e, child, inside⟩ := mem_preorderAll.1 mem
      refine .inr ?_
      rcases ih e child inside with rfl | ⟨y, hy, hd⟩
      · exact ⟨mk n cs, self_mem_preorder _, child⟩
      · exact ⟨y, mem_preorder_of_child child hy, hd⟩

/-- A branch that does not hold the parent of a node does not hold the node below its top. -/
theorem cut_eq_whole_of_links (links : ∀ y ∈ c.preorder, i ∈ y.children.map Branch.id ↔ y.id = p)
    (outside : p ∉ c.ids) (other : c.id ≠ i) : cut (.dropping (decide <| · = i)) ks c = .whole [c] := by
  apply cut_dropping_eq_whole
  intro d mem
  rw [decide_eq_false_iff_not]
  rintro rfl
  rcases mem_preorder_cases mem with rfl | ⟨y, hy, child⟩
  · exact other rfl
  · have up := (links y hy).1 (List.mem_map_of_mem child)
    exact outside (up ▸ List.mem_map_of_mem hy)

theorem each_dropping {cs : List Branch}
    (spared : ∀ c ∈ cs, c.id ≠ i → cut (.dropping (decide <| · = i)) ks c = .whole [c]) :
    Cut.each (cut (.dropping (decide <| · = i)) ks) cs = ⟨cs.filter (·.id ≠ i), cs.any (·.id = i)⟩ := by
  induction cs with
  | nil => rfl
  | cons c cs ih =>
    simp only [List.mem_cons, forall_eq_or_imp] at spared
    rw [Cut.each_cons, ih spared.2, List.filter_cons, List.any_cons]
    by_cases same : c.id = i
    · rw [cut_of_some (dropping_eq_gone (by simp [same]))]
      simp [Cut.beside, Cut.gone, same]
    · rw [spared.1 same]
      simp [Cut.beside, Cut.whole, same]

theorem mem_ids_of_edit {f : Branch → Branch} (e : edit p f x = some x') : p ∈ x.ids := by
  rcases edit_cases p f x with ⟨-, none⟩ | ⟨b', c, -, edited, -⟩
  · rw [none] at e
    cases e
  · have mem := edited.mem
    rw [preorderAll_cons, preorderAll_nil, List.append_nil] at mem
    exact edited.id_eq ▸ List.mem_map_of_mem mem

theorem mem_idsAll_of_mem {cs : List Branch} (mem : c ∈ cs) (inside : p ∈ c.ids) : p ∈ idsAll cs := by
  obtain ⟨y, hy, same⟩ := List.mem_map.1 inside
  exact same ▸ List.mem_map_of_mem (mem_preorderAll.2 ⟨c, mem, hy⟩)

/-- A child is taken out from among its siblings. -/
theorem each_dropping_child {cs : List Branch} (child : i ∈ cs.map Branch.id) (outside : p ∉ idsAll cs)
    (links : ∀ c ∈ cs, ∀ y ∈ c.preorder, i ∈ y.children.map Branch.id ↔ y.id = p) :
    Cut.each (cut (.dropping (decide <| · = i)) ks) cs = ⟨cs.filter (·.id ≠ i), true⟩ := by
  have lost : cs.any (·.id = i) = true := by
    obtain ⟨c, mem, rfl⟩ := List.mem_map.1 child
    exact List.any_eq_true.2 ⟨c, mem, by simp⟩
  rw [← lost]
  refine each_dropping fun c mem => cut_eq_whole_of_links (links c mem) fun inside => ?_
  exact outside (mem_idsAll_of_mem mem inside)

/-- What stands beside the branch that holds the parent stays. -/
theorem each_dropping_below {l r : List Branch} (held : p ∈ c.ids) (once : (idsAll (l ++ c :: r)).Nodup)
    (apart : ∀ d ∈ l ++ c :: r, d.id ≠ i)
    (links : ∀ d ∈ l ++ c :: r, ∀ y ∈ d.preorder, i ∈ y.children.map Branch.id ↔ y.id = p) :
    Cut.each (cut (.dropping (decide <| · = i)) ks) (l ++ c :: r)
      = (Cut.whole l).beside ((cut (.dropping (decide <| · = i)) ks c).beside (.whole r)) := by
  rw [idsAll_append, idsAll_cons, List.nodup_append, List.nodup_append] at once
  obtain ⟨-, ⟨-, -, right⟩, left⟩ := once
  have before : Cut.each (cut (.dropping (decide <| · = i)) ks) l = .whole l := by
    refine Cut.each_eq_whole fun d mem => ?_
    have mem' : d ∈ l ++ c :: r := List.mem_append_left _ mem
    refine cut_eq_whole_of_links (links d mem') (fun inside => ?_) (apart d mem')
    exact left p (mem_idsAll_of_mem mem inside) p (List.mem_append_left _ held) rfl
  have after : Cut.each (cut (.dropping (decide <| · = i)) ks) r = .whole r := by
    refine Cut.each_eq_whole fun d mem => ?_
    have mem' : d ∈ l ++ c :: r := List.mem_append_right _ (List.mem_cons_of_mem _ mem)
    refine cut_eq_whole_of_links (links d mem') (fun inside => ?_) (apart d mem')
    exact right p held p (mem_idsAll_of_mem mem inside) rfl
  rw [Cut.each_append, Cut.each_cons, before, after]

/-- Taking a child out of its parent is taking it out wherever it is. -/
theorem cutBelow_of_edit (ks : List Node.Kind)
    (links : ∀ y ∈ x.preorder, i ∈ y.children.map Branch.id ↔ y.id = p) (once : x.ids.Nodup)
    (e : edit p (without i) x = some x') :
    x' = cutBelow (.dropping (decide <| · = i)) ks x
      ∧ (Cut.each (cut (.dropping (decide <| · = i)) (x.kind :: ks)) x.children).touched = true := by
  induction x using induct generalizing x' ks with
  | mk n cs ih =>
    have top : i ∈ cs.map Branch.id ↔ n.id = p := links _ (self_mem_preorder _)
    have within : ∀ c ∈ cs, ∀ y ∈ c.preorder, i ∈ y.children.map Branch.id ↔ y.id = p :=
      fun c child y inside => links y (mem_preorder_of_child child inside)
    rw [ids_mk, List.nodup_cons] at once
    rw [edit] at e
    rw [cutBelow, children_mk, kind_mk, node_mk]
    split at e
    next here =>
      obtain rfl := Option.some.inj e
      rw [each_dropping_child (top.2 here) (here ▸ once.1) within]
      refine ⟨?_, rfl⟩
      rw [without, Cut.under, Bool.or_true]
    next other =>
      obtain ⟨cs', inside, rfl⟩ := Option.map_eq_some_iff.1 e
      obtain ⟨l, c, c', r, rfl, rfl, edited⟩ := editAll_eq_some inside
      have mem : c ∈ l ++ c :: r := by simp
      have apart : ∀ d ∈ l ++ c :: r, d.id ≠ i := fun d child same => other (top.1 (same ▸ List.mem_map_of_mem child))
      have onceHere : c.ids.Nodup := by
        have once := once.2
        rw [idsAll_append, idsAll_cons, List.nodup_append, List.nodup_append] at once
        exact once.2.1.1
      obtain ⟨below, touched⟩ := ih c mem (n.kind :: ks) (within c mem) onceHere edited
      have here : cut (.dropping (decide <| · = i)) (n.kind :: ks) c = ⟨[c'], true⟩ := by
        have spared : decide (c.id = i) = false := decide_eq_false (apart c mem)
        rw [cut_of_none (dropping_eq_none.2 spared), Cut.wrap, touched, below]
        rfl
      rw [each_dropping_below (mem_ids_of_edit edited) once.2 apart within, here]
      simp [Cut.under, Cut.beside, Cut.whole]

end Branch

namespace Tree

variable {t u : Tree} {id : Nat} {ids : List Nat} {act : Nat → Action}

/-- Detaching a node of the style sheet is taking it out. -/
theorem Numbered.detach_sheet (h : t.Numbered) (mem : id ∈ t.sheet.ids) (below : id ≠ t.root) :
    ∃ u, t.detach id = (true, u) ∧ t.Loses id u ∧ u.sheet = cutBelow (.dropping (decide <| · = id)) [] t.sheet := by
  have held := (h.mem_ids_branch_iff t.sheet_mem_branches).1 mem
  obtain ⟨b, hb, rfl⟩ := List.mem_map.1 mem
  have found : t.find? b.id = some b := h.find?_eq_some.2 ⟨mem_branches.2 (.inl hb), rfl⟩
  cases up : t.parent? b.id with
  | none =>
    have above : t.ancestors b.id = [] := List.head?_eq_none_iff.1 up
    rw [above] at held
    exact absurd (List.mem_singleton.1 held).symm below
  | some p =>
    have loses := h.detach_loses up found
    refine ⟨(t.detach b.id).2, ?_, loses, ?_⟩
    · simp only [Tree.detach, up, found]
    · have links : ∀ y ∈ t.sheet.preorder, b.id ∈ y.children.map Branch.id ↔ y.id = p.id := by
        intro y hy
        rw [← h.childrenOf_id (mem_branches.2 (.inl hy)), h.linked, up, Option.map_some, Option.some.injEq]
        exact eq_comm
      have child : b.id ∈ t.childrenOf p.id := (h.linked p.id b.id).2 (by rw [up]; rfl)
      have parent : p.id ∈ t.sheet.ids := (h.attached_closed p.id b.id child).1 mem
      rcases edit_cases p.id (without b.id) t.sheet with ⟨outside, -⟩ | ⟨sheet, c, e, -⟩
      · exact absurd parent outside
      · rw [← (cutBelow_of_edit [] links h.sheet_ids_nodup e).1, detach_eq up found, Tree.edit, e]

/-- A path that does not lead through the node that was detached is there afterwards. -/
theorem Loses.ancestors (loses : t.Loses id u) (h : t.Numbered) {j : Nat} (apart : j ≠ id)
    (above : id ∉ (t.ancestors j).map Node.id) : (u.ancestors j).map Node.id = (t.ancestors j).map Node.id := by
  refine (loses.numbered.climbs j).unique (loses.climbs h (h.climbs j) ?_)
  simp only [List.mem_cons, not_or]
  exact ⟨Ne.symm apart, above⟩

/-- Nodes that do not stand one above the other can be detached one by one. -/
theorem Numbered.detachAll_sheet (h : t.Numbered) (once : ids.Nodup)
    (attached : ∀ i ∈ ids, i ∈ t.sheet.ids ∧ i ≠ t.root)
    (apart : ∀ i ∈ ids, ∀ j ∈ ids, j ∉ (t.ancestors i).map Node.id) :
    (t.detachAll ids).1 = ids.length
      ∧ (t.detachAll ids).2.sheet = cutBelow (.dropping fun i => decide (i ∈ ids)) [] t.sheet := by
  induction ids generalizing t with
  | nil =>
    exact ⟨rfl, (cutBelow_dropping_eq_self fun c _ => by simp).symm⟩
  | cons id ids ih =>
    rw [List.nodup_cons] at once
    obtain ⟨mem, below⟩ := attached id (List.mem_cons_self ..)
    obtain ⟨u, e, loses, sheet⟩ := h.detach_sheet mem below
    have path {i : Nat} (hi : i ∈ ids) : (u.ancestors i).map Node.id = (t.ancestors i).map Node.id := by
      refine loses.ancestors h (fun same => once.1 (same ▸ hi)) ?_
      exact apart i (List.mem_cons_of_mem _ hi) id (List.mem_cons_self ..)
    have attached' : ∀ i ∈ ids, i ∈ u.sheet.ids ∧ i ≠ u.root := by
      intro i hi
      obtain ⟨inside, other⟩ := attached i (List.mem_cons_of_mem _ hi)
      rw [h.mem_ids_branch_iff t.sheet_mem_branches] at inside
      rw [loses.numbered.mem_ids_branch_iff u.sheet_mem_branches, path hi]
      have root : u.sheet.id = t.sheet.id := loses.root
      exact ⟨root ▸ inside, loses.root ▸ other⟩
    have apart' : ∀ i ∈ ids, ∀ j ∈ ids, j ∉ (u.ancestors i).map Node.id := by
      intro i hi j hj
      rw [path hi]
      exact apart i (List.mem_cons_of_mem _ hi) j (List.mem_cons_of_mem _ hj)
    obtain ⟨count, rest⟩ := ih loses.numbered once.2 attached' apart'
    have both : (fun i => decide (i = id) || decide (i ∈ ids)) = fun i => decide (i ∈ id :: ids) := by
      funext i
      simp
    rw [detachAll, e]
    refine ⟨congrArg Nat.succ count, ?_⟩
    simp only [rest, sheet, cutBelow_dropping, both]

/-! ## Both ways end alike -/

theorem Numbered.reached_nodup (h : t.Numbered) (act : Nat → Action) : ((t.reached act).map Branch.id).Nodup := by
  have sub : ((t.reached act).map Branch.id).Sublist t.sheet.ids := by
    rw [Branch.ids, ← locate_branch [] t.sheet]
    exact (List.filter_sublist.map _).map _
  exact sub.nodup h.sheet_ids_nodup

/-- A node below the root is reached only if the root is descended into. -/
theorem descend_of_isReached {l : Located} (mem : l ∈ locateAll [t.sheet.node] t.sheet.children)
    (reached : l.isReached act = true) : act t.root = .descend := by
  have all := List.all_eq_true.1 reached t.sheet.node ((Located.suffix mem).subset (List.mem_cons_self ..))
  exact of_decide_eq_true all

theorem exists_of_mem_marked (mem : id ∈ t.marked act) :
    act id = .remove ∧ ∃ l ∈ t.sheet.locate [], l.isReached act = true ∧ l.branch.id = id := by
  obtain ⟨inside, removed⟩ := List.mem_filter.1 mem
  obtain ⟨b, hb, rfl⟩ := List.mem_map.1 inside
  obtain ⟨l, hl, rfl⟩ := List.mem_map.1 hb
  obtain ⟨hl, reached⟩ := List.mem_filter.1 hl
  exact ⟨by simpa using removed, l, hl, reached, rfl⟩

/-- If the root is removed, nothing is taken out. -/
theorem Numbered.detachAll_of_root (h : t.Numbered) (root : act t.root = .remove) :
    t.detachAll (t.marked act) = (0, t) := by
  have none : t.parent? t.root = none := h.wellFormed.root
  have only : ∀ i ∈ t.marked act, i = t.root := by
    intro i mem
    obtain ⟨-, l, hl, reached, rfl⟩ := exists_of_mem_marked mem
    rcases mem_locate.1 hl with rfl | hl
    · rfl
    · rw [descend_of_isReached hl reached] at root
      cases root
  generalize t.marked act = ids at only
  induction ids with
  | nil => rfl
  | cons i ids ih =>
    simp only [List.mem_cons, forall_eq_or_imp] at only
    obtain ⟨rfl, rest⟩ := only
    have stays : t.detach t.root = (false, t) := by simp only [Tree.detach, none]
    rw [detachAll, stays]
    exact ih rest

/-- How many nodes a walk by number removes. -/
theorem bereft_fixed (t : Tree) (act : Nat → Action) : (t.passed (.fixed act)).trail.bereft.length
    = (t.sheet.locate []).countP fun l => l.isReached act && act l.branch.id = .remove && !l.above.isEmpty := by
  have sees := sees_walk act t.sheet [] [] [] (.start t.size) (by simp)
  exact sees.removed.trans (Nat.zero_add _)

/-- The nodes that are removed are attached. -/
theorem marked_attached (root : act t.root ≠ .remove) : ∀ i ∈ t.marked act, i ∈ t.sheet.ids ∧ i ≠ t.root := by
  intro i mem
  obtain ⟨removed, l, hl, -, rfl⟩ := exists_of_mem_marked mem
  have inside : l.branch ∈ t.sheet.preorder := by
    rw [← locate_branch []]
    exact List.mem_map_of_mem hl
  exact ⟨List.mem_map_of_mem inside, fun same => root (same ▸ removed)⟩

/-- None of the nodes that are removed stands above another. -/
theorem Numbered.marked_apart (h : t.Numbered) (act : Nat → Action) :
    ∀ i ∈ t.marked act, ∀ j ∈ t.marked act, j ∉ (t.ancestors i).map Node.id := by
  intro i hi j hj above
  obtain ⟨-, l, hl, reached, rfl⟩ := exists_of_mem_marked hi
  obtain ⟨removed, -⟩ := exists_of_mem_marked hj
  rw [h.ancestors_eq (mem_locateAll.2 ⟨t.sheet, List.mem_cons_self .., hl⟩)] at above
  obtain ⟨n, hn, rfl⟩ := List.mem_map.1 above
  have descends := List.all_eq_true.1 reached n hn
  rw [removed] at descends
  cases descends

/-- Detaching the nodes that a walk by number removes leaves the same, and counts the same. -/
theorem Numbered.detachAll_marked (h : t.Numbered) (act : Nat → Action) :
    (t.detachAll (t.marked act)).1 = (t.passed (.fixed act)).trail.bereft.length
      ∧ (t.detachAll (t.marked act)).2.sheet = (t.unsettled (.fixed act)).sheet := by
  rw [bereft_fixed, h.unsettled_fixed]
  by_cases root : act t.root = .remove
  · rw [h.detachAll_of_root root]
    constructor
    · refine (List.countP_eq_zero.2 fun l mem => ?_).symm
      rcases mem_locate.1 mem with rfl | mem
      · simp
      · cases reached : l.isReached act with
        | false => simp
        | true =>
          rw [descend_of_isReached mem reached] at root
          cases root
    · refine (cutBelow_dropping_eq_self fun c mem => ?_).symm
      obtain ⟨l, hl, rfl⟩ := exists_located mem [t.sheet.node]
      rw [decide_eq_false_iff_not, h.mem_marked (mem_locate.2 (.inr hl))]
      rintro ⟨-, reached⟩
      rw [descend_of_isReached hl reached] at root
      cases root
  · have once : (t.marked act).Nodup := List.filter_sublist.nodup (h.reached_nodup act)
    obtain ⟨count, sheet⟩ := h.detachAll_sheet once (marked_attached root) (h.marked_apart act)
    refine ⟨?_, sheet⟩
    rw [count, marked, reached, ← List.countP_eq_length_filter, List.countP_map, List.countP_map, List.countP_filter]
    apply List.countP_congr
    intro l mem
    rcases mem_locate.1 mem with rfl | mem
    · have root : act t.sheet.id ≠ .remove := root
      simp [root]
    · have above : l.above ≠ [] := List.ne_nil_of_mem ((Located.suffix mem).subset (List.mem_cons_self ..))
      simp [above, and_comm]

/-- A walk by number does what detaching the nodes that it removes and then sweeping do. -/
structure CascadesAsSweep (act : Nat → Action) (t : Tree) : Prop where
  /-- It asks about the nodes that have no removed or skipped node above them, in document order. -/
  visited : (t.walk (.fixed act)).visited = t.reached act
  /-- It asks about each of them once. -/
  once : ((t.walk (.fixed act)).visited.map Branch.id).Nodup
  sheet : (t.walk (.fixed act)).tree.sheet = (t.detachAll (t.marked act)).2.removeEmptied.2.sheet
  removed : (t.walk (.fixed act)).removed = (t.detachAll (t.marked act)).1
  emptied : (t.walk (.fixed act)).emptied = (t.detachAll (t.marked act)).2.removeEmptied.1
  full : ∀ b ∈ (t.walk (.fixed act)).tree.attached, b.isEmptied = false
  root : (t.walk (.fixed act)).tree.root = t.root ∧ (t.walk (.fixed act)).tree.isAttached t.root

theorem Numbered.cascadesAsSweep (h : t.Numbered) (act : Nat → Action) (root : t.sheet.kind = .styleSheet)
    (full : ∀ b ∈ t.attached, b.isEmptied = false) : t.CascadesAsSweep act := by
  obtain ⟨evolves, e⟩ := h.walk_eq (.fixed act)
  obtain ⟨sheet, emptied, -, nothing⟩ := h.walk_eq_removeEmptied (Visitor.removes_fixed act) root full
  obtain ⟨removed, same⟩ := h.detachAll_marked act
  have sees := sees_walk act t.sheet [] [] [] (.start t.size) (by simp)
  have visited : (t.passed (.fixed act)).trail.visited = (t.reached act).reverse := by
    exact sees.visited.trans (List.append_nil _)
  have asked : (t.walk (.fixed act)).visited = t.reached act := by rw [e, visited, List.reverse_reverse]
  have top := (h.walk (.fixed act)).root
  refine ⟨asked, asked ▸ h.reached_nodup act, ?_, ?_, ?_, nothing, top, ?_⟩
  · rw [sheet, removeEmptied_sheet, removeEmptied_sheet, same]
  · rw [e, removed]
  · rw [emptied, removeEmptied_count, removeEmptied_count, same]
  · rw [isAttached_iff, ← top]
    exact id_mem_ids _

end Tree

end AboveFold
