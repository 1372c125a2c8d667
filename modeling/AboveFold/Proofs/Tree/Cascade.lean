import AboveFold.Proofs.Tree.Culling
import AboveFold.Proofs.Tree.Walking

/-!
# Cascades

After a walk, rules and at-rules that it left empty are detached one after the other, upwards from the
nodes that lost a child. Each of them would go in a sweep anyway, so what a sweep would leave of the style
sheet stays the same all along (`Settles`), wherever the cascade stops.
-/

namespace AboveFold
open Branch

namespace Branch
open Cut

variable {b b' c c' x x' : Branch} {bs cs l r : List Branch} {n : Node} {id : Nat} {f : Branch → Branch}

theorem canBeEmpty_of_isEmptied (emptied : b.isEmptied = true) : b.kind.canBeEmpty = true := by
  unfold Branch.isEmptied at emptied
  cases k : b.kind <;> rw [k] at emptied <;> first | rfl | cases emptied

/-- What is empty goes when its branch is swept. -/
theorem clear_eq_gone (emptied : b.isEmptied = true) : b.clear = .gone :=
  clear_of_isEmptied ((thinned_swept b).isEmptied emptied)

/-- Nodes of the second branch that are closed are in the first as they are. -/
def Spares (b b' : Branch) : Prop := ∀ d ∈ b'.preorder, d.kind.isClosed = true → d ∈ b.preorder

/-- A branch lost a node below its top that would be swept, and is marked down to where it was. -/
structure Sheds (b b' : Branch) : Prop where
  thinned : b.Thinned b'
  swept : b'.swept = b.swept
  touched : (each clear b.children).touched = true
  solid : b.Nested → b.kind.isClosed = false
  culled : b.Nested → b.Culled Node.Kind.canBeEmpty b'

/-- The top of a branch loses what its children lose. A node that is not closed stands only below such nodes. -/
theorem Sheds.of_children (thins : Thins n.kind cs bs) (kept : (each clear bs).kept = (each clear cs).kept)
    (touched : (each clear cs).touched = true) (solid : (Branch.mk n cs).Nested → ∃ c ∈ cs, c.kind.isClosed = false)
    (culls : (Branch.mk n cs).Nested → Culls Node.Kind.canBeEmpty cs bs) :
    Sheds (Branch.mk n cs) (Branch.mk { n with modified := true } bs) := by
  have top (nested : (Branch.mk n cs).Nested) : n.kind.isClosed = false := by
    obtain ⟨c, mem, other⟩ := solid nested
    rw [Bool.eq_false_iff] at other ⊢
    intro closed
    have holds := (nested_mk.1 nested c mem).1
    exact other (Node.Kind.isClosed_iff.2 (.inl (Node.Kind.isPlain_of_canHold (Node.Kind.isClosed_iff.1 closed) holds)))
  refine ⟨⟨rfl, rfl, thins⟩, ?_, touched, top, fun nested => .below rfl rfl (top nested) (culls nested)⟩
  simp only [Branch.swept, under, children_mk, node_mk, kept, touched, Bool.or_true, Bool.true_or]

/-- The loss of a child that is empty. -/
theorem Sheds.of_child (emptied : b.isEmptied = true) :
    Sheds (Branch.mk n (l ++ b :: r)) (Branch.mk { n with modified := true } (l ++ r)) := by
  have gone := clear_eq_gone emptied
  apply Sheds.of_children
  · exact (Thins.refl _ l).append (.drop (isPrunable_of_isEmptied emptied) (.refl _ r))
  · simp [each_append, beside, gone, Cut.gone]
  · simp [each_append, beside, gone, Cut.gone]
  · exact fun _ => ⟨b, by simp, Node.Kind.isClosed_of_canBeEmpty (canBeEmpty_of_isEmptied emptied)⟩
  · exact fun _ => (Culls.refl _ l).append (.drop (canBeEmpty_of_isEmptied emptied) (.refl _ r))

/-- The loss of a node below a child. -/
theorem Sheds.below (h : Sheds c c') :
    Sheds (Branch.mk n (l ++ c :: r)) (Branch.mk { n with modified := true } (l ++ c' :: r)) := by
  have kept : c'.clear.kept = c.clear.kept := by
    rw [clear_eq, clear_eq, h.swept]
    split
    · rfl
    · exact congrArg (fun b => [b]) h.swept
  have touched : c.clear.touched = true := by
    rw [clear_eq]
    split
    · rfl
    · exact h.touched
  have inside (nested : (Branch.mk n (l ++ c :: r)).Nested) : c.Nested := (nested_mk.1 nested c (by simp)).2
  apply Sheds.of_children
  · exact (Thins.refl _ l).append ((h.thinned.single _).append (.refl _ r))
  · simp only [each_append, each_cons, beside, kept]
  · simp [each_append, beside, touched]
  · exact fun nested => ⟨c, by simp, h.solid (inside nested)⟩
  · exact fun nested => (Culls.refl _ l).append ((h.culled (inside nested)).single.append (.refl _ r))

/-- An edit changes one child. -/
theorem editAll_eq_some (e : editAll id f bs = some cs) :
    ∃ l c c' r, bs = l ++ c :: r ∧ cs = l ++ c' :: r ∧ edit id f c = some c' := by
  induction bs generalizing cs with
  | nil => simp [editAll] at e
  | cons b bs ih =>
    rw [editAll] at e
    cases here : edit id f b with
    | some b' =>
      simp only [here, Option.some.injEq] at e
      exact ⟨[], b, b', bs, rfl, e.symm, here⟩
    | none =>
      simp only [here, Option.map_eq_some_iff] at e
      obtain ⟨cs, e, rfl⟩ := e
      obtain ⟨l, c, c', r, rfl, rfl, edited⟩ := ih e
      exact ⟨b :: l, c, c', r, rfl, rfl, edited⟩

theorem Sheds.of_edit (here : ∀ q ∈ x.preorder, q.id = id → Sheds q (f q)) (e : edit id f x = some x') :
    Sheds x x' := by
  induction x using induct generalizing x' with
  | mk n cs ih =>
    rw [edit] at e
    split at e
    next top =>
      obtain rfl := Option.some.inj e
      exact here _ (self_mem_preorder _) top
    next =>
      obtain ⟨cs', inside, rfl⟩ := Option.map_eq_some_iff.1 e
      obtain ⟨l, c, c', r, rfl, rfl, edited⟩ := editAll_eq_some inside
      have mem : c ∈ l ++ c :: r := by simp
      exact (ih c mem (fun q inside => here q (mem_preorder_of_child mem inside)) edited).below

/-- A style sheet lost some nodes that would be swept, and no others. -/
structure Settles (b b' : Branch) : Prop where
  thinned : b.Thinned b'
  swept : b'.swept = b.swept
  culled : b.Nested → b.Culled Node.Kind.canBeEmpty b'

theorem Settles.refl (b : Branch) : b.Settles b := ⟨.refl b, rfl, fun _ => .refl b⟩

theorem Settles.trans (h : b.Settles b') (h' : b'.Settles c) : b.Settles c where
  thinned := h.thinned.trans h'.thinned
  swept := h'.swept.trans h.swept
  culled nested := (h.culled nested).trans (h'.culled (h.thinned.nested nested))

theorem Settles.spares (h : b.Settles b') (nested : b.Nested) : b.Spares b' :=
  fun _ mem closed => (h.culled nested).mem_of_isClosed mem closed

end Branch

namespace Tree

variable {t : Tree} {b : Branch} {id : Nat}

/-- The parent of an empty rule or at-rule may lose it. -/
theorem Numbered.sheds_without (h : t.Numbered) {q : Branch} (hq : q ∈ t.branches) (child : b ∈ q.children)
    (emptied : b.isEmptied = true) : ∀ q' ∈ t.branches, q'.id = q.id → Sheds q' (without b.id q') := by
  intro q' inside same
  obtain rfl := h.unique inside hq same
  obtain ⟨l, r, split, left, right⟩ := exists_split (h.once_children hq) child
  obtain ⟨n, cs⟩ := q'
  obtain rfl : cs = l ++ b :: r := split
  rw [without, filter_split left right]
  exact .of_child emptied

/-- Detaching a rule or at-rule that is empty, wherever it is. -/
theorem Numbered.detach_settles (h : t.Numbered) (found : t.find? id = some b) (emptied : b.isEmptied = true) :
    t.sheet.Settles (t.detach id).2.sheet := by
  cases up : t.parent? id with
  | none =>
    simp only [Tree.detach, up]
    exact .refl _
  | some p =>
    obtain ⟨q, hq, rfl, child⟩ := h.exists_parent up found
    obtain ⟨mem, rfl⟩ := mem_of_find? found
    have here : ∀ q' ∈ t.sheet.preorder, q'.id = q.id → Sheds q' (without b.id q') :=
      fun q' inside => h.sheds_without hq child emptied q' (mem_branches.2 (.inl inside))
    have e : (t.detach b.id).2.sheet = (t.edit q.id (without b.id)).sheet := by rw [detach_eq up found]; rfl
    rw [e]
    unfold Tree.edit
    cases edited : Branch.edit q.id (without b.id) t.sheet with
    | some sheet =>
      have sheds := Sheds.of_edit here edited
      exact ⟨sheds.thinned, sheds.swept, sheds.culled⟩
    | none =>
      simp only
      split <;> exact .refl _

/-- Removing what is empty along a path. -/
theorem Numbered.removeEmptiedAlong_settles (h : t.Numbered) (path : List Nat) :
    t.sheet.Settles (Tree.removeEmptiedAlong path t).2.sheet := by
  induction path generalizing t with
  | nil => exact .refl _
  | cons id up ih =>
    unfold Tree.removeEmptiedAlong
    split
    next => exact .refl _
    next =>
      split
      next => exact .refl _
      next b found =>
        split
        next => exact ih h
        next => exact ih h
        next => exact ih h
        next =>
          split
          next emptied =>
            have settles := h.detach_settles found emptied
            have numbered := (h.detach id).1.numbered
            split
            next u e =>
              rw [e] at settles numbered
              exact settles.trans (ih numbered)
            next u e =>
              rw [e] at settles
              exact settles
          next => exact .refl _

/-- Removes what several nodes that lost a child left empty, one after the other. -/
def removeEmptiedFromAll (ids : List Nat) (t : Tree) : Nat × Tree :=
  ids.foldl (fun (n, t) id =>
    let (m, t) := t.removeEmptiedFrom id
    (n + m, t)) (0, t)

theorem foldl_removeEmptiedFrom (ids : List Nat) (n : Nat) (t : Tree) :
    ids.foldl (fun (n, t) id =>
      let (m, t) := t.removeEmptiedFrom id
      (n + m, t)) (n, t)
      = (n + (t.removeEmptiedFromAll ids).1, (t.removeEmptiedFromAll ids).2) := by
  unfold removeEmptiedFromAll
  induction ids generalizing n t with
  | nil => simp
  | cons id ids ih =>
    simp only [List.foldl_cons]
    rw [ih, ih (0 + _)]
    simp [Nat.add_assoc]

@[simp] theorem removeEmptiedFromAll_cons (id : Nat) (ids : List Nat) (t : Tree) :
    t.removeEmptiedFromAll (id :: ids)
      = ((t.removeEmptiedFrom id).1 + ((t.removeEmptiedFrom id).2.removeEmptiedFromAll ids).1,
        ((t.removeEmptiedFrom id).2.removeEmptiedFromAll ids).2) := by
  rw [removeEmptiedFromAll, List.foldl_cons, foldl_removeEmptiedFrom, Nat.zero_add]

/-- Removing what any nodes that lost a child left empty. -/
theorem Numbered.removeEmptiedFromAll_settles (h : t.Numbered) (ids : List Nat) :
    t.sheet.Settles (t.removeEmptiedFromAll ids).2.sheet := by
  induction ids generalizing t with
  | nil => exact .refl _
  | cons id ids ih =>
    have settles := h.removeEmptiedAlong_settles (id :: (t.ancestors id).map Node.id)
    rw [removeEmptiedFromAll_cons]
    exact settles.trans (ih (h.removeEmptiedFrom id).numbered)

/-! ## Walks over a style sheet -/

/-- What a walk makes of the style sheet before it removes what it left empty. -/
def passed (t : Tree) (v : Visitor) : Passed :=
  t.sheet.walk v [] [] [] (.start t.size)

/-- The tree after a walk before what it left empty is removed. -/
def unsettled (t : Tree) (v : Visitor) : Tree :=
  ⟨(t.passed v).branches.headD t.sheet, (t.passed v).trail.loose ++ t.loose, (t.passed v).trail.size⟩

theorem Numbered.ancestors_root (h : t.Numbered) : t.ancestors t.root = [] := by
  have top : ⟨[], t.sheet⟩ ∈ t.located := mem_locateAll.2 ⟨t.sheet, List.mem_cons_self .., mem_locate.2 (.inl rfl)⟩
  exact h.ancestors_eq top

theorem passed_branches (t : Tree) (v : Visitor) : (t.passed v).branches = [(t.unsettled v).sheet] := by
  obtain ⟨b, e, -⟩ := t.sheet.walk_top v [] [] (.start t.size)
  have e : (t.passed v).branches = [b] := e
  simp only [unsettled, e, List.headD_cons]

/-- A walk over the style sheet, and then the removal of what it left empty. -/
theorem Numbered.walk_eq (h : t.Numbered) (v : Visitor) :
    t.Evolves (t.unsettled v)
      ∧ t.walk v = ⟨((t.unsettled v).removeEmptiedFromAll (t.passed v).trail.bereft.reverse).2,
        (t.passed v).trail.visited.reverse, (t.passed v).trail.bereft.length, (t.passed v).trail.changed,
        ((t.unsettled v).removeEmptiedFromAll (t.passed v).trail.bereft.reverse).1⟩ := by
  have found : t.find? t.root = some t.sheet := h.find?_eq_some.2 ⟨t.sheet_mem_branches, rfl⟩
  have walked : Passed.Of (.start t.size) [t.sheet] (t.passed v) := t.sheet.walk_spec v [] [] [] _
  have branches := t.passed_branches v
  have put : Branch.edit t.root (fun _ => (t.unsettled v).sheet) t.sheet = some (t.unsettled v).sheet := by
    obtain ⟨⟨n, cs⟩, loose, size⟩ := t
    exact if_pos rfl
  -- an untouched style sheet is left in its place, and that is what the walk made of it
  have grafted : (if (t.passed v).touched then t.graft t.root none (t.passed v).branches else t)
      = { t with sheet := (t.unsettled v).sheet } := by
    cases touched : (t.passed v).touched with
    | true => simp only [if_true, Tree.graft, branches, Tree.edit, put]
    | false =>
      have same := walked.untouched touched
      rw [branches, List.cons.injEq] at same
      rw [same.1]
      rfl
  have stays : Grafted t t.sheet (t.passed v).branches { t with sheet := (t.unsettled v).sheet } := by
    have up : t.parent? t.root = none := by rw [Tree.parent?, h.ancestors_root]; rfl
    rw [← grafted]
    split
    next =>
      have put : Grafted t t.sheet (t.passed v).branches (t.graft t.root (t.parent? t.root) (t.passed v).branches) :=
        h.graft found fun _ => t.sheet.walk_top v [] [] (.start t.size)
      rwa [up] at put
    next untouched =>
      rw [walked.untouched (by simpa using untouched)]
      exact ⟨rfl, rfl, by simp, fun x mem _ => .inl mem⟩
  refine ⟨h.regraft found walked stays, ?_⟩
  rw [Tree.walk, Tree.walkFrom, found]
  simp only [h.ancestors_root, List.head?_nil, Option.bind_none, Option.map_none, Option.getD_none,
    List.takeWhile_nil, List.reverse_nil, List.dropWhile_nil, List.tail_nil]
  rw [← Tree.passed, grafted]
  rfl

/-- What a walk left empty goes, and nothing else that a sweep would leave. -/
theorem Numbered.walk_settles (h : t.Numbered) (v : Visitor) :
    (t.unsettled v).sheet.Settles (t.walk v).tree.sheet := by
  obtain ⟨evolves, e⟩ := h.walk_eq v
  rw [e]
  exact evolves.numbered.removeEmptiedFromAll_settles _

end Tree

end AboveFold
