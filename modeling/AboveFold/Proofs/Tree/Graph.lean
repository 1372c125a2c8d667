import AboveFold.Proofs.Tree.Cascade
import AboveFold.Proofs.Tree.WellFormed
import Mathlib.Data.List.Find

/-!
# Trees by their numbers

What a cascade decides depends on kinds and child lists alone, so it can be told by the numbers of nodes.
Detaching a node takes its number out of all child lists and keeps the kinds; if it was an empty rule, then
a sweep would take out the same nodes as before.
-/

namespace AboveFold
open Branch

/-- The nodes that belong to the rule or at-rule they stand in. -/
def Node.Kind.isPart : Node.Kind → Bool
  | selectorList | block _ | prelude => true
  | _ => false

namespace Branch

variable {b b' x x' : Branch} {p i : Nat} {f : Branch → Branch}

/-- What stands in a branch after an edit is as it was, or was edited somewhere below, or the edit put it there. -/
theorem edit_some_cases (e : edit p f b = some b') : ∀ x' ∈ b'.preorder, x' ∈ b.preorder
    ∨ (∃ x ∈ b.preorder, edit p f x = some x') ∨ ∃ x ∈ b.preorder, x.id = p ∧ x' ∈ preorderAll (f x).children := by
  induction b using induct generalizing b' with
  | mk n cs ih =>
    intro x' mem
    rcases mem_preorder.1 mem with rfl | below
    · exact .inr (.inl ⟨_, self_mem_preorder _, e⟩)
    · rw [edit] at e
      split at e
      next top =>
        obtain rfl := Option.some.inj e
        exact .inr (.inr ⟨_, self_mem_preorder _, top, below⟩)
      next =>
        obtain ⟨cs', inside, rfl⟩ := Option.map_eq_some_iff.1 e
        obtain ⟨l, c, c', r, rfl, rfl, edited⟩ := editAll_eq_some inside
        simp only [children_mk, preorderAll_append, preorderAll_cons, List.mem_append] at below
        have here {d : Branch} (mem : d ∈ l ++ c :: r) (inside : x' ∈ d.preorder) :
            x' ∈ (mk n (l ++ c :: r)).preorder :=
          mem_preorder_of_child mem inside
        rcases below with left | below | right
        · obtain ⟨d, hd, inside⟩ := mem_preorderAll.1 left
          exact .inl (here (by simp [hd]) inside)
        · rcases ih c (by simp) edited x' below with inside | ⟨x, inside, e⟩ | ⟨x, inside, e⟩
          · exact .inl (here (by simp) inside)
          · exact .inr (.inl ⟨x, mem_preorder_of_child (by simp) inside, e⟩)
          · exact .inr (.inr ⟨x, mem_preorder_of_child (by simp) inside, e⟩)
        · obtain ⟨d, hd, inside⟩ := mem_preorderAll.1 right
          exact .inl (here (by simp [hd]) inside)

/-- An edit that keeps the top of what it is applied to. -/
def KeepsTop (f : Branch → Branch) : Prop := ∀ x, (f x).id = x.id ∧ (f x).kind = x.kind

theorem keepsTop_without (i : Nat) : KeepsTop (without i) := by
  intro x
  cases x
  exact ⟨rfl, rfl⟩

theorem keepsTop_including (index : Nat) (b : Branch) : KeepsTop (including index b) := by
  intro x
  cases x
  exact ⟨rfl, rfl⟩

theorem KeepsTop.edit (kept : KeepsTop f) (e : edit p f x = some x') : x'.id = x.id ∧ x'.kind = x.kind := by
  obtain ⟨n, cs⟩ := x
  rw [Branch.edit] at e
  split at e
  next =>
    obtain rfl := Option.some.inj e
    exact kept _
  next =>
    obtain ⟨cs', -, rfl⟩ := Option.map_eq_some_iff.1 e
    exact ⟨rfl, rfl⟩

/-- An edit changes the numbers of the children only where it is applied. -/
theorem KeepsTop.edit_children (kept : KeepsTop f) (e : Branch.edit p f x = some x') :
    x'.children.map Branch.id = x.children.map Branch.id ∨ x.id = p ∧ x' = f x := by
  obtain ⟨n, cs⟩ := x
  rw [Branch.edit] at e
  split at e
  next top => exact .inr ⟨top, (Option.some.inj e).symm⟩
  next =>
    obtain ⟨cs', inside, rfl⟩ := Option.map_eq_some_iff.1 e
    obtain ⟨l, c, c', r, rfl, rfl, edited⟩ := editAll_eq_some inside
    refine .inl ?_
    simp [(kept.edit edited).1]

theorem children_without (i : Nat) (x : Branch) : (without i x).children ⊆ x.children
    ∧ (without i x).children.map Branch.id = (x.children.map Branch.id).filter (· ≠ i) := by
  cases x with
  | mk n cs =>
    refine ⟨List.filter_sublist.subset, ?_⟩
    simp only [without, children_mk, List.filter_map]
    rfl

end Branch

namespace Tree

/-- The kind of a node. -/
def kind? (t : Tree) (id : Nat) : Option Node.Kind := (t.find? id).map Branch.kind

/-- The first child of a kind that satisfies `p`. -/
def childOf? (t : Tree) (p : Node.Kind → Bool) (id : Nat) : Option Nat :=
  (t.childrenOf id).find? fun c => (t.kind? c).any p

/-- Whether a block holds anything but comments. -/
def hasContent (t : Tree) (id : Nat) : Bool :=
  (t.childrenOf id).any fun c => !(t.kind? c).any Node.Kind.isComment

/-- Whether a node is an empty rule or at-rule. -/
def isEmptied (t : Tree) (id : Nat) : Bool :=
  match t.kind? id with
  | some .rule =>
    !((t.childOf? (· = .selectorList) id).any (fun l => !(t.childrenOf l).isEmpty)
      && (t.childOf? Node.Kind.isBlock id).any t.hasContent)
  | some (.atRule _) => (t.childOf? Node.Kind.isBlock id).any fun block => !t.hasContent block
  | _ => false

/-- Whether a node goes when its branch is swept. -/
def isHollow (t : Tree) (id : Nat) : Bool := (t.find? id).any (·.clear.kept.isEmpty)

variable {t u : Tree} {b c : Branch} {id p q : Nat}

theorem Numbered.kind?_eq (h : t.Numbered) (mem : b ∈ t.branches) : t.kind? b.id = some b.kind := by
  rw [kind?, h.find?_eq_some.2 ⟨mem, rfl⟩]
  rfl

theorem child_mem_branches (mem : b ∈ t.branches) (child : c ∈ b.children) : c ∈ t.branches :=
  children_subset_branches mem (mem_preorderAll_of_mem child)

theorem Numbered.childOf?_eq (h : t.Numbered) (mem : b ∈ t.branches) (p : Node.Kind → Bool) :
    t.childOf? p b.id = (b.child? p).map Branch.id := by
  rw [childOf?, h.childrenOf_id mem, List.find?_map, child?]
  congr 1
  apply List.find?_congr
  intro c child
  simp [h.kind?_eq (child_mem_branches mem child)]

theorem Numbered.hasContent_eq (h : t.Numbered) (mem : b ∈ t.branches) : t.hasContent b.id = b.hasContent := by
  have same : ∀ c ∈ b.children, (!(t.kind? c.id).any Node.Kind.isComment) = !c.kind.isComment := by
    intro c child
    rw [h.kind?_eq (child_mem_branches mem child)]
    rfl
  rw [Tree.hasContent, h.childrenOf_id mem, List.any_map, Branch.hasContent, Bool.eq_iff_iff, List.any_eq_true,
    List.any_eq_true]
  exact exists_congr fun c => and_congr_right fun child => by rw [← same c child]; rfl

/-- Told by its number or by its branch, a node is empty or not. -/
theorem Numbered.isEmptied_eq (h : t.Numbered) (mem : b ∈ t.branches) : t.isEmptied b.id = b.isEmptied := by
  have block : (t.childOf? Node.Kind.isBlock b.id).any t.hasContent = b.block?.any Branch.hasContent := by
    rw [h.childOf?_eq mem, block?]
    cases found : b.child? Node.Kind.isBlock with
    | none => rfl
    | some c => exact h.hasContent_eq (child_mem_branches mem (List.mem_of_find?_eq_some found))
  have empty : (t.childOf? Node.Kind.isBlock b.id).any (fun c => !t.hasContent c)
      = b.block?.any (fun c => !c.hasContent) := by
    rw [h.childOf?_eq mem, block?]
    cases found : b.child? Node.Kind.isBlock with
    | none => rfl
    | some c => exact congrArg not (h.hasContent_eq (child_mem_branches mem (List.mem_of_find?_eq_some found)))
  have list : (t.childOf? (· = .selectorList) b.id).any (fun l => !(t.childrenOf l).isEmpty)
      = b.selectorList?.any (fun l => !l.children.isEmpty) := by
    rw [h.childOf?_eq mem, selectorList?]
    cases found : b.child? (· = .selectorList) with
    | none => rfl
    | some c =>
      rw [Option.map_some, Option.any_some, h.childrenOf_id (child_mem_branches mem (List.mem_of_find?_eq_some found))]
      simp
  rw [Tree.isEmptied, h.kind?_eq mem, Branch.isEmptied]
  cases b.kind with
  | rule => simp only [isEmptyRule, block, list]
  | atRule name => simp only [isEmptyAtRule, empty]
  | _ => rfl

theorem Numbered.isHollow_eq (h : t.Numbered) (mem : b ∈ t.branches) : t.isHollow b.id = b.clear.kept.isEmpty := by
  rw [isHollow, h.find?_eq_some.2 ⟨mem, rfl⟩]
  rfl

/-- What is empty after a change was so before, or a child list that counts for it was changed. -/
theorem isEmptied_cases {I : List Nat} (kinds : ∀ i ∈ I, u.kind? i = t.kind? i)
    (closed : ∀ i ∈ I, ∀ c ∈ u.childrenOf i, c ∈ I) (mem : id ∈ I) (emptied : u.isEmptied id = true) :
    t.isEmptied id = true ∨ u.childrenOf id ≠ t.childrenOf id
      ∨ ∃ c ∈ u.childrenOf id, (u.kind? c).any Node.Kind.isPart = true ∧ u.childrenOf c ≠ t.childrenOf c := by
  refine Classical.byContradiction fun none => ?_
  simp only [not_or, not_exists, not_and, Classical.not_not] at none
  obtain ⟨full, same, parts⟩ := none
  have first (p : Node.Kind → Bool) : u.childOf? p id = t.childOf? p id := by
    rw [childOf?, childOf?, ← same]
    apply List.find?_congr
    intro c child
    rw [kinds c (closed id mem c child)]
  have inside {p : Node.Kind → Bool} {c : Nat} (part : ∀ k, p k = true → k.isPart = true)
      (found : u.childOf? p id = some c) : c ∈ I ∧ u.childrenOf c = t.childrenOf c := by
    have child := List.mem_of_find?_eq_some found
    have kind := List.find?_some found
    refine ⟨closed id mem c child, parts c child ?_⟩
    rw [Option.any_eq_true] at kind ⊢
    exact kind.imp fun k h => ⟨h.1, part k h.2⟩
  have content {c : Nat} (found : u.childOf? Node.Kind.isBlock id = some c) : u.hasContent c = t.hasContent c := by
    obtain ⟨hc, same⟩ := inside (fun k block => by cases k <;> first | rfl | cases block) found
    rw [hasContent, hasContent, ← same, Bool.eq_iff_iff, List.any_eq_true, List.any_eq_true]
    exact exists_congr fun d => and_congr_right fun child => by rw [kinds d (closed c hc d child)]
  have blocks : (u.childOf? Node.Kind.isBlock id).any u.hasContent
      = (u.childOf? Node.Kind.isBlock id).any t.hasContent := by
    cases found : u.childOf? Node.Kind.isBlock id with
    | none => rfl
    | some c => exact content found
  have empty : (u.childOf? Node.Kind.isBlock id).any (fun c => !u.hasContent c)
      = (u.childOf? Node.Kind.isBlock id).any (fun c => !t.hasContent c) := by
    cases found : u.childOf? Node.Kind.isBlock id with
    | none => rfl
    | some c => exact congrArg not (content found)
  have lists : (u.childOf? (· = .selectorList) id).any (fun l => !(u.childrenOf l).isEmpty)
      = (u.childOf? (· = .selectorList) id).any (fun l => !(t.childrenOf l).isEmpty) := by
    cases found : u.childOf? (· = .selectorList) id with
    | none => rfl
    | some l => rw [Option.any_some, Option.any_some, (inside (fun k list => by simp_all [Node.Kind.isPart]) found).2]
  apply full
  rw [← emptied, Tree.isEmptied, Tree.isEmptied, kinds id mem, blocks, empty, lists, first, first]

/-! ## Detaching -/

/-- A tree in which a node was detached. -/
structure Loses (t : Tree) (id : Nat) (u : Tree) : Prop where
  numbered : u.Numbered
  root : u.root = t.root
  kind? : ∀ q, u.kind? q = t.kind? q
  childrenOf : ∀ q, u.childrenOf q = (t.childrenOf q).filter (· ≠ id)

/-- The links upwards after a node was detached. -/
theorem Loses.parent? (h : t.Loses id u) (numbered : t.Numbered) (q : Nat) :
    (u.parent? q).map Node.id = if q = id then none else (t.parent? q).map Node.id := by
  have link (p : Nat) : (u.parent? q).map Node.id = some p ↔ (t.parent? q).map Node.id = some p ∧ q ≠ id := by
    rw [← h.numbered.linked, ← numbered.linked, h.childrenOf, List.mem_filter]
    simp
  apply Option.ext
  intro p
  rw [link p]
  split <;> simp_all

/-- An edit changes one branch of the tree. -/
theorem forest_edit (t : Tree) (id : Nat) (f : Branch → Branch) :
    (t.edit id f).forest = (Branch.editAll id f t.forest).getD t.forest := by
  rw [Tree.edit, forest, forest, Branch.editAll]
  cases Branch.edit id f t.sheet with
  | some sheet => rfl
  | none => cases Branch.editAll id f t.loose <;> rfl

theorem mem_edit {x' : Branch} {f : Branch → Branch} (mem : x' ∈ (t.edit p f).branches) : x' ∈ t.branches
    ∨ (∃ x ∈ t.branches, Branch.edit p f x = some x') ∨ ∃ x ∈ t.branches, x.id = p ∧ x' ∈ preorderAll (f x).children := by
  rw [branches, forest_edit] at mem
  cases edited : Branch.editAll p f t.forest with
  | none =>
    rw [edited] at mem
    exact .inl mem
  | some bs =>
    obtain ⟨l, c, c', r, split, rfl, e⟩ := editAll_eq_some edited
    rw [edited, Option.getD_some, preorderAll_append, preorderAll_cons, List.mem_append, List.mem_append] at mem
    have inside : c.preorder ⊆ t.branches := by
      intro x hx
      simp [branches, split, hx]
    rcases mem with left | here | right
    · exact .inl (by simp [branches, split, left])
    · rcases edit_some_cases e x' here with here | ⟨x, hx, e⟩ | ⟨x, hx, e⟩
      · exact .inl (inside here)
      · exact .inr (.inl ⟨x, inside hx, e⟩)
      · exact .inr (.inr ⟨x, inside hx, e⟩)
    · exact .inl (by simp [branches, split, right])

/-- The loss of a child puts nothing anywhere. -/
theorem mem_edit_without {x' : Branch} (mem : x' ∈ (t.edit p (without q)).branches) :
    x' ∈ t.branches ∨ ∃ x ∈ t.branches, Branch.edit p (without q) x = some x' := by
  rcases mem_edit mem with mem | edited | ⟨x, hx, -, inside⟩
  · exact .inl mem
  · exact .inr edited
  · exact .inl (children_subset_branches hx (preorderAll_subset (children_without q x).1 inside))

/-- What detaching a node does to another: it may lose that child. -/
structure LosesChild (b x x' : Branch) : Prop where
  id : x'.id = x.id
  kind : x'.kind = x.kind
  children : x'.children.map Branch.id = x.children.map Branch.id
    ∨ x'.children.map Branch.id = (x.children.map Branch.id).filter (· ≠ b.id)
  hollow : b.isEmptied = true → x'.clear.kept.isEmpty = x.clear.kept.isEmpty

theorem LosesChild.refl (b x : Branch) : LosesChild b x x := ⟨rfl, rfl, .inl rfl, fun _ => rfl⟩

theorem Numbered.losesChild (h : t.Numbered) {p : Node} (up : t.parent? id = some p) (found : t.find? id = some b) :
    ∀ x' ∈ (t.detach id).2.branches, ∃ x ∈ t.branches, LosesChild b x x' := by
  obtain ⟨q, hq, rfl, child⟩ := h.exists_parent up found
  obtain ⟨mem, rfl⟩ := mem_of_find? found
  intro x' hx'
  have old : x' ∈ t.branches ∨ ∃ x ∈ t.branches, Branch.edit q.id (without b.id) x = some x' := by
    rw [detach_eq up found] at hx'
    simp only [branches, forest, preorderAll_cons, List.mem_append] at hx'
    rcases hx' with top | below | loose
    · exact mem_edit_without (mem_branches.2 (.inl top))
    · exact .inl ((preorder_sublist_preorderAll t.forest b mem).subset below)
    · exact mem_edit_without (mem_branches.2 (.inr loose))
  rcases old with old | ⟨x, hx, e⟩
  · exact ⟨x', old, .refl _ _⟩
  · obtain ⟨id, kind⟩ := (keepsTop_without b.id).edit e
    have children := ((keepsTop_without b.id).edit_children e).imp_right fun shorter =>
      shorter.2 ▸ (children_without b.id x).2
    refine ⟨x, hx, id, kind, children, fun emptied => ?_⟩
    have inside : x.preorder ⊆ t.branches := (preorder_sublist_preorderAll t.forest x hx).subset
    have sheds := Sheds.of_edit (fun q' hq' => h.sheds_without hq child emptied q' (inside hq')) e
    rw [clear_eq, clear_eq, sheds.swept]
    split <;> rfl

theorem Numbered.find?_detach (h : t.Numbered) {p : Node} (up : t.parent? id = some p) (found : t.find? id = some b)
    (q : Nat) : (t.detach id).2.find? q = none ∧ t.find? q = none
      ∨ ∃ x x', t.find? q = some x ∧ (t.detach id).2.find? q = some x' ∧ LosesChild b x x' := by
  obtain ⟨evolves, size, -⟩ := h.detach id
  cases found' : (t.detach id).2.find? q with
  | none =>
    cases found : t.find? q with
    | none => exact .inl ⟨rfl, rfl⟩
    | some x =>
      have lt := (h.wellFormed.found q).1 (by simp [found])
      have := (evolves.numbered.wellFormed.found q).2 (size ▸ lt)
      simp [found'] at this
  | some x' =>
    obtain ⟨mem, rfl⟩ := mem_of_find? found'
    obtain ⟨x, hx, child⟩ := h.losesChild up found x' mem
    exact .inr ⟨x, x', h.find?_eq_some.2 ⟨hx, child.id.symm⟩, rfl, child⟩

/-- What detaching does to a tree. -/
theorem Numbered.detach_loses (h : t.Numbered) {p : Node} (up : t.parent? id = some p) (found : t.find? id = some b) :
    t.Loses id (t.detach id).2 := by
  obtain ⟨evolves, -, -⟩ := h.detach id
  have numbered := evolves.numbered
  have both := h.find?_detach up found
  have same : b.id = id := (mem_of_find? found).2
  have top : (t.detach id).2.parent? id = none := by
    have : ⟨[], b⟩ ∈ (t.detach id).2.located := by
      refine mem_locateAll.2 ⟨b, ?_, mem_locate.2 (.inl rfl)⟩
      simp [detach_eq up found, forest]
    have := numbered.ancestors_eq this
    obtain ⟨-, rfl⟩ := mem_of_find? found
    rw [Tree.parent?, this]
    rfl
  refine ⟨numbered, evolves.root, fun q => ?_, fun q => ?_⟩
  · rcases both q with ⟨none, none'⟩ | ⟨x, x', found, found', child⟩
    · rw [Tree.kind?, Tree.kind?, none, none']
    · rw [Tree.kind?, Tree.kind?, found, found', Option.map_some, Option.map_some, child.kind]
  · rcases both q with ⟨none, none'⟩ | ⟨x, x', found, found', child⟩
    · simp [Tree.childrenOf, none, none']
    · have apart : id ∉ (t.detach id).2.childrenOf q := by
        rw [numbered.linked, top]
        simp
      rw [childrenOf_eq found'] at apart ⊢
      rw [childrenOf_eq found]
      rcases child.children with same | less
      · rw [← same, List.filter_eq_self.2]
        intro c mem
        have : c ≠ id := fun e => apart (e ▸ mem)
        simpa using this
      · rw [less, same]

/-- After an empty rule or at-rule was detached, a sweep would take out the same nodes. -/
theorem Numbered.isHollow_detach (h : t.Numbered) {p : Node} (up : t.parent? id = some p)
    (found : t.find? id = some b) (emptied : b.isEmptied = true) (q : Nat) :
    (t.detach id).2.isHollow q = t.isHollow q := by
  rcases h.find?_detach up found q with ⟨none, none'⟩ | ⟨x, x', found, found', child⟩
  · rw [Tree.isHollow, Tree.isHollow, none, none']
  · rw [Tree.isHollow, Tree.isHollow, found, found', Option.any_some, Option.any_some, child.hollow emptied]

end Tree

end AboveFold
