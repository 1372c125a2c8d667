import AboveFold.Proofs.Prune.Remains
import AboveFold.Proofs.Stylesheet.Grammatical
import Mathlib.Order.Bounds.Defs

/-!
# Custom properties that are used

Definitions that nothing uses are removed in rounds, since the value of a definition may be all that uses
another. After some rounds the definitions of the names `p` are left, for some `p`, and the style sheet is
what is left when all others are taken out at once (`Stylesheet.After`). The rounds end, and no set of
definitions that supports itself loses a member in any of them, so the definitions that are left are the
greatest such set (`Stylesheet.Grammatical.keepsUsed`).
-/

namespace AboveFold
open Branch

namespace Tree

/-- The numbers of the definitions of custom properties. -/
def definitions (t : Tree) : Set Nat := {i | ∃ b ∈ t.attached, b.definition?.isSome ∧ b.id = i}

/-- Each of the definitions `K` has a `var()` that reads its name, in what stays when all other definitions
go and what falls with them. -/
def Supports (t : Tree) (K : Set Nat) : Prop :=
  ∀ b ∈ t.attached, b.id ∈ K → ∃ name, b.definition? = some name
    ∧ ∃ l ∈ t.sheet.locate [], t.Stays (t.definitions \ K) l ∧ l.branch.varName? = some name

end Tree

namespace Stylesheet

/-- Rounds of removing unused definitions, without a bound on how many. The last one removes none. -/
inductive Rounds : Stylesheet → Nat → Stylesheet → Prop
  | last {s s' : Stylesheet} (none : s.pruneVariables s.usedVariables = (0, s')) : Rounds s 0 s'
  | next {s s' s'' : Stylesheet} {n m : Nat} (some : s.pruneVariables s.usedVariables = (n + 1, s'))
      (later : Rounds s' m s'') : Rounds s (n + 1 + m) s''

/-- What pruning unused definitions makes of a stylesheet, with the number of those it took out. -/
structure KeepsUsed (s : Stylesheet) (n : Nat) (s' : Stylesheet) : Prop where
  /-- The rounds end by themselves. -/
  rounds : Rounds s n s'
  greatest : IsGreatest {K | K ⊆ s.tree.definitions ∧ s.tree.Supports K} s'.tree.definitions
  /-- What goes are definitions and what falls with them. All other nodes stay where they were. -/
  left : (s'.tree.sheet.locate []).map Located.path
    = (s.tree.staying (s.tree.definitions \ s'.tree.definitions) (s.tree.sheet.locate [])).map Located.path
  count : n = (s.tree.attached.filter fun b => b.definition?.isSome && !s'.tree.isAttached b.id).length
  others : ∀ b ∈ s.tree.attached, b.kind.isDeclaration = true → b.definition? = none → s'.tree.isAttached b.id = true

end Stylesheet

/-! ## The mark of a round -/

namespace Mark

/-- Marks the definitions of names other than `p`. -/
def undefined (p : String → Bool) : Mark :=
  .among Node.Kind.isDeclaration fun b => b.definition?.any (!p ·)

variable {p q : String → Bool} {above : List Node.Kind} {b : Branch} {l : Located}

theorem regular_undefined (p : String → Bool) : (undefined p).Regular :=
  regular_declarations <| steady_of_kind _ fun k => (k.property?.filter (·.startsWith "--")).any (!p ·)

theorem isDeclaration_of_definition {name : String} (h : b.definition? = some name) : b.kind.isDeclaration = true := by
  unfold Branch.definition? at h
  cases k : b.kind <;> rw [k] at h <;> first | rfl | cases h

/-- What is marked are definitions. -/
theorem undefined_eq_true : undefined p above b = true ↔ ∃ name, b.definition? = some name ∧ p name = false := by
  cases h : b.definition? with
  | none => simp [undefined, among, h]
  | some name => simp [undefined, among, h, isDeclaration_of_definition h]

theorem isMarked_undefined (p : String → Bool) (l : Located) :
    l.isMarked (.undefined p) = l.branch.definition?.any (!p ·) := by
  rw [Bool.eq_iff_iff, Located.isMarked, undefined_eq_true, Option.any_eq_true]
  simp

/-- The definitions that two rounds mark are those of the first and those of the second that are left. -/
theorem countP_undefined_and (p q : String → Bool) (places : List Located) :
    places.countP (Located.isMarked (.undefined fun name => p name && q name))
      = places.countP (Located.isMarked (.undefined p))
        + places.countP fun l => l.branch.definition?.any fun name => p name && !q name := by
  induction places with
  | nil => rfl
  | cons l places ih =>
    simp only [List.countP_cons, isMarked_undefined, ih]
    cases l.branch.definition? with
    | none => rfl
    | some name =>
      by_cases hp : p name <;> by_cases hq : q name <;> simp [hp, hq] <;> omega

theorem undefined_or (p q : String → Bool) :
    (undefined p).or (undefined q) = undefined fun name => p name && q name := by
  funext above b
  cases h : b.definition? with
  | none => simp [Mark.or, undefined, among, h]
  | some name =>
    simp [Mark.or, undefined, among, h, isDeclaration_of_definition h]

theorem undefined_true : (undefined fun _ => true) = never := by
  funext above b
  cases h : b.definition? <;> simp [undefined, among, h, never]

theorem closed_undefined (p : String → Bool) (above : List Node.Kind) (b : Branch)
    (marked : undefined p above b = true) : b.kind.isDeclaration = true ∨ b.kind.isSelector = true := by
  obtain ⟨name, definition, -⟩ := undefined_eq_true.1 marked
  exact .inl (isDeclaration_of_definition definition)

end Mark

/-! ## What reads a name -/

namespace Branch

variable {μ : Mark} {above : List Node.Kind} {b : Branch}

theorem definition?_rest (μ : Mark) (above : List Node.Kind) (b : Branch) :
    (rest μ above b).definition? = b.definition? := rfl

/-- What a `var()` reads does not go. -/
theorem varName?_rest (solid : μ.Solid) (nested : b.Nested) : (rest μ above b).varName? = b.varName? := by
  unfold varName?
  rw [kind_rest]
  cases k : b.kind with
  | function name =>
    have stays : ∀ c ∈ b.children, (!goes μ (b.kind :: above) c) = true := by
      intro c mem
      have plain : c.kind.isPlain = true :=
        nested.isPlain (by rw [k]; rfl) c (mem_preorder.2 (.inr (mem_preorderAll_of_mem mem)))
      have other : c.kind.isRule = false ∧ c.kind.isAtRule = false := by
        cases k : c.kind <;> rw [k] at plain <;> first | exact ⟨rfl, rfl⟩ | cases plain
      rw [goes_eq_mark other, solid.eq_false_of_isPlain plain]
      rfl
    have children : (rest μ above b).children = b.children.map (rest μ (b.kind :: above)) := by
      rw [children_rest solid nested, List.filter_eq_self.2 stays]
    simp only [children, List.find?_map, Function.comp_def, kind_rest]
    split
    next => cases b.children.find? (fun c => !c.kind.isTrivia) <;> rfl
    next => rfl
  | _ => rfl

end Branch

namespace Stylesheet

variable {s s' s'' : Stylesheet} {p q : String → Bool} {n m : Nat} {b : Branch} {l : Located}

theorem mem_usedVariables {name : String} :
    name ∈ s.usedVariables ↔ ∃ l ∈ s.tree.sheet.locate [], l.branch.varName? = some name := by
  rw [usedVariables, List.mem_eraseDups, List.mem_filterMap, Tree.attached, ← locate_branch []]
  simp only [List.mem_map, exists_exists_and_eq_and]

theorem Grammatical.takesOut_undefined (h : s.Grammatical) (full : ∀ b ∈ s.tree.attached, b.isEmptied = false)
    (p : String → Bool) :
    s.tree.TakesOut (.undefined p) (s.tree.walk (Prune.declarations fun b => b.definition?.any (!p ·))) := by
  have root := h.rooted.root
  have solid := (Mark.regular_undefined p).solid
  have steady : Mark.Steady Node.Kind.isDeclaration fun b => b.definition?.any (!p ·) :=
    Mark.steady_of_kind _ fun k => (k.property?.filter (·.startsWith "--")).any (!p ·)
  exact h.rooted.numbered.takesOut h.inOrder.nested full solid root (solid.lone (Mark.closed_undefined p))
    (Prune.declarations_obeys steady) (Visitor.removes_declarations _) (by simp only [Prune.declarations, root]) trivial

/-- In a tree that keeps to the grammar a declaration stays if it is not chosen itself. -/
theorem Grammatical.stays_of_isDeclaration (h : s.Grammatical) (full : ∀ b ∈ s.tree.attached, b.isEmptied = false)
    {chosen : Set Nat} (declarations : ∀ b ∈ s.tree.attached, b.id ∈ chosen → b.kind.isDeclaration = true)
    (place : l ∈ s.tree.sheet.locate []) (declaration : l.branch.kind.isDeclaration = true)
    (spared : l.branch.id ∉ chosen) : s.tree.Stays chosen l := by
  have numbered := h.rooted.numbered
  have loosens : s.tree.Loosens chosen := fun b here mem => .inl (declarations b here mem)
  have stands : ¬ s.tree.Falls chosen l.branch.id := by
    refine numbered.not_falls (Tree.mem_attached_of_place place) spared ?_
    cases k : l.branch.kind <;> rw [k] at declaration <;> first | exact ⟨rfl, rfl⟩ | cases declaration
  refine numbered.stays_of_not_falls h.rooted.root h.formed loosens place
    (by rw [Node.Kind.isStatement, declaration, Bool.or_true]) stands fun p hp _ rule => ?_
  obtain ⟨c, mem⟩ := exists_selector rule (full _ (Tree.mem_attached_of_place hp))
  obtain ⟨list, -, placed, selector⟩ := Tree.exists_place_selector h.inOrder.nested hp mem
  have here := Tree.mem_attached_of_place placed
  refine ⟨c, mem, numbered.not_falls here (fun chosen => ?_) ?_⟩
  · have declaration := declarations c here chosen
    cases k : c.kind <;> simp_all [Node.Kind.isSelector, Node.Kind.isDeclaration]
  · cases k : c.kind <;> rw [k] at selector <;> first | exact ⟨rfl, rfl⟩ | cases selector

/-! ## Rounds -/

/-- A stylesheet after `n` definitions went: those of names other than `p`, with what fell with them. -/
structure After (s : Stylesheet) (p : String → Bool) (n : Nat) (s' : Stylesheet) : Prop where
  grammatical : s'.Grammatical
  full : ∀ b ∈ s'.tree.attached, b.isEmptied = false
  sheet : s'.tree.sheet = rest (.undefined p) [] s.tree.sheet
  count : n = (s.tree.sheet.locate []).countP (Located.isMarked (.undefined p))
  /-- What supports itself is still there. -/
  supported : ∀ K ⊆ s.tree.definitions, s.tree.Supports K → ∀ b ∈ s.tree.attached, b.id ∈ K →
    ∀ name, b.definition? = some name → p name = true

theorem Grammatical.after (h : s.Grammatical) (full : ∀ b ∈ s.tree.attached, b.isEmptied = false) :
    After s (fun _ => true) 0 s where
  grammatical := h
  full := full
  sheet := by rw [Mark.undefined_true, rest_never full]
  count := by
    rw [Mark.undefined_true]
    exact (List.countP_eq_zero.2 fun l _ => Bool.false_ne_true).symm
  supported := fun _ _ _ _ _ _ _ _ => rfl

/-- The places that stay are left in a stylesheet after some rounds. -/
theorem After.left (after : After s p n s') (h : s.Grammatical) (full : ∀ b ∈ s.tree.attached, b.isEmptied = false) :
    List.Forall₂ (Tree.Left (.undefined p)) (s.tree.staying (s.tree.taken (.undefined p)) (s.tree.sheet.locate []))
      (s'.tree.sheet.locate []) := by
  rw [after.sheet]
  exact h.rooted.numbered.left h.inOrder.nested full (Mark.regular_undefined p).solid h.rooted.root

theorem Grammatical.mem_taken_undefined (h : s.Grammatical) (attached : b ∈ s.tree.attached) :
    b.id ∈ s.tree.taken (.undefined p) ↔ ∃ name, b.definition? = some name ∧ p name = false := by
  obtain ⟨l, place, rfl⟩ := Tree.exists_place attached
  rw [h.rooted.numbered.mem_taken place, Mark.undefined_eq_true]

theorem After.exists_left (after : After s p n s') (h : s.Grammatical)
    (full : ∀ b ∈ s.tree.attached, b.isEmptied = false) (place : l ∈ s.tree.sheet.locate [])
    (stays : s.tree.Stays (s.tree.taken (.undefined p)) l) :
    ∃ l' ∈ s'.tree.sheet.locate [], Tree.Left (.undefined p) l l' :=
  exists_of_forall₂ (after.left h full) (Tree.mem_staying.2 ⟨place, stays⟩)

theorem After.exists_before (after : After s p n s') (h : s.Grammatical)
    (full : ∀ b ∈ s.tree.attached, b.isEmptied = false) {l' : Located} (place : l' ∈ s'.tree.sheet.locate []) :
    ∃ l ∈ s.tree.sheet.locate [], s.tree.Stays (s.tree.taken (.undefined p)) l ∧ Tree.Left (.undefined p) l l' := by
  obtain ⟨l, mem, left⟩ := exists_of_forall₂ (after.left h full).flip place
  obtain ⟨here, stays⟩ := Tree.mem_staying.1 mem
  exact ⟨l, here, stays, left⟩

/-- What is used after some rounds is what the places that stay use. -/
theorem After.mem_usedVariables (after : After s p n s') (h : s.Grammatical)
    (full : ∀ b ∈ s.tree.attached, b.isEmptied = false) {name : String} :
    name ∈ s'.usedVariables ↔ ∃ l ∈ s.tree.sheet.locate [], s.tree.Stays (s.tree.taken (.undefined p)) l
      ∧ l.branch.varName? = some name := by
  have same {l l' : Located} (place : l ∈ s.tree.sheet.locate []) (left : Tree.Left (.undefined p) l l') :
      l'.branch.varName? = l.branch.varName? := by
    rw [left.branch]
    exact varName?_rest (Mark.regular_undefined p).solid (h.inOrder.nested.inside (Tree.mem_attached_of_place place))
  rw [Stylesheet.mem_usedVariables]
  constructor
  · rintro ⟨l', place', e⟩
    obtain ⟨l, place, stays, left⟩ := after.exists_before h full place'
    exact ⟨l, place, stays, (same place left).symm.trans e⟩
  · rintro ⟨l, place, stays, e⟩
    obtain ⟨l', place', left⟩ := after.exists_left h full place stays
    exact ⟨l', place', (same place left).trans e⟩

/-- The declarations that stay are those that were not taken out themselves. -/
theorem Grammatical.stays_undefined_iff (h : s.Grammatical) (full : ∀ b ∈ s.tree.attached, b.isEmptied = false)
    (place : l ∈ s.tree.sheet.locate []) (declaration : l.branch.kind.isDeclaration = true) :
    s.tree.Stays (s.tree.taken (.undefined p)) l ↔ ∀ name, l.branch.definition? = some name → p name = true := by
  have taken := h.mem_taken_undefined (p := p) (Tree.mem_attached_of_place place)
  have spared : l.branch.id ∉ s.tree.taken (.undefined p)
      ↔ ∀ name, l.branch.definition? = some name → p name = true := by
    simp [taken]
  rw [← spared]
  constructor
  · exact fun stays mem => stays _ (List.mem_cons_self ..) (.chosen mem)
  · refine h.stays_of_isDeclaration full (fun b attached mem => ?_) place declaration
    obtain ⟨name, e, -⟩ := h.mem_taken_undefined attached |>.1 mem
    exact Mark.isDeclaration_of_definition e

/-- What stays is attached after some rounds, and nothing else is. -/
theorem After.isAttached_iff (after : After s p n s') (h : s.Grammatical)
    (full : ∀ b ∈ s.tree.attached, b.isEmptied = false) (place : l ∈ s.tree.sheet.locate []) :
    s'.tree.isAttached l.branch.id = true ↔ s.tree.Stays (s.tree.taken (.undefined p)) l := by
  have same {l l' : Located} (left : Tree.Left (.undefined p) l l') : l'.branch.id = l.branch.id := by
    rw [left.branch, id_rest]
  rw [Tree.isAttached_iff]
  constructor
  · intro mem
    obtain ⟨b, attached, e⟩ := List.mem_map.1 mem
    obtain ⟨l', place', rfl⟩ := Tree.exists_place attached
    obtain ⟨l₀, place₀, stays, left⟩ := after.exists_before h full place'
    obtain rfl := h.rooted.numbered.place_unique place₀ place ((same left).symm.trans e)
    exact stays
  · intro stays
    obtain ⟨l', place', left⟩ := after.exists_left h full place stays
    exact same left ▸ List.mem_map_of_mem (Tree.mem_attached_of_place place')

/-- After some rounds the definitions of the names `p` are left. -/
theorem After.mem_definitions (after : After s p n s') (h : s.Grammatical)
    (full : ∀ b ∈ s.tree.attached, b.isEmptied = false) {i : Nat} :
    i ∈ s'.tree.definitions ↔ ∃ b ∈ s.tree.attached, b.id = i ∧ ∃ name, b.definition? = some name ∧ p name = true := by
  constructor
  · rintro ⟨b', attached', defines, rfl⟩
    obtain ⟨l', place', rfl⟩ := Tree.exists_place attached'
    obtain ⟨l, place, stays, left⟩ := after.exists_before h full place'
    rw [left.branch, definition?_rest, Option.isSome_iff_exists] at defines
    obtain ⟨name, e⟩ := defines
    have kept := (h.stays_undefined_iff full place (Mark.isDeclaration_of_definition e)).1 stays name e
    exact ⟨l.branch, Tree.mem_attached_of_place place, by rw [left.branch, id_rest], name, e, kept⟩
  · rintro ⟨b, attached, rfl, name, e, kept⟩
    obtain ⟨l, place, rfl⟩ := Tree.exists_place attached
    have stays : s.tree.Stays (s.tree.taken (.undefined p)) l :=
      (h.stays_undefined_iff full place (Mark.isDeclaration_of_definition e)).2 fun name' e' =>
        Option.some.inj (e.symm.trans e') ▸ kept
    obtain ⟨l', place', left⟩ := after.exists_left h full place stays
    refine ⟨l'.branch, Tree.mem_attached_of_place place', ?_, by rw [left.branch, id_rest]⟩
    rw [left.branch, definition?_rest, e]
    rfl

/-- The definitions that went are those that were taken out. -/
theorem After.definitions_diff (after : After s p n s') (h : s.Grammatical)
    (full : ∀ b ∈ s.tree.attached, b.isEmptied = false) :
    s.tree.definitions \ s'.tree.definitions = s.tree.taken (.undefined p) := by
  ext i
  rw [Set.mem_sdiff, after.mem_definitions h full]
  constructor
  · rintro ⟨⟨b, attached, defines, rfl⟩, gone⟩
    obtain ⟨name, e⟩ := Option.isSome_iff_exists.1 defines
    refine (h.mem_taken_undefined attached).2 ⟨name, e, ?_⟩
    rw [Bool.eq_false_iff]
    exact fun kept => gone ⟨b, attached, rfl, name, e, kept⟩
  · rintro ⟨l, place, marked, rfl⟩
    obtain ⟨name, e, lost⟩ := Mark.undefined_eq_true.1 marked
    have attached := Tree.mem_attached_of_place place
    refine ⟨⟨l.branch, attached, by rw [e]; rfl, rfl⟩, ?_⟩
    rintro ⟨b, attached', same, name', e', kept⟩
    obtain rfl := h.rooted.numbered.attached_unique attached' attached same
    rw [Option.some.inj (e.symm.trans e'), kept] at lost
    cases lost

/-- What a round marks after others are definitions that were left so far. -/
theorem After.countP_undefined (after : After s p n s') (h : s.Grammatical)
    (full : ∀ b ∈ s.tree.attached, b.isEmptied = false) (q : String → Bool) :
    (s'.tree.sheet.locate []).countP (Located.isMarked (.undefined q))
      = (s.tree.sheet.locate []).countP fun l => l.branch.definition?.any fun name => p name && !q name := by
  have same : (s'.tree.sheet.locate []).map (Located.isMarked (.undefined q))
      = (s.tree.staying (s.tree.taken (.undefined p)) (s.tree.sheet.locate [])).map
        (Located.isMarked (.undefined q)) :=
    map_of_forall₂ (after.left h full) fun l _ l' left => by
      rw [Bool.eq_iff_iff, Located.isMarked, Located.isMarked, Mark.undefined_eq_true, Mark.undefined_eq_true,
        left.branch, definition?_rest]
  have counted (places : List Located) : places.countP (Located.isMarked (.undefined q))
      = (places.map (Located.isMarked (.undefined q))).countP id := by
    rw [List.countP_map]
    rfl
  classical
  rw [counted, same, ← counted, Tree.staying, List.countP_filter]
  refine List.countP_congr fun l place => ?_
  rw [Bool.and_eq_true, decide_eq_true_iff, Located.isMarked, Mark.undefined_eq_true]
  cases e : l.branch.definition? with
  | none => simp
  | some name =>
    rw [h.stays_undefined_iff full place (Mark.isDeclaration_of_definition e), e]
    simp [and_comm]

/-- The rounds so far and one more. -/
theorem After.step (after : After s p n s') (h : s.Grammatical) (full : ∀ b ∈ s.tree.attached, b.isEmptied = false)
    (round : s'.pruneVariables s'.usedVariables = (m, s'')) :
    After s (fun name => p name && s'.usedVariables.contains name) (n + m) s'' := by
  obtain ⟨sheet, full', count⟩ := after.grammatical.takesOut_undefined after.full (s'.usedVariables.contains ·)
  have outcome : s'.pruneVariables s'.usedVariables
      = ((s'.tree.walk (Prune.declarations fun b => b.definition?.any (!s'.usedVariables.contains ·))).removed,
        { s' with tree :=
          (s'.tree.walk (Prune.declarations fun b => b.definition?.any (!s'.usedVariables.contains ·))).tree }) := rfl
  have grammatical := after.grammatical.pass (.unused s'.usedVariables)
  rw [Pass.apply, round] at grammatical
  rw [outcome, Prod.mk.injEq] at round
  obtain ⟨rfl, rfl⟩ := round
  refine ⟨grammatical, full', ?_, ?_, ?_⟩
  · rw [sheet, after.sheet, rest_rest (Mark.regular_undefined p) (Mark.regular_undefined _) h.inOrder.nested,
      Mark.undefined_or]
  · rw [count, after.countP_undefined h full, after.count, Mark.countP_undefined_and]
  · intro K sub supports b attached mem name e
    have kept := after.supported K sub supports
    rw [Bool.and_eq_true]
    refine ⟨kept b attached mem name e, List.contains_iff_mem.2 ((after.mem_usedVariables h full).2 ?_)⟩
    obtain ⟨name', e', l, place, stays, reads⟩ := supports b attached mem
    refine ⟨l, place, stays.mono ?_, Option.some.inj (e.symm.trans e') ▸ reads⟩
    -- what went so far supports nothing
    rintro i ⟨l, place, marked, rfl⟩
    obtain ⟨name, e, lost⟩ := Mark.undefined_eq_true.1 marked
    have attached := Tree.mem_attached_of_place place
    refine ⟨⟨l.branch, attached, by rw [e]; rfl, rfl⟩, fun mem => ?_⟩
    rw [kept l.branch attached mem name e] at lost
    cases lost

/-- No more definitions go than there are. -/
theorem After.count_le (after : After s p n s') : n ≤ (s.tree.attached.filterMap definition?).length := by
  rw [after.count, List.length_filterMap_eq_countP, Tree.attached, ← locate_branch [], List.countP_map]
  refine List.countP_mono_left fun l _ marked => ?_
  obtain ⟨name, e, -⟩ := Mark.undefined_eq_true.1 marked
  rw [Function.comp_apply, e]
  rfl

/-- After the last round every definition that is left is used. -/
theorem Grammatical.stable (h : s.Grammatical) (full : ∀ b ∈ s.tree.attached, b.isEmptied = false)
    (last : s.pruneVariables s.usedVariables = (0, s')) :
    s' = s ∧ ∀ b ∈ s.tree.attached, ∀ name, b.definition? = some name → name ∈ s.usedVariables := by
  obtain ⟨-, -, count⟩ := h.takesOut_undefined full (s.usedVariables.contains ·)
  have none : (s.tree.sheet.locate []).countP (Located.isMarked (.undefined (s.usedVariables.contains ·))) = 0 := by
    rw [← count]
    exact congrArg Prod.fst last
  rw [List.countP_eq_zero] at none
  constructor
  · have clean : (Mark.undefined (s.usedVariables.contains ·)).Clean (([] : List Node).map Node.kind) s.tree.sheet :=
      clean_of_places fun l mem => by simpa [Located.isMarked] using none l mem
    have same := h.inOrder.run_of_clean (p := .unused s.usedVariables) trivial clean
    exact congrArg Prod.snd (last.symm.trans same)
  · intro b attached name e
    obtain ⟨l, place, rfl⟩ := Tree.exists_place attached
    have unmarked := none l place
    rw [Mark.isMarked_undefined, e] at unmarked
    simpa using unmarked

/-- The rounds end, as long as there may be one more than there are definitions. -/
theorem After.rounds (after : After s p n s') (h : s.Grammatical) (full : ∀ b ∈ s.tree.attached, b.isEmptied = false)
    (fuel : Nat) (enough : (s.tree.attached.filterMap definition?).length < fuel + n) :
    Rounds s' (pruneVariablesWithin fuel s').1 (pruneVariablesWithin fuel s').2
      ∧ ∃ p', After s p' (n + (pruneVariablesWithin fuel s').1) (pruneVariablesWithin fuel s').2
        ∧ ∀ b ∈ (pruneVariablesWithin fuel s').2.tree.attached, ∀ name, b.definition? = some name →
          name ∈ (pruneVariablesWithin fuel s').2.usedVariables := by
  induction fuel generalizing p n s' with
  | zero =>
    have := after.count_le
    omega
  | succ fuel ih =>
    unfold pruneVariablesWithin
    cases round : s'.pruneVariables s'.usedVariables with
    | mk m s'' =>
      have step := after.step h full round
      cases m with
      | zero =>
        obtain ⟨rfl, used⟩ := after.grammatical.stable after.full round
        exact ⟨.last round, _, step, used⟩
      | succ m =>
        obtain ⟨later, p', done, used⟩ := ih step (by omega)
        refine ⟨.next round later, p', ?_, used⟩
        rw [← Nat.add_assoc]
        exact done

/-- **Unused definitions go, and no others.** In a stylesheet in which nothing is empty, pruning unused custom
properties ends. The definitions that are left are the greatest set of definitions that each have a `var()`
reading their name in what stays when all other definitions go, with what falls with them. Nothing else goes,
and the count is that of the definitions that went. -/
theorem Grammatical.keepsUsed (h : s.Grammatical) (full : ∀ b ∈ s.tree.attached, b.isEmptied = false) :
    KeepsUsed s s.pruneVariablesFully.1 s.pruneVariablesFully.2 := by
  obtain ⟨rounds, p, after, used⟩ :=
    (h.after full).rounds h full ((s.tree.attached.filterMap definition?).length + 1) (by omega)
  change Rounds s s.pruneVariablesFully.1 s.pruneVariablesFully.2 at rounds
  change After s p (0 + s.pruneVariablesFully.1) s.pruneVariablesFully.2 at after
  change ∀ b ∈ s.pruneVariablesFully.2.tree.attached, ∀ name, b.definition? = some name →
    name ∈ s.pruneVariablesFully.2.usedVariables at used
  rw [Nat.zero_add] at after
  generalize s.pruneVariablesFully = r at rounds after used
  have diff := after.definitions_diff h full
  refine ⟨rounds, ⟨⟨fun i mem => ?_, ?_⟩, ?_⟩, ?_, ?_, ?_⟩
  · obtain ⟨b, attached, rfl, name, e, -⟩ := (after.mem_definitions h full).1 mem
    exact ⟨b, attached, by rw [e]; rfl, rfl⟩
  · -- the definitions that are left are used in what is left
    intro b attached mem
    obtain ⟨c, attached', same, name, e, kept⟩ := (after.mem_definitions h full).1 mem
    obtain rfl := h.rooted.numbered.attached_unique attached' attached same
    obtain ⟨l, place, rfl⟩ := Tree.exists_place attached
    have stays : s.tree.Stays (s.tree.taken (.undefined p)) l :=
      (h.stays_undefined_iff full place (Mark.isDeclaration_of_definition e)).2 fun name' e' =>
        Option.some.inj (e.symm.trans e') ▸ kept
    obtain ⟨l', place', left⟩ := after.exists_left h full place stays
    have defines : l'.branch.definition? = some name := by rw [left.branch, definition?_rest, e]
    rw [diff]
    exact ⟨name, e, (after.mem_usedVariables h full).1 (used _ (Tree.mem_attached_of_place place') name defines)⟩
  · -- what supports itself is left
    rintro K ⟨sub, supports⟩ i mem
    obtain ⟨b, attached, defines, rfl⟩ := sub mem
    obtain ⟨name, e⟩ := Option.isSome_iff_exists.1 defines
    have supported := after.supported K sub supports b attached mem name e
    exact (after.mem_definitions h full).2 ⟨b, attached, rfl, name, e, supported⟩
  · rw [diff]
    exact Tree.map_path_of_left (after.left h full)
  · rw [after.count, ← List.countP_eq_length_filter, Tree.attached, ← locate_branch [], List.countP_map]
    refine List.countP_congr fun l place => ?_
    have attached := after.isAttached_iff h full place
    rw [Mark.isMarked_undefined, Function.comp_apply]
    cases e : l.branch.definition? with
    | none => simp
    | some name =>
      rw [h.stays_undefined_iff full place (Mark.isDeclaration_of_definition e), e] at attached
      simp only [Option.some.injEq, forall_eq'] at attached
      simp [Bool.eq_iff_iff.2 attached]
  · intro b attached declaration other
    obtain ⟨l, place, rfl⟩ := Tree.exists_place attached
    refine (after.isAttached_iff h full place).2 ((h.stays_undefined_iff full place declaration).2 fun name e => ?_)
    rw [other] at e
    cases e

/-- Of two definitions that use each other and are used from without, one that nothing uses and one that only
this uses, the last two go, in two rounds, and their rules with them. -/
theorem Grammatical.keepsUsed_chain :
    let s := parse ":root\x7b--a:var(--b);--b:var(--a)\x7db\x7b--c:1\x7dd\x7b--d:var(--c)\x7dx\x7by:var(--a)\x7d" none
    s.Grammatical ∧ (∀ b ∈ s.tree.attached, b.isEmptied = false)
      ∧ KeepsUsed s s.pruneVariablesFully.1 s.pruneVariablesFully.2
      ∧ s.pruneVariablesFully.1 = 2
      ∧ s.pruneVariablesFully.2.render = ":root\x7b--a:var(--b);--b:var(--a)\x7dx\x7by:var(--a)\x7d" := by
  intro s
  have full : ∀ b ∈ s.tree.attached, b.isEmptied = false := by decide +kernel
  have ok : s.Grammatical := grammatical_parse _ none
  exact ⟨ok, full, ok.keepsUsed full, by decide +kernel, by decide +kernel⟩

end Stylesheet

end AboveFold
