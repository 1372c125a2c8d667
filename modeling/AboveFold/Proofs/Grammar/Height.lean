import AboveFold.Proofs.Grammar.Balance
import AboveFold.Proofs.Grammar.Shape

/-!
# How high trees grow

The height of a node is the number of links from it down to the lowest node below it. What is read where brackets may
nest `n` deeper is a component value of height `n` at most (`components_height`), or an entry of height `2 * n + 3` at
most (`entries_height`): each bracket adds a group to a value, and a rule and its block to a stylesheet.
-/

namespace AboveFold.Parsed
open Source Node

mutual

/-- The number of links from the top of a tree down to its lowest node. -/
def height : Parsed → Nat
  | node _ _ ps => heightAll ps

/-- The number of links from a node with the given children down to the lowest node below it. -/
def heightAll : List Parsed → Nat
  | [] => 0
  | p :: ps => max (p.height + 1) (heightAll ps)

end

variable {k : Node.Kind} {span : ByteSpan} {ps atoms group : List Parsed} {n m : Nat}

theorem height_node_le (all : ∀ p ∈ ps, p.height ≤ n) : (node k span ps).height ≤ n + 1 := by
  rw [height]
  induction ps with
  | nil => exact Nat.zero_le _
  | cons p ps ih =>
    rw [List.forall_mem_cons] at all
    rw [heightAll]
    exact Nat.max_le.2 ⟨Nat.succ_le_succ all.1, ih all.2⟩

/-- A node over the values of a group between commas. -/
theorem height_over_group (all : ∀ p ∈ atoms, p.height ≤ n) (member : group ∈ splitAtCommas atoms) :
    (node k span (trim group)).height ≤ n + 1 := by
  refine height_node_le fun p mem => all p ?_
  apply (flatten_splitAtCommas_sublist atoms).subset
  exact List.mem_flatten.2 ⟨group, member, (trim_sublist group).subset mem⟩

end AboveFold.Parsed

namespace AboveFold.Grammar
open Source Node Parsed

variable {inp : Input} {st st' : State} {t : Token} {ts : List Token} {fuel n : Nat} {place : Place} {p : Parsed}
  {atoms : List Parsed}

/-! ## Component values -/

theorem groupNode_height (g : Group) (span : ByteSpan) {children : List Parsed}
    (all : ∀ p ∈ children, p.height ≤ n) : (groupNode g span children).1.height ≤ n + 1 := by
  unfold groupNode
  repeat' split
  all_goals first | exact Nat.zero_le _ | exact height_node_le all

/-- How high what `component` and `componentList` read with the given fuel can be. -/
structure ComponentsHeight (inp : Input) (fuel : Nat) : Prop where
  one : ∀ st, (component inp fuel st).1.height ≤ maxDepth - st.depth
  many : ∀ stop st, ∀ p ∈ (componentList inp stop fuel st).1, p.height ≤ maxDepth - st.depth

theorem ComponentsHeight.component_succ (ih : ComponentsHeight inp fuel) (st : State) :
    (component inp (fuel + 1) st).1.height ≤ maxDepth - st.depth := by
  rw [component.eq_def]
  split
  next => exact Nat.zero_le _
  next => exact Nat.zero_le _
  next fuel' t _ same _ =>
    obtain rfl := Nat.succ.inj same
    simp only
    split
    next => rw [leaf_fst]; exact Nat.zero_le _
    next g _ =>
      split
      next => exact Nat.zero_le _
      next shallow =>
        have inside := ih.many g.endsAt (st.advance.enter ⟨g.construct, t.span⟩)
        have depth : (st.advance.enter ⟨g.construct, t.span⟩).depth = st.depth + 1 :=
          congrArg (· + 1) (sameLevel_advance st).depth
        rw [depth] at inside
        rw [(sameLevel_advance st).depth] at shallow
        exact Nat.le_trans (groupNode_height g _ inside) (by omega)

theorem componentsHeight (inp : Input) (fuel : Nat) : ComponentsHeight inp fuel := by
  induction fuel with
  | zero =>
    refine ⟨fun st => ?_, fun stop st => ?_⟩
    · rw [component.eq_def]
      exact Nat.zero_le _
    · rw [componentList.eq_def]
      simp
  | succ fuel ih =>
    refine ⟨ih.component_succ, fun stop st => ?_⟩
    rw [componentList.eq_def]
    simp only
    split
    next => simp
    next =>
      have later := ih.many stop (component inp fuel st).2
      rw [((componentsLevel inp fuel).1 st).depth] at later
      rw [List.forall_mem_cons]
      exact ⟨ih.one st, later⟩

/-- **A component value is no higher than brackets may still nest** where it is read. -/
theorem components_height (inp : Input) (stop : Token.Kind → Bool) (level : SameLevel st st') :
    ∀ p ∈ (components inp stop st').1, p.height ≤ maxDepth - st.depth :=
  level.depth ▸ (componentsHeight inp _).many stop st'

/-! ## Heads of entries -/

theorem rawNode_height (inp : Input) (start stop : Nat) : (rawNode inp start stop).height = 0 := rfl

theorem preludeOf_height (inp : Input) (name : String) (all : ∀ p ∈ atoms, p.height ≤ n) :
    ∀ p ∈ (preludeOf inp name atoms).1, p.height ≤ n + 2 := by
  have kept : ∀ p ∈ trim atoms, p.height ≤ n := fun p mem => all p ((trim_sublist atoms).subset mem)
  unfold preludeOf
  simp only
  split
  next => simp
  next =>
    split
    all_goals rw [List.forall_mem_singleton]
    next =>
      refine height_node_le fun p mem => ?_
      obtain ⟨group, member, picked⟩ := List.mem_filterMap.1 mem
      obtain ⟨span, -, rfl⟩ := Option.map_eq_some_iff.1 picked
      exact height_over_group kept member
    next => exact Nat.le_succ_of_le (height_node_le kept)

theorem selectorListOf_height (start : Nat) (st : State) (all : ∀ p ∈ atoms, p.height ≤ n) :
    (selectorListOf inp start atoms st).1.height ≤ n + 2 := by
  unfold selectorListOf
  simp only [selectors_fst]
  refine height_node_le fun p mem => ?_
  obtain ⟨group, member, picked⟩ := List.mem_filterMap.1 mem
  obtain ⟨span, -, rfl⟩ := selectorOf?_eq_some picked
  exact height_over_group all member

theorem declarationOf_height (property : String) (start colonEnd : Nat) (st : State)
    (all : ∀ p ∈ atoms, p.height ≤ n) : (declarationOf inp property start colonEnd atoms st).1.height ≤ n + 2 := by
  obtain ⟨important, kept, dropped, keeps, -, -, eq⟩ := declarationOf_eq inp property start colonEnd atoms st
  rw [eq]
  simp only
  split
  next => exact Nat.zero_le _
  next =>
    refine height_node_le (n := n + 1) ?_
    rw [List.forall_mem_singleton]
    exact height_node_le fun p mem => all p ((trim_sublist atoms).subset (keeps.subset mem))

theorem declaration_height (inp : Input) (t : Token) (property : String) (st : State) :
    (declaration inp t property st).1.height ≤ maxDepth - st.depth + 2 := by
  have level := (sameLevel_advance st).trans (sameLevel_skipTrivia _)
  unfold declaration
  simp only
  split
  next => exact declarationOf_height _ _ _ _ (components_height inp _ (level.trans (sameLevel_advance _)))
  next => exact Nat.zero_le _

theorem ruleHead_height (inp : Input) (place : Place) (st : State) :
    match (ruleHead inp place st).1 with
    | .raw p => p.height = 0
    | .block list _ => list.height ≤ maxDepth - st.depth + 2 := by
  unfold ruleHead
  simp only
  cases (components inp (endsSelectors place) st).2.nextKind with
  | curlyOpen => exact selectorListOf_height _ _ (components_height inp _ (.refl st))
  | _ => rfl

theorem atRuleHead_height (inp : Input) (nameEnd : Nat) (level : SameLevel st st') :
    ∀ p ∈ (atRuleHead inp nameEnd st').1.atoms, p.height ≤ maxDepth - st.depth := by
  have all := components_height inp (fun k => k = .semicolon || k = .curlyOpen || k = .curlyClose) level
  unfold atRuleHead
  simp only
  split <;> exact all

/-! ## Entries and blocks -/

/-- How high what `entries` and `block` read with the given fuel can be. -/
structure EntriesHeight (inp : Input) (fuel : Nat) : Prop where
  list : ∀ place st, ∀ p ∈ (entries inp place fuel st).1, p.height ≤ 2 * (maxDepth - st.depth) + 3
  block : ∀ contents construct st, (block inp contents construct fuel st).1.height ≤ 2 * (maxDepth - st.depth) + 2

theorem EntriesHeight.atRule (ih : EntriesHeight inp fuel) (t : Token) (name : String) (span : ByteSpan) (st : State) :
    let head := atRuleHead inp t.stop st.advance
    (Parsed.node (.atRule name) span
      ((preludeOf inp name head.1.atoms).1 ++ (atRuleBody inp name fuel head.1 head.2).1)).height
        ≤ 2 * (maxDepth - st.depth) + 3 := by
  intro head
  have level := (sameLevel_advance st).trans (atRuleHead_level inp t.stop st.advance)
  have prelude := preludeOf_height inp name (atRuleHead_height inp t.stop (sameLevel_advance st))
  refine height_node_le (n := 2 * (maxDepth - st.depth) + 2) ?_
  rw [List.forall_mem_append]
  refine ⟨fun p mem => Nat.le_trans (prelude p mem) (by omega), ?_⟩
  unfold atRuleBody
  split
  next =>
    rw [List.forall_mem_singleton]
    exact level.depth ▸ ih.block (atRuleContents name) .atRuleBlock head.2
  next => simp

theorem EntriesHeight.entry (ih : EntriesHeight inp fuel) (read : EntryRead inp place fuel st t ts p st') :
    p.height ≤ 2 * (maxDepth - st.depth) + 3 := by
  cases read with
  | comment => exact Nat.zero_le _
  | fault fault eq =>
    subst eq
    cases place <;> exact Nat.zero_le _
  | declaration property =>
    have top := declaration_height inp t property st
    omega
  | atRule name _ _ headEq bodyEq =>
    subst headEq bodyEq
    exact ih.atRule t name _ st
  | raw _ eq =>
    have head := ruleHead_height inp place st
    rw [eq] at head
    exact head ▸ Nat.zero_le _
  | @rule _ _ headed _ _ eq bodyEq =>
    subst bodyEq
    have head := ruleHead_height inp place st
    have level := ruleHead_level inp place st
    rw [eq] at head level
    have inside := ih.block .declarations .ruleBlock headed
    rw [level.depth] at inside
    refine height_node_le (n := 2 * (maxDepth - st.depth) + 2) ?_
    rw [List.forall_mem_cons, List.forall_mem_singleton]
    exact ⟨Nat.le_trans head (by omega), inside⟩

theorem EntriesHeight.entries_succ (ih : EntriesHeight inp fuel) (place : Place) (st : State) :
    ∀ p ∈ (entries inp place (fuel + 1) st).1, p.height ≤ 2 * (maxDepth - st.depth) + 3 := by
  cases e : st.rest with
  | nil =>
    rw [entries_nil inp place _ e]
    simp
  | cons t ts =>
    have step := sameLevel_advance st
    have later {st' : State} (level : SameLevel st st') :
        ∀ p ∈ (entries inp place fuel st').1, p.height ≤ 2 * (maxDepth - st.depth) + 3 :=
      level.depth ▸ ih.list place st'
    cases entries_step inp place fuel e with
    | finish _ eq =>
      rw [eq]
      simp
    | separator _ eq => exact eq ▸ later step
    | strayBrace _ eq => exact eq ▸ later (step.trans (sameLevel_report _ _))
    | entry read eq =>
      rw [eq, List.forall_mem_cons]
      exact ⟨ih.entry read, later read.level⟩

theorem EntriesHeight.block_succ (ih : EntriesHeight inp fuel) (contents : Contents) (construct : Diagnostic.Construct)
    (st : State) : (Grammar.block inp contents construct (fuel + 1) st).1.height ≤ 2 * (maxDepth - st.depth) + 2 := by
  rw [Grammar.block.eq_def]
  split
  next => exact Nat.zero_le _
  next => exact Nat.zero_le _
  next fuel' t _ same _ =>
    obtain rfl := Nat.succ.inj same
    simp only
    split
    next =>
      refine Nat.le_trans (height_node_le (n := 0) ?_) (by omega)
      simp [rawNode_height]
    next shallow =>
      have inside := ih.list (.ofContents contents) (st.advance.enter ⟨construct, t.span⟩)
      have depth : (st.advance.enter ⟨construct, t.span⟩).depth = st.depth + 1 :=
        congrArg (· + 1) (sameLevel_advance st).depth
      rw [depth] at inside
      rw [(sameLevel_advance st).depth] at shallow
      exact Nat.le_trans (height_node_le inside) (by omega)

theorem entriesHeight (inp : Input) (fuel : Nat) : EntriesHeight inp fuel := by
  induction fuel with
  | zero =>
    refine ⟨fun place st => ?_, fun contents construct st => ?_⟩
    · rw [entries.eq_def]
      simp
    · rw [Grammar.block.eq_def]
      exact Nat.zero_le _
  | succ fuel ih => exact ⟨ih.entries_succ, ih.block_succ⟩

/-- **What is read is not high**: the lowest node is 260 links below the root at most. -/
theorem Input.read_height (inp : Input) (tokens : List Token) : (inp.read tokens).sheet.height ≤ 2 * maxDepth + 4 :=
  height_node_le ((entriesHeight inp _).list .topLevel (.start tokens))

end AboveFold.Grammar
