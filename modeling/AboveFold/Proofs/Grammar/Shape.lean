import AboveFold.Proofs.Grammar.EntrySteps
import AboveFold.Proofs.Grammar.RuleSpan

/-!
# The shape of what is read

Which kinds of node stand below which is a grammar of its own. Whatever tokens are read, and however
malformed they are, every node of the tree keeps to it: the functions that read component values, heads
of rules and blocks each have one lemma about it, and the induction goes over lists and blocks together.
-/

namespace AboveFold.Node.Kind

/-- Component values and what separates them. -/
def isComponent : Kind → Bool
  | ident _ | stringLit _ _ | url _ _ | function _ | simpleBlock _ | comma | whitespace | comment _ | other _ => true
  | _ => false

/-- What a list of rules holds. -/
def isEntry : Kind → Bool
  | rule | atRule _ | comment _ | raw _ => true
  | _ => false

/-- Whether this is a selector. -/
def isSelector : Kind → Bool
  | selector _ => true
  | _ => false

/-- The kinds of the children of a node, in order. -/
def Composes : Kind → List Kind → Prop
  | styleSheet, cs | block .rules, cs => ∀ c ∈ cs, c.isEntry
  | block .declarations, cs => ∀ c ∈ cs, c.isEntry ∨ c.isDeclaration
  | rule, cs => cs = [selectorList, block .declarations]
  | atRule name, cs => cs.Sublist [prelude, block (Grammar.atRuleContents name)]
  | selectorList, cs => ∀ c ∈ cs, c.isSelector
  | declaration _ _, cs => cs = [value]
  | prelude, cs => ∀ c ∈ cs, c.isComponent ∨ c.isMediaQuery
  | selector _, cs | mediaQuery _, cs => ∀ c ∈ cs, c.isComponent ∧ c ≠ comma
  | value, cs | function _, cs | simpleBlock _, cs => ∀ c ∈ cs, c.isComponent
  | _, cs => cs = []

/-- The children of a node, each with the kinds of its own children: those of the prelude of `@media`
are media queries, and no other prelude has any. -/
def Forms (k : Kind) (parts : List (Kind × List Kind)) : Prop :=
  k.Composes (parts.map Prod.fst)
    ∧ ∀ name, k = atRule name → ∀ p ∈ parts, p.1 = prelude →
      ∀ c ∈ p.2, c.isMediaQuery = Text.eqIgnoreCase name "media"

theorem Forms.of_composes {k : Kind} {parts : List (Kind × List Kind)} (plain : k.isAtRule = false)
    (h : k.Composes (parts.map Prod.fst)) : k.Forms parts := by
  refine ⟨h, ?_⟩
  rintro name rfl
  cases plain

end AboveFold.Node.Kind

namespace AboveFold.Parsed
open Source

/-- The kinds of the children of a node, each with the kinds of its own children. -/
def outline (p : Parsed) : List (Node.Kind × List Node.Kind) :=
  p.children.map fun c => (c.kind, c.children.map kind)

/-- A node whose children are of the right kinds. -/
def Formed (p : Parsed) : Prop := p.kind.Forms p.outline

/-- A component value, with only component values inside. -/
def IsComponent (p : Parsed) : Prop := p.kind.isComponent ∧ p.Every Formed

variable {k : Node.Kind} {span : ByteSpan} {ps : List Parsed}

theorem map_fst_outline (p : Parsed) : p.outline.map Prod.fst = p.children.map kind := by
  simp [outline, Function.comp_def]

theorem Formed.composes {p : Parsed} (h : p.Formed) : p.kind.Composes (p.children.map kind) :=
  map_fst_outline p ▸ h.1

theorem Formed.node (plain : k.isAtRule = false) (parts : k.Composes (ps.map kind))
    (all : ∀ p ∈ ps, p.Every Formed) : (node k span ps).Every Formed := by
  rw [every_node]
  refine ⟨?_, all⟩
  apply Node.Kind.Forms.of_composes plain
  rw [map_fst_outline]
  exact parts

theorem Formed.leaf (plain : k.isAtRule = false) (parts : k.Composes []) : (leaf k span).Every Formed :=
  .node plain parts (by simp)

theorem IsComponent.leaf (component : k.isComponent) (parts : k.Composes []) : (leaf k span).IsComponent := by
  refine ⟨component, .leaf ?_ parts⟩
  cases k <;> first | rfl | cases component

/-- A group of component values is one of them. -/
theorem IsComponent.node (component : k.isComponent)
    (parts : (∀ c ∈ ps.map kind, c.isComponent) → k.Composes (ps.map kind))
    (all : ∀ p ∈ ps, p.IsComponent) : (node k span ps).IsComponent := by
  have kinds : ∀ c ∈ ps.map kind, c.isComponent := by
    intro c mem
    obtain ⟨p, hp, rfl⟩ := List.mem_map.1 mem
    exact (all p hp).1
  refine ⟨component, .node ?_ (parts kinds) fun p mem => (all p mem).2⟩
  cases k <;> first | rfl | cases component

/-- The groups between commas hold no comma. -/
theorem isComma_of_mem_splitAtCommas {group : List Parsed} {p : Parsed} (member : group ∈ splitAtCommas ps)
    (mem : p ∈ group) : p.isComma = false := by
  induction ps generalizing group with
  | nil =>
    have : group = [] := by simpa [splitAtCommas] using member
    simp [this] at mem
  | cons q ps ih =>
    unfold splitAtCommas at member
    split at member
    next =>
      rcases List.mem_cons.1 member with rfl | later
      · cases mem
      · exact ih later mem
    next solid =>
      have first : q.isComma = false := by simpa using solid
      split at member
      next e =>
        obtain rfl : group = [q] := by simpa using member
        obtain rfl : p = q := by simpa using mem
        exact first
      next top groups e =>
        rw [e] at ih
        rcases List.mem_cons.1 member with rfl | later
        · rcases List.mem_cons.1 mem with rfl | mem
          · exact first
          · exact ih (List.mem_cons_self ..) mem
        · exact ih (List.mem_cons_of_mem _ later) mem

/-- A node over the trimmed values of a group between commas. -/
theorem Formed.over_group {atoms group : List Parsed} (plain : k.isAtRule = false)
    (parts : ∀ cs : List Node.Kind, (∀ c ∈ cs, c.isComponent ∧ c ≠ Node.Kind.comma) → k.Composes cs)
    (all : ∀ p ∈ atoms, p.IsComponent) (member : group ∈ splitAtCommas atoms) :
    (Parsed.node k span (trim group)).Every Formed := by
  have inside {p : Parsed} (mem : p ∈ trim group) : p ∈ group := (trim_sublist group).subset mem
  have component {p : Parsed} (mem : p ∈ trim group) : p.IsComponent := by
    apply all
    apply (flatten_splitAtCommas_sublist atoms).subset
    exact List.mem_flatten.2 ⟨group, member, inside mem⟩
  refine .node plain (parts _ ?_) fun p mem => (component mem).2
  intro c mem
  obtain ⟨p, hp, rfl⟩ := List.mem_map.1 mem
  have solid := isComma_of_mem_splitAtCommas member (inside hp)
  exact ⟨(component hp).1, by simpa [isComma] using solid⟩

end AboveFold.Parsed

namespace AboveFold.Grammar
open Source Node Parsed

variable {inp : Input}

/-! ## Component values -/

theorem leafKind_isComponent (inp : Input) (t : Token) :
    (leafKind inp t).isComponent ∧ (leafKind inp t).Composes [] := by
  unfold leafKind stringLiteral
  repeat' split
  all_goals exact ⟨rfl, rfl⟩

theorem leaf_fst (inp : Input) (t : Token) (st : State) :
    (leaf inp t st).1 = .leaf (leafKind inp t) t.span.bytes := by
  unfold leaf
  split <;> rfl

theorem groupNode_isComponent (g : Group) (span : ByteSpan) {children : List Parsed}
    (all : ∀ p ∈ children, p.IsComponent) : (groupNode g span children).1.IsComponent := by
  unfold groupNode
  split
  next name =>
    split
    next => exact .leaf rfl rfl
    next => exact .node rfl id all
  next => exact .node rfl id all

/-- What `component` and `componentList` give with the given fuel. -/
structure ComponentsFormed (inp : Input) (fuel : Nat) : Prop where
  one : ∀ st, (component inp fuel st).1.IsComponent
  many : ∀ stop st, ∀ p ∈ (componentList inp stop fuel st).1, p.IsComponent

theorem componentsFormed (inp : Input) (fuel : Nat) : ComponentsFormed inp fuel := by
  have nothing (st : State) : (missing st).IsComponent := .leaf rfl rfl
  induction fuel with
  | zero =>
    constructor
    · intro st
      rw [component.eq_def]
      exact nothing st
    · intro stop st p mem
      simp [componentList] at mem
  | succ fuel ih =>
    constructor
    · intro st
      rw [component.eq_def]
      cases st.rest with
      | nil => exact nothing st
      | cons t ts =>
        simp only
        split
        next =>
          obtain ⟨component, parts⟩ := leafKind_isComponent inp t
          rw [leaf_fst]
          exact .leaf component parts
        next g _ =>
          split
          next => exact .leaf rfl rfl
          next => exact groupNode_isComponent g _ (ih.many g.endsAt _)
    · intro stop st p mem
      rw [componentList] at mem
      split at mem
      next => cases mem
      next =>
        rcases List.mem_cons.1 mem with rfl | mem
        · exact ih.one st
        · exact ih.many stop _ p mem

/-- All that is read as component values are such. -/
theorem components_isComponent (inp : Input) (stop : Token.Kind → Bool) (st : State) :
    ∀ p ∈ (components inp stop st).1, p.IsComponent :=
  (componentsFormed inp _).many stop st

/-! ## Heads of rules -/

theorem mediaQueries_formed (inp : Input) {atoms : List Parsed} (all : ∀ p ∈ atoms, p.IsComponent) :
    ∀ p ∈ mediaQueries inp atoms, p.kind.isMediaQuery ∧ p.Every Formed := by
  intro p mem
  obtain ⟨group, member, picked⟩ := List.mem_filterMap.1 mem
  obtain ⟨span, -, rfl⟩ := Option.map_eq_some_iff.1 picked
  exact ⟨rfl, .over_group rfl (fun _ h => h) all member⟩

theorem selectorListOf_formed (start : Nat) {atoms : List Parsed} (st : State) (all : ∀ p ∈ atoms, p.IsComponent) :
    (selectorListOf inp start atoms st).1.kind = .selectorList
      ∧ (selectorListOf inp start atoms st).1.Every Formed := by
  unfold selectorListOf
  simp only [selectors_fst]
  refine ⟨rfl, .node rfl ?_ ?_⟩
  · intro c mem
    obtain ⟨p, hp, rfl⟩ := List.mem_map.1 mem
    obtain ⟨group, -, picked⟩ := List.mem_filterMap.1 hp
    obtain ⟨span, -, rfl⟩ := selectorOf?_eq_some picked
    rfl
  · intro p mem
    obtain ⟨group, member, picked⟩ := List.mem_filterMap.1 mem
    obtain ⟨span, -, rfl⟩ := selectorOf?_eq_some picked
    exact .over_group rfl (fun _ h => h) all member

/-- The prelude of an at-rule, if it has one, is formed as its name requires. -/
theorem preludeOf_formed (inp : Input) (name : String) {atoms : List Parsed} (all : ∀ p ∈ atoms, p.IsComponent) :
    ((preludeOf inp name atoms).1 = [] ∨ ∃ p, (preludeOf inp name atoms).1 = [p] ∧ p.kind = .prelude)
      ∧ ∀ p ∈ (preludeOf inp name atoms).1, p.Every Formed
        ∧ ∀ c ∈ p.children, c.kind.isMediaQuery = Text.eqIgnoreCase name "media" := by
  have kept : ∀ p ∈ trim atoms, p.IsComponent := fun p mem => all p ((trim_sublist atoms).subset mem)
  unfold preludeOf
  simp only
  split
  next => exact ⟨.inl rfl, by simp⟩
  next span _ =>
    split
    next media =>
      have queries := mediaQueries_formed inp kept
      refine ⟨.inr ⟨_, rfl, rfl⟩, ?_⟩
      simp only [List.mem_singleton, forall_eq]
      refine ⟨.node rfl ?_ fun p mem => (queries p mem).2, fun c mem => ?_⟩
      · intro c mem
        obtain ⟨p, hp, rfl⟩ := List.mem_map.1 mem
        exact .inr (queries p hp).1
      · rw [(queries c mem).1, media]
    next other =>
      refine ⟨.inr ⟨_, rfl, rfl⟩, ?_⟩
      simp only [List.mem_singleton, forall_eq]
      refine ⟨.node rfl ?_ fun p mem => (kept p mem).2, fun c mem => ?_⟩
      · intro c mem
        obtain ⟨p, hp, rfl⟩ := List.mem_map.1 mem
        exact .inl (kept p hp).1
      · have component := (kept c mem).1
        have no : Text.eqIgnoreCase name "media" = false := by simpa using other
        rw [no]
        cases e : c.kind <;> first | rfl | (rw [e] at component; cases component)

theorem atRuleHead_formed (inp : Input) (nameEnd : Nat) (st : State) :
    ∀ p ∈ (atRuleHead inp nameEnd st).1.atoms, p.IsComponent := by
  unfold atRuleHead
  simp only
  split <;> exact components_isComponent inp _ st

theorem rawNode_formed (start stop : Nat) : (rawNode inp start stop).Every Formed :=
  .leaf rfl rfl

/-- Whether an entry of a list at this place can be of the kind. -/
def Place.admits (place : Place) (k : Node.Kind) : Prop :=
  k.isEntry ∨ place = .declarations ∧ k.isDeclaration

/-- An entry of a list at the given place. -/
def IsEntryOf (place : Place) (p : Parsed) : Prop :=
  place.admits p.kind ∧ p.Every Formed

theorem rawNode_isEntry (place : Place) (start stop : Nat) : IsEntryOf place (rawNode inp start stop) :=
  ⟨.inl rfl, rawNode_formed start stop⟩

theorem declarationOf_isEntry (property : String) (start colonEnd : Nat) {atoms : List Parsed} (st : State)
    (all : ∀ p ∈ atoms, p.IsComponent) :
    IsEntryOf .declarations (declarationOf inp property start colonEnd atoms st).1 := by
  obtain ⟨important, kept, dropped, keeps, -, -, e⟩ := declarationOf_eq inp property start colonEnd atoms st
  have component {p : Parsed} (mem : p ∈ kept) : p.IsComponent :=
    all p ((keeps.trans (trim_sublist atoms)).subset mem)
  rw [e]
  simp only
  split
  · exact rawNode_isEntry _ _ _
  · have value (span : ByteSpan) : (Parsed.node .value span kept).Every Formed := by
      refine .node rfl ?_ fun p mem => (component mem).2
      intro c mem
      obtain ⟨p, hp, rfl⟩ := List.mem_map.1 mem
      exact (component hp).1
    refine ⟨.inr ⟨rfl, rfl⟩, .node rfl rfl ?_⟩
    simpa using value _

theorem declaration_isEntry (t : Token) (property : String) (st : State) :
    IsEntryOf .declarations (declaration inp t property st).1 := by
  unfold declaration
  simp only
  split
  · exact declarationOf_isEntry property _ _ _ (components_isComponent inp _ _)
  · exact rawNode_isEntry _ _ _

/-- A style rule up to its block is raw text or has a selector list. -/
theorem ruleHead_formed (inp : Input) (place : Place) (st : State) :
    match (ruleHead inp place st).1 with
    | .raw p => IsEntryOf place p
    | .block list _ => list.kind = .selectorList ∧ list.Every Formed := by
  unfold ruleHead
  simp only
  cases (components inp (endsSelectors place) st).2.nextKind with
  | curlyOpen => exact selectorListOf_formed _ _ (components_isComponent inp _ st)
  | _ => exact rawNode_isEntry _ _ _

/-! ## Entries and blocks -/

theorem eq_declarations_of_entryOf {place : Place} {ts : List Token} {property : String}
    (h : entryOf place ts = .declaration property) : place = .declarations := by
  unfold entryOf at h
  split at h
  next => cases h
  next t ts' =>
    cases k : t.kind <;> cases place <;> simp_all

/-- What `entries` and `block` give with the given fuel. -/
structure EntriesFormed (inp : Input) (fuel : Nat) : Prop where
  list : ∀ place st, ∀ p ∈ (entries inp place fuel st).1, IsEntryOf place p
  block : ∀ contents construct st,
    (block inp contents construct fuel st).1.kind = .block contents
      ∧ (block inp contents construct fuel st).1.Every Formed

section

variable {fuel : Nat} {place : Place}

theorem atRule_isEntry {name : String} {span : ByteSpan} {atoms blocks : List Parsed}
    (all : ∀ p ∈ atoms, p.IsComponent)
    (body : blocks = [] ∨ ∃ p, blocks = [p] ∧ p.kind = .block (atRuleContents name) ∧ p.Every Formed) :
    IsEntryOf place (.node (.atRule name) span ((preludeOf inp name atoms).1 ++ blocks)) := by
  obtain ⟨one, prelude⟩ := preludeOf_formed inp name all
  have block : ∀ p ∈ blocks, p.kind = .block (atRuleContents name) ∧ p.Every Formed := by
    rcases body with rfl | ⟨p, rfl, kind, formed⟩
    · simp
    · simpa using ⟨kind, formed⟩
  refine ⟨.inl rfl, every_node.2 ⟨⟨?_, ?_⟩, ?_⟩⟩
  · rw [map_fst_outline]
    show List.Sublist (((preludeOf inp name atoms).1 ++ blocks).map Parsed.kind)
      ([Node.Kind.prelude] ++ [Node.Kind.block (atRuleContents name)])
    rw [List.map_append]
    apply List.Sublist.append
    · rcases one with e | ⟨p, e, kind⟩
      · simp [e]
      · simp [e, kind]
    · rcases body with rfl | ⟨p, rfl, kind, -⟩
      · simp
      · simp [kind]
  · rintro name' ⟨⟩ part mem kind c hc
    obtain ⟨p, hp, rfl⟩ := List.mem_map.1 mem
    obtain ⟨q, hq, rfl⟩ := List.mem_map.1 hc
    rcases List.mem_append.1 hp with hp | hp
    · exact (prelude p hp).2 q hq
    · rw [(block p hp).1] at kind
      cases kind
  · intro p mem
    rcases List.mem_append.1 mem with mem | mem
    · exact (prelude p mem).1
    · exact (block p mem).2

theorem EntriesFormed.entry {st st' : State} {t : Token} {ts : List Token} {p : Parsed} (ih : EntriesFormed inp fuel)
    (read : EntryRead inp place fuel st t ts p st') : IsEntryOf place p := by
  cases read with
  | comment => exact ⟨.inl rfl, .leaf rfl rfl⟩
  | fault _ eq =>
    subst eq
    split <;> exact rawNode_isEntry _ _ _
  | declaration property starts =>
    obtain rfl := eq_declarations_of_entryOf starts
    exact declaration_isEntry t property st
  | atRule _ _ _ headEq bodyEq =>
    subst headEq bodyEq
    apply atRule_isEntry (atRuleHead_formed _ _ _)
    unfold atRuleBody
    split
    · exact .inr ⟨_, rfl, ih.block _ _ _⟩
    · exact .inl rfl
  | raw _ eq =>
    have head := ruleHead_formed inp place st
    rw [eq] at head
    exact head
  | @rule _ _ headed _ _ eq bodyEq =>
    subst bodyEq
    have head := ruleHead_formed inp place st
    rw [eq] at head
    obtain ⟨kind, formed⟩ := head
    obtain ⟨kind', formed'⟩ := ih.block .declarations .ruleBlock headed
    refine ⟨.inl rfl, .node rfl ?_ ?_⟩
    · simp [kind, kind', Node.Kind.Composes]
    · simp [formed, formed']

theorem EntriesFormed.entries_succ (ih : EntriesFormed inp fuel) (st : State) :
    ∀ p ∈ (entries inp place (fuel + 1) st).1, IsEntryOf place p := by
  cases e : st.rest with
  | nil =>
    rw [entries_nil inp place _ e]
    simp
  | cons t ts =>
    cases entries_step inp place fuel e with
    | finish _ eq =>
      rw [eq]
      simp
    | separator _ eq => exact eq ▸ ih.list place _
    | strayBrace _ eq => exact eq ▸ ih.list place _
    | entry read eq =>
      rw [eq, List.forall_mem_cons]
      exact ⟨ih.entry read, ih.list place _⟩

theorem EntriesFormed.block_succ (ih : EntriesFormed inp fuel) (contents : Contents)
    (construct : Diagnostic.Construct) (st : State) :
    (Grammar.block inp contents construct (fuel + 1) st).1.kind = .block contents
      ∧ (Grammar.block inp contents construct (fuel + 1) st).1.Every Formed := by
  have empty : (Node.Kind.block contents).Composes [] := by
    cases contents <;> simp [Node.Kind.Composes]
  rw [Grammar.block.eq_def]
  cases st.rest with
  | nil => exact ⟨rfl, .leaf (by rfl) empty⟩
  | cons t ts =>
    simp only
    split
    · refine ⟨rfl, .node rfl ?_ (by simpa using rawNode_formed _ _)⟩
      cases contents <;> simp [Node.Kind.Composes, rawNode, Parsed.leaf, Parsed.kind, Node.Kind.isEntry]
    · refine ⟨rfl, .node rfl ?_ fun p mem => (ih.list _ _ p mem).2⟩
      have admitted {c : Node.Kind} (st : State)
          (mem : c ∈ (entries inp (.ofContents contents) fuel st).1.map Parsed.kind) :
          (Place.ofContents contents).admits c := by
        obtain ⟨p, hp, rfl⟩ := List.mem_map.1 mem
        exact (ih.list _ _ p hp).1
      cases contents with
      | rules =>
        intro c mem
        exact (admitted _ mem).resolve_right fun h => by cases h.1
      | declarations =>
        intro c mem
        exact (admitted _ mem).imp_right And.right

theorem entriesFormed (inp : Input) (fuel : Nat) : EntriesFormed inp fuel := by
  induction fuel with
  | zero =>
    constructor
    · intro place st p mem
      rw [entries.eq_def] at mem
      cases mem
    · intro contents construct st
      rw [block.eq_def]
      refine ⟨rfl, .leaf rfl ?_⟩
      cases contents <;> simp [Node.Kind.Composes]
  | succ fuel ih => exact ⟨fun _ => ih.entries_succ, ih.block_succ⟩

end

/-- Every node of a tree that was read has children of the right kinds. -/
theorem Input.read_formed (inp : Input) (tokens : List Token) :
    (inp.read tokens).sheet.kind = .styleSheet ∧ (inp.read tokens).sheet.Every Formed := by
  have entries := (entriesFormed inp (2 * tokens.length + 1)).list .topLevel (.start tokens)
  refine ⟨rfl, .node rfl ?_ fun p mem => (entries p mem).2⟩
  intro c mem
  obtain ⟨p, hp, rfl⟩ := List.mem_map.1 mem
  exact (entries p hp).1.resolve_right fun h => by cases h.1

end AboveFold.Grammar
