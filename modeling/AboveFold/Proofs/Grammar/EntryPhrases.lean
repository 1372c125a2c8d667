import AboveFold.Proofs.Grammar.Entries
import AboveFold.Proofs.Grammar.Phrases

/-!
# What values and preludes say

The value of a declaration and the prelude of an at-rule are component values without the whitespace at their
ends. In a stylesheet that is read without diagnostics each of them has the text of words that stand, and its
children say these (`Parsed.Worded`); only the prelude of `@media` is read in another way. The induction goes over
lists and blocks together.
-/

namespace AboveFold.Node.Kind

/-- There are only component values inside one. -/
theorem Composes.isComponent {k : Kind} {cs : List Kind} (h : k.Composes cs) (component : k.isComponent) :
    ∀ c ∈ cs, c.isComponent := by
  by_cases group : ∃ name, k = .function name
  · obtain ⟨name, rfl⟩ := group
    exact h
  · by_cases block : ∃ c, k = .simpleBlock c
    · obtain ⟨c, rfl⟩ := block
      exact h
    · obtain rfl := h.eq_nil component (not_exists.1 group) (not_exists.1 block)
      simp

end AboveFold.Node.Kind

namespace AboveFold.Parsed
open Source Token

/-- A value or a prelude was read from these words: it has their text, and its children say them. -/
structure Worded (source : String) (p : Parsed) (ws : List Written) : Prop where
  text : p.span.slice source = some (String.ofList (textOf ws))
  said : SaysAll source p.children ws
  stands : Stands ws
  sound : ∀ w ∈ ws, ∀ f, w.kind ≠ .fault f

/-- A value was read from words, and so was a prelude, unless there is nothing in it or it lists media queries. -/
def HoldsWords (source : String) (p : Parsed) : Prop :=
  p.kind = .value ∨ p.kind = .prelude →
    p.kind = .prelude ∧ (p.children = [] ∨ ∃ c ∈ p.children, c.kind.isMediaQuery) ∨ ∃ ws, p.Worded source ws

variable {source : String} {p : Parsed} {ps qs part : List Parsed} {ws vs : List Written} {lo hi : Nat}
  {span : ByteSpan}

theorem Says.text (h : Says source p ws) : p.span.slice source = some (String.ofList (textOf ws)) := by
  cases p
  exact h.2.1

theorem SaysAll.of_append (h : SaysAll source (ps ++ qs) ws) :
    ∃ us vs, ws = us ++ vs ∧ SaysAll source ps us ∧ SaysAll source qs vs := by
  induction ps generalizing ws with
  | nil => exact ⟨[], ws, rfl, rfl, h⟩
  | cons p ps ih =>
    obtain ⟨us, ws, rfl, first, rest⟩ := h
    obtain ⟨us', vs, rfl, left, right⟩ := ih rest
    exact ⟨us ++ us', vs, (List.append_assoc ..).symm, ⟨us, us', rfl, first, left⟩, right⟩

/-- Values without a gap between them have the text of their words. -/
theorem SaysAll.slice (h : SaysAll source ps ws) (adjoin : ByteSpan.Adjoining lo hi (ps.map Parsed.span))
    (boundary : IsBoundary source lo) : ByteSpan.slice ⟨lo, hi⟩ source = some (String.ofList (textOf ws)) := by
  induction ps generalizing lo ws with
  | nil =>
    obtain rfl : ws = [] := h
    obtain rfl : lo = hi := adjoin
    exact ByteSpan.slice_empty boundary
  | cons p ps ih =>
    obtain ⟨us, vs, rfl, first, rest⟩ := h
    obtain ⟨start, -, adjoin⟩ := adjoin
    have text := first.text
    have span : p.span = ⟨lo, p.span.stop⟩ := by rw [← start]
    rw [textOf_append]
    exact ByteSpan.slice_beside (span ▸ text) (ih rest adjoin (.of_slice text))

/-- Values that do not end in whitespace end in a word that ends by itself. -/
theorem SaysAll.closed (h : SaysAll source ps ws) (last : ∀ p ∈ ps.getLast?, p.isWhitespace = false) : Closed ws := by
  rcases List.eq_nil_or_concat ps with rfl | ⟨ps, p, rfl⟩
  · obtain rfl : ws = [] := h
    simp [Closed]
  · rw [List.concat_eq_append] at h last
    obtain ⟨us, _, rfl, -, vs, _, rfl, said, rfl⟩ := h.of_append
    obtain ⟨w, e, -, white, function⟩ := said.bounds.last
    intro v mem
    rw [List.append_nil, List.getLast?_append, Option.mem_def.1 e] at mem
    obtain rfl : w = v := by simpa using mem
    refine ⟨fun blank => ?_, function⟩
    have solid := last p (by simp)
    rw [isWhitespace, white blank] at solid
    cases solid

/-- The span over some values that have no gap between them has the text of their words. -/
theorem SaysAll.slice_cover {hi' : Nat} (h : SaysAll source ps ws)
    (adjoin : ByteSpan.Adjoining lo hi (ps.map Parsed.span)) (boundary : IsBoundary source lo) (empty : IsBoundary source hi') :
    ((cover ps).getD ⟨hi', hi'⟩).slice source = some (String.ofList (textOf ws)) := by
  cases ps with
  | nil =>
    obtain rfl : ws = [] := h
    exact ByteSpan.slice_empty empty
  | cons p ps =>
    obtain rfl : p.span.start = lo := adjoin.1
    rw [cover_cons, adjoin.lastStop_eq]
    exact h.slice adjoin boundary

/-- A part of the values that are read in one go, without the whitespace at its ends, was read from words. -/
theorem SaysAll.worded {k : Node.Kind} (h : SaysAll source ps ws) (stands : Stands (ws ++ vs))
    (sound : ∀ w ∈ ws, ∀ f, w.kind ≠ .fault f) (adjoin : ByteSpan.Adjoining lo hi (ps.map Parsed.span))
    (boundary : IsBoundary source lo) (inside : part <:+: ps) :
    ∃ us, (node k ((cover (trim part)).getD ⟨lo, lo⟩) (trim part)).Worded source us := by
  obtain ⟨front, back, rfl⟩ := (trim_isInfix part).trans inside
  obtain ⟨_, ws₃, rfl, h, -⟩ := h.of_append
  obtain ⟨ws₁, ws₂, rfl, first, said⟩ := h.of_append
  have closed := said.closed fun p => isWhitespace_getLast?_trim
  have sound₂ : ∀ w ∈ ws₂, ∀ f, w.kind ≠ .fault f := fun w mem => sound w (by simp [mem])
  rw [List.append_assoc, List.append_assoc] at stands
  rw [List.append_assoc, List.map_append, List.map_append] at adjoin
  obtain ⟨mid, before, adjoin⟩ := adjoin.of_append
  obtain ⟨_, within, -⟩ := adjoin.of_append
  have start : IsBoundary source mid := .of_slice (first.slice before boundary)
  exact ⟨ws₂, said.slice_cover within start boundary, said, stands.right.left sound₂ closed, sound₂⟩

/-! ## Nodes without words of their own -/

theorem HoldsWords.node {k : Node.Kind} (plain : k ≠ .value ∧ k ≠ .prelude)
    (all : ∀ p ∈ ps, p.Every (HoldsWords source)) : (node k span ps).Every (HoldsWords source) :=
  every_node.2 ⟨fun words => absurd words (not_or.2 plain), all⟩

theorem IsComponent.children (h : p.IsComponent) : ∀ c ∈ p.children, c.IsComponent := by
  obtain ⟨component, formed⟩ := h
  obtain ⟨k, span, ps⟩ := p
  obtain ⟨top, below⟩ := every_node.1 formed
  exact fun c mem => ⟨top.composes.isComponent component _ (List.mem_map_of_mem mem), below c mem⟩

mutual

/-- What holds of all nodes that are component values holds of every node of one. -/
theorem IsComponent.every {P : Parsed → Prop} (holds : ∀ q : Parsed, q.kind.isComponent → P q) :
    ∀ {p : Parsed}, p.IsComponent → p.Every P
  | .node _ _ _, h => every_node.2 ⟨holds _ h.1, IsComponent.everyAll holds h.children⟩

theorem IsComponent.everyAll {P : Parsed → Prop} (holds : ∀ q : Parsed, q.kind.isComponent → P q) :
    ∀ {ps : List Parsed}, (∀ p ∈ ps, p.IsComponent) → ∀ p ∈ ps, p.Every P
  | [], _ => by simp
  | p :: ps, h => by
    rw [List.forall_mem_cons] at h ⊢
    exact ⟨h.1.every holds, IsComponent.everyAll holds h.2⟩

end

/-- There is no value or prelude inside a component value. -/
theorem IsComponent.holdsWords (h : p.IsComponent) : p.Every (HoldsWords source) := by
  refine h.every fun q component words => ?_
  rcases words with value | prelude
  · rw [value] at component
    cases component
  · rw [prelude] at component
    cases component

theorem holdsWords_of_isComponent (h : ∀ p ∈ ps, p.IsComponent) : ∀ p ∈ ps, p.Every (HoldsWords source) :=
  fun p mem => (h p mem).holdsWords

end AboveFold.Parsed

namespace AboveFold.Grammar
open Source Node Parsed Token

variable {inp : Input} {tokens : List Token} {st st' st'' : State} {a : Nat} {p : Parsed} {ps atoms part : List Parsed}

/-- Every value and prelude in what was read says its words, if nothing was reported. -/
def Tells (inp : Input) (ps : List Parsed) (st' : State) : Prop :=
  st'.errors = [] → ∀ p ∈ ps, p.Every (HoldsWords inp.source)

theorem State.errors_advance (st : State) : st.advance.errors = st.errors := by
  unfold State.advance
  split <;> rfl

/-! ## Groups between commas -/

/-- There is no value or prelude inside a node over a group between commas. -/
theorem holdsWords_over_group {k : Node.Kind} {span : ByteSpan} {group : List Parsed} {source : String}
    (plain : k ≠ .value ∧ k ≠ .prelude) (all : ∀ p ∈ atoms, p.IsComponent) (member : group ∈ splitAtCommas atoms) :
    (Parsed.node k span (trim group)).Every (HoldsWords source) := by
  refine .node plain (holdsWords_of_isComponent fun p mem => all p ?_)
  apply (flatten_splitAtCommas_sublist atoms).subset
  exact List.mem_flatten.2 ⟨group, member, (trim_sublist group).subset mem⟩

theorem mediaQueries_holdWords {source : String} (all : ∀ p ∈ atoms, p.IsComponent) :
    ∀ p ∈ mediaQueries inp atoms, p.Every (HoldsWords source) := by
  intro p mem
  obtain ⟨group, member, picked⟩ := List.mem_filterMap.1 mem
  obtain ⟨span, -, rfl⟩ := Option.map_eq_some_iff.1 picked
  exact holdsWords_over_group ⟨by simp, by simp⟩ all member

theorem selectorListOf_holdsWords {source : String} (start : Nat) (st : State) (all : ∀ p ∈ atoms, p.IsComponent) :
    (selectorListOf inp start atoms st).1.Every (HoldsWords source) := by
  unfold selectorListOf
  simp only [selectors_fst]
  refine .node ⟨by simp, by simp⟩ fun p mem => ?_
  obtain ⟨group, member, picked⟩ := List.mem_filterMap.1 mem
  obtain ⟨span, -, rfl⟩ := selectorOf?_eq_some picked
  exact holdsWords_over_group ⟨by simp, by simp⟩ all member

/-! ## Values and preludes -/

section

variable (spells : Spells inp.source tokens)

include spells

/-- A part of what is read in one go, without the whitespace at its ends, was read from words. -/
theorem Ready.worded (h : Ready inp.source tokens st a) (stop : Token.Kind → Bool)
    (clean : (Grammar.components inp stop st).2.errors = []) (inside : part <:+: (Grammar.components inp stop st).1)
    (k : Node.Kind) : ∃ ws, (Parsed.node k ((cover (trim part)).getD ⟨a, a⟩) (trim part)).Worded inp.source ws := by
  obtain ⟨used, rest, sound, said⟩ := h.components_say spells.spelt stop clean
  obtain ⟨vs, stands⟩ := spells.stands (rest ▸ h.suffix) fun t mem => (sound t mem).1
  obtain ⟨_, _, _, adjoin, -⟩ := h.components stop
  refine said.worded stands ?_ adjoin h.boundary inside
  rw [List.forall_mem_map]
  exact fun t mem => (sound t mem).2

theorem Ready.declaration_tells {t : Token} {ts : List Token} (property : String) (h : Ready inp.source tokens st a)
    (e : st.rest = t :: ts) :
    Tells inp [(Grammar.declaration inp t property st).1] (Grammar.declaration inp t property st).2 := by
  obtain ⟨trivia, b, skip, -⟩ := (h.advance e).ready.skipTrivia
  unfold Grammar.declaration
  simp only
  split
  next colon ts' e' =>
    have colonRead := skip.advance e'
    obtain ⟨important, kept, dropped, -, ⟨part, inside, rfl⟩, -, eq⟩ := declarationOf_eq inp property t.start
      colon.stop.offset (Grammar.components inp endsDeclaration st.advance.skipTrivia.advance).1
      (Grammar.components inp endsDeclaration st.advance.skipTrivia.advance).2
    rw [eq]
    simp only
    split
    next => exact fun none => by cases none
    next =>
      intro none
      have component : ∀ p ∈ trim part, p.IsComponent := fun p mem =>
        components_isComponent inp _ _ p (inside.subset ((trim_sublist part).subset mem))
      have worded := colonRead.ready.worded spells endsDeclaration none inside .value
      have value := every_node.2 ⟨fun _ => .inr worded, holdsWords_of_isComponent component⟩
      rw [List.forall_mem_singleton]
      refine .node ⟨by simp, by simp⟩ ?_
      rw [List.forall_mem_singleton]
      exact value
  next =>
    have reported := skip.report (.missingColon property st.advance.skipTrivia.nextKind.description
      (st.advance.skipTrivia.nextSpan inp))
    obtain ⟨_, _, skipped, -⟩ := reported.ready.skipDeclaration _ t.stop (Nat.le_refl _)
    intro none
    cases skipped.clean none

/-- The prelude of an at-rule, if it has one, says its words. -/
theorem Ready.preludeOf_tells (name : String) (nameEnd : Nat) (h : Ready inp.source tokens st a) :
    Tells inp (preludeOf inp name (Grammar.atRuleHead inp nameEnd st).1.atoms).1
      (Grammar.atRuleHead inp nameEnd st).2 := by
  intro none
  have component := atRuleHead_formed inp nameEnd st
  have worded : ∃ ws, (Parsed.node .prelude ((cover (trim (Grammar.atRuleHead inp nameEnd st).1.atoms)).getD ⟨a, a⟩)
      (trim (Grammar.atRuleHead inp nameEnd st).1.atoms)).Worded inp.source ws := by
    have words := fun clean => h.worded spells (fun k => k = .semicolon || k = .curlyOpen || k = .curlyClose) clean
      (List.infix_refl _) .prelude
    unfold Grammar.atRuleHead at none ⊢
    simp only at none ⊢
    split at none
    next => exact words (State.errors_advance _ ▸ none)
    next => exact words none
    next => exact words none
  have kept : ∀ p ∈ trim (Grammar.atRuleHead inp nameEnd st).1.atoms, p.IsComponent :=
    fun p mem => component p ((trim_sublist _).subset mem)
  unfold preludeOf
  simp only
  split
  next => simp
  next span e =>
    rw [e] at worded
    split
    next =>
      rw [List.forall_mem_singleton]
      refine every_node.2 ⟨fun _ => ?_, mediaQueries_holdWords kept⟩
      cases queries : mediaQueries inp (trim (Grammar.atRuleHead inp nameEnd st).1.atoms) with
      | nil => exact .inl ⟨rfl, .inl rfl⟩
      | cons q qs =>
        have formed := mediaQueries_formed inp kept q (by simp [queries])
        exact .inl ⟨rfl, .inr ⟨q, List.mem_cons_self, formed.1⟩⟩
    next =>
      rw [List.forall_mem_singleton]
      exact every_node.2 ⟨fun _ => .inr worded, holdsWords_of_isComponent kept⟩

end

/-- A style rule up to its block holds no value, unless it is reported. -/
theorem ruleHead_tells (inp : Input) (place : Place) (st : State) :
    match (Grammar.ruleHead inp place st).1 with
    | .raw p => Tells inp [p] (Grammar.ruleHead inp place st).2
    | .block list _ => list.Every (HoldsWords inp.source) := by
  have component := components_isComponent inp (endsSelectors place) st
  unfold Grammar.ruleHead
  simp only
  cases (Grammar.components inp (endsSelectors place) st).2.nextKind with
  | curlyOpen => exact selectorListOf_holdsWords _ _ component
  | _ => exact fun none => by cases none

/-! ## Entries and blocks -/

/-- What `entries` and `block` tell with the given fuel. -/
structure EntriesTell (inp : Input) (tokens : List Token) (fuel : Nat) : Prop where
  list : ∀ place st a, Ready inp.source tokens st a → 2 * st.rest.length + 1 ≤ fuel →
    Tells inp (entries inp place fuel st).1 (entries inp place fuel st).2
  block : ∀ contents construct st a, Ready inp.source tokens st a → st.nextKind = .curlyOpen →
    2 * st.rest.length ≤ fuel →
    Tells inp [(block inp contents construct fuel st).1] (block inp contents construct fuel st).2

section

variable {fuel : Nat} {place : Place} {t : Token} {ts : List Token}

/-- One entry tells its words, and then the others do. -/
theorem Tells.cons (h : Tells inp [p] st') (read : ReadsEntry inp tokens st a p st')
    (later : ∀ b, Ready inp.source tokens st' b → st'.rest.length < st.rest.length →
      Tells inp ps st'' ∧ (st''.errors = [] → st'.errors = [])) : Tells inp (p :: ps) st'' := by
  obtain ⟨b, ready, shorter⟩ := read.next
  obtain ⟨tells, clean⟩ := later b ready shorter
  intro none
  rw [List.forall_mem_cons]
  exact ⟨h (clean none) p List.mem_cons_self, tells none⟩

/-- A token that cannot be read is reported. -/
theorem Ready.fault_tells (place : Place) (fault : Token.Fault) (h : Ready inp.source tokens st a)
    (e : st.rest = t :: ts) :
    let reported := st.advance.report (.lexical fault t.span)
    let read := match place with
      | .declarations => rawDeclaration inp t.start t.stop reported
      | _ => (rawNode inp t.start t.stop, reported)
    Tells inp [read.1] read.2 := by
  have reported := (h.advance e).report (.lexical fault t.span)
  obtain ⟨_, _, skipped, -⟩ := reported.ready.skipDeclaration _ t.stop (Nat.le_refl _)
  cases place with
  | declarations => exact fun none => by cases skipped.clean none
  | _ => exact fun none => by cases none

theorem EntriesTell.atRule (spells : Spells inp.source tokens) (ih : EntriesTell inp tokens fuel) (name : String)
    (h : Ready inp.source tokens st a) (e : st.rest = t :: ts) (enough : 2 * st.rest.length ≤ fuel) :
    let head := Grammar.atRuleHead inp t.stop st.advance
    let body := Grammar.atRuleBody inp name fuel head.1 head.2
    let prelude := preludeOf inp name head.1.atoms
    Tells inp [Parsed.node (.atRule name) ⟨t.start, body.2.1⟩ (prelude.1 ++ body.1)] (body.2.2.discard prelude.2) := by
  intro head body prelude none
  have step := h.advance e
  obtain ⟨used, b, reads, -, -, stop, opens⟩ := step.ready.atRuleHead
  have within : 2 * head.2.rest.length ≤ fuel := by
    have : used.length + head.2.rest.length = st.advance.rest.length := reads.length
    have := State.length_advance_lt e
    omega
  obtain ⟨_, _, rest, -⟩ := (entriesRead inp tokens fuel).atRuleBody name (.refl reads.ready) stop opens within
  have inside : Tells inp body.1 body.2.2 := by
    unfold body Grammar.atRuleBody
    split
    next has => exact ih.block (atRuleContents name) .atRuleBlock head.2 b reads.ready (opens has) within
    next => exact fun _ => by simp
  rw [List.forall_mem_singleton]
  refine .node ⟨by simp, by simp⟩ ?_
  rw [List.forall_mem_append]
  exact ⟨step.ready.preludeOf_tells spells name t.stop (rest.clean none), inside none⟩

theorem EntriesTell.styleRule {list : Parsed} {start : Nat} (ih : EntriesTell inp tokens fuel)
    (tells : list.Every (HoldsWords inp.source)) (head : ReadsHead inp tokens st a (.block list start) st')
    (enough : 2 * st.rest.length ≤ fuel) :
    let body := Grammar.block inp .declarations .ruleBlock fuel st'
    Tells inp [Parsed.node .rule ⟨start, body.1.span.stop⟩ [list, body.1]] body.2 := by
  obtain ⟨-, used, b, reads, -, -, opens⟩ := head
  have := reads.length
  have inside := ih.block .declarations .ruleBlock st' b reads.ready opens (by omega)
  intro body none
  rw [List.forall_mem_singleton]
  refine .node ⟨by simp, by simp⟩ ?_
  rw [List.forall_mem_cons]
  exact ⟨tells, inside none⟩

theorem EntriesTell.entry {p : Parsed} (spells : Spells inp.source tokens) (ih : EntriesTell inp tokens fuel)
    (h : Ready inp.source tokens st a) (e : st.rest = t :: ts) (enough : 2 * st.rest.length ≤ fuel)
    (read : EntryRead inp place fuel st t ts p st') : Tells inp [p] st' := by
  cases read with
  | comment =>
    intro none
    rw [List.forall_mem_singleton]
    exact .node ⟨by simp, by simp⟩ (by simp)
  | fault fault eq =>
    subst eq
    exact h.fault_tells place fault e
  | declaration property => exact h.declaration_tells spells property e
  | atRule name _ _ headEq bodyEq =>
    subst headEq bodyEq
    exact ih.atRule spells name h e enough
  | raw _ eq =>
    have tells := ruleHead_tells inp place st
    rw [eq] at tells
    exact tells
  | rule starts eq bodyEq =>
    subst bodyEq
    have head := h.ruleHead e starts
    have tells := ruleHead_tells inp place st
    rw [eq] at head tells
    exact ih.styleRule tells head enough

theorem EntriesTell.entries_succ (spells : Spells inp.source tokens) (ih : EntriesTell inp tokens fuel)
    (h : Ready inp.source tokens st a) (enough : 2 * st.rest.length + 1 ≤ fuel + 1) :
    Tells inp (entries inp place (fuel + 1) st).1 (entries inp place (fuel + 1) st).2 := by
  have whole := entriesRead inp tokens fuel
  cases e : st.rest with
  | nil =>
    rw [entries_nil inp place _ e]
    exact fun _ => by simp
  | cons t ts =>
    have step := h.advance e
    have shorter := State.length_advance_lt e
    have later {st' : State} (b : Nat) (ready : Ready inp.source tokens st' b)
        (less : st'.rest.length < st.rest.length) :
        Tells inp (entries inp place fuel st').1 (entries inp place fuel st').2
          ∧ ((entries inp place fuel st').2.errors = [] → st'.errors = []) := by
      obtain ⟨_, _, reads, -⟩ := whole.list place st' b ready (by omega)
      exact ⟨ih.list place st' b ready (by omega), reads.clean⟩
    cases entries_step inp place fuel e with
    | finish _ eq =>
      rw [eq]
      exact fun _ => by simp
    | separator _ eq => exact eq ▸ (later _ step.ready shorter).1
    | strayBrace _ eq =>
      have reported := step.report (.strayBrace t.span)
      obtain ⟨_, _, rest, -⟩ := whole.list place _ _ reported.ready (by simpa [State.report] using by omega)
      rw [eq]
      intro none
      cases rest.clean none
    | entry read eq =>
      rw [eq]
      exact (ih.entry spells h e (by omega) read).cons (whole.entry h e (by omega) read) fun b => later b

theorem EntriesTell.block_succ (ih : EntriesTell inp tokens fuel) (contents : Contents)
    (construct : Diagnostic.Construct) (h : Ready inp.source tokens st a) (opens : st.nextKind = .curlyOpen)
    (enough : 2 * st.rest.length ≤ fuel + 1) :
    Tells inp [(Grammar.block inp contents construct (fuel + 1) st).1]
      (Grammar.block inp contents construct (fuel + 1) st).2 := by
  obtain ⟨t, ts, e, -⟩ := rest_of_opens opens
  have step := h.advance e
  rw [Grammar.block.eq_def]
  simp only [e]
  split
  next =>
    have reported := step.report (.tooDeep t.span)
    obtain ⟨_, _, passes, -⟩ := reported.ready.skipNested (reported.started (.inl (by simp)))
    intro none
    cases passes.clean none
  next =>
    have entered := step.enter ⟨construct, t.span⟩
    have shorter : (st.advance.enter ⟨construct, t.span⟩).rest.length < st.rest.length :=
      State.length_advance_lt e
    obtain ⟨_, _, reads, -, -, -, ended⟩ := (entriesRead inp tokens fuel).list (.ofContents contents) _ _
      entered.ready (by omega)
    obtain ⟨_, _, closed, -⟩ := (Reads.refl reads.ready).closeBlock (ended.imp_right And.right)
    have inside := ih.list (.ofContents contents) _ _ entered.ready (by omega)
    intro none
    rw [List.forall_mem_singleton]
    exact .node ⟨by simp, by simp⟩ (inside (closed.clean none))

theorem entriesTell (spells : Spells inp.source tokens) (fuel : Nat) : EntriesTell inp tokens fuel := by
  induction fuel with
  | zero =>
    refine ⟨fun place st a h enough => by omega, fun contents construct st a h opens enough => ?_⟩
    have some := length_pos_of_opens opens
    omega
  | succ fuel ih =>
    exact ⟨fun _ _ _ h enough => ih.entries_succ spells h enough,
      fun contents construct _ _ h opens enough => ih.block_succ contents construct h opens enough⟩

end

/-- In a stylesheet that was read without diagnostics every value and every prelude says its words. -/
theorem Input.read_holdsWords (inp : Input) {here : Nat} (boundary : IsBoundary inp.source here)
    (tiles : Token.Tiles inp.source here tokens) (spells : Spells inp.source tokens)
    (clean : (inp.read tokens).errors = []) : (inp.read tokens).sheet.Every (HoldsWords inp.source) := by
  have ready := Ready.start boundary tiles
  have tells := (entriesTell spells _).list .topLevel _ _ ready (Nat.le_refl _)
  exact .node ⟨by simp, by simp⟩ (tells (List.reverse_eq_nil_iff.1 clean))

end AboveFold.Grammar
