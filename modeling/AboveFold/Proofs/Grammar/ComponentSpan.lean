import AboveFold.Proofs.Grammar.Reading

/-!
# Spans of component values

A component value covers exactly the tokens it was read from: its span goes from the byte where reading
stood to the byte where it stands after. The values of a list therefore adjoin each other, whatever is
malformed in them. Only a blank token gives a whitespace node.
-/

namespace AboveFold.Grammar
open Source Node

variable {inp : Input} {tokens : List Token}

/-- One component value was read, from at least one token. -/
def ReadsNode (inp : Input) (tokens : List Token) (st : State) (a : Nat) (p : Parsed) (st' : State) : Prop :=
  ∃ used b, used ≠ [] ∧ Reads inp.source tokens st a used st' b ∧ p.span = ⟨a, b⟩
    ∧ p.AllSound inp.source tokens ∧ (p.isWhitespace → ∀ t ∈ used, t.kind = .whitespace)

/-- Component values were read up to a token that satisfies `stop` or the end of input. -/
def ReadsAtoms (inp : Input) (tokens : List Token) (stop : Token.Kind → Bool) (st : State) (a : Nat)
    (ps : List Parsed) (st' : State) : Prop :=
  ∃ used b, Reads inp.source tokens st a used st' b ∧ ByteSpan.Adjoining a b (ps.map Parsed.span)
    ∧ (∀ p ∈ ps, p.AllSound inp.source tokens)
    ∧ (∀ t ∈ used, ∃ p ∈ ps, p.span.holds t ∧ (p.isWhitespace → t.kind = .whitespace))
    ∧ (st'.nextKind = .eof ∨ stop st'.nextKind)

theorem Reads.length {source : String} {used : List Token} {st st' : State} {a b : Nat}
    (h : Reads source tokens st a used st' b) : used.length + st'.rest.length = st.rest.length := by
  rw [h.rest, List.length_append]

/-- All tokens of a stretch of reading lie in the span from its start to its end. -/
theorem Reads.holds {source : String} {used : List Token} {st st' : State} {a b : Nat}
    (h : Reads source tokens st a used st' b) {t : Token} (mem : t ∈ used) : ByteSpan.holds ⟨a, b⟩ t :=
  ByteSpan.holds_iff.2 (h.within t mem)

/-- The bytes of a stretch of reading are a range of the source. -/
theorem Reads.fits {used : List Token} {st st' : State} {a b : Nat} {source : String}
    (h : Reads source tokens st a used st' b) (start : IsBoundary source a) :
    ByteSpan.FitsIn source ⟨a, b⟩ :=
  .of_boundaries h.le start h.ready.boundary

/-! ## Single tokens -/

theorem leafKind_ne_styleSheet (inp : Input) (t : Token) : leafKind inp t ≠ .styleSheet := by
  unfold leafKind stringLiteral
  repeat' split
  all_goals simp

theorem leafKind_isBlock (inp : Input) (t : Token) : (leafKind inp t).isBlock = false := by
  unfold leafKind stringLiteral
  repeat' split
  all_goals rfl

theorem kind_of_leafKind_isWhitespace {inp : Input} {t : Token} (h : (leafKind inp t).isWhitespace) :
    t.kind = .whitespace := by
  revert h
  unfold leafKind stringLiteral
  repeat' split
  all_goals simp_all [Node.Kind.isWhitespace]

theorem readsNode_leaf {st : State} {a : Nat} {t : Token} {ts : List Token} (h : Ready inp.source tokens st a)
    (e : st.rest = t :: ts) :
    ReadsNode inp tokens st a (leaf inp t st.advance).1 (leaf inp t st.advance).2 := by
  have step := h.advance e
  have tiles := h.tiles
  rw [e] at tiles
  have span : t.span.bytes = ⟨a, t.stop⟩ := by rw [← tiles.start_eq]; rfl
  have node : ∃ st', leaf inp t st.advance = (.leaf (leafKind inp t) t.span.bytes, st')
      ∧ Reads inp.source tokens st a [t] st' t.stop := by
    unfold leaf
    split
    next d _ => exact ⟨_, rfl, step.report d⟩
    next => exact ⟨_, rfl, step⟩
  obtain ⟨st', eq, reads⟩ := node
  rw [eq]
  refine ⟨[t], t.stop, by simp, reads, span, ?_, ?_⟩
  · rw [span]
    exact .leaf (step.fits h.boundary) (leafKind_ne_styleSheet inp t) (leafKind_isBlock inp t)
  · intro white
    simpa using kind_of_leafKind_isWhitespace white

/-! ## Groups -/

/-- The end of a group takes no token or the bracket that closes it. -/
theorem Reads.closeGroup {st st' : State} {a b : Nat} {used : List Token} {g : Group}
    (h : Reads inp.source tokens st a used st' b) :
    ∃ closing c, Reads inp.source tokens st a (used ++ closing) (closeGroup inp g st') c ∧ b ≤ c := by
  unfold Grammar.closeGroup
  simp only
  split
  next => exact ⟨[], b, by simpa using h.leave.report _, Nat.le_refl b⟩
  next k =>
    split
    next =>
      obtain ⟨t, ts, e, -⟩ := rest_of_nextKind k
      exact ⟨[t], t.stop, (h.advance e).leave, (h.ready.advance e).le⟩
    next => exact ⟨[], b, by simpa using (h.report _).leave, Nat.le_refl b⟩

theorem groupNode_spec {source : String} (g : Group) {span : ByteSpan} {children : List Parsed}
    (fits : span.FitsIn source)
    (laid : ByteSpan.LaidOut span.start span.stop (children.map Parsed.span))
    (all : ∀ p ∈ children, p.AllSound source tokens) :
    (groupNode g span children).1.span = span ∧ (groupNode g span children).1.isWhitespace = false
      ∧ (groupNode g span children).1.AllSound source tokens
      ∧ ∀ p ∈ (groupNode g span children).2, p.AllSound source tokens := by
  unfold groupNode
  split
  next name =>
    split
    next => exact ⟨rfl, rfl, .leaf fits (by simp) rfl, all⟩
    next => exact ⟨rfl, rfl, .node fits (by simp) (by simp [Node.Kind.isBlock]) laid all, by simp⟩
  next => exact ⟨rfl, rfl, .node fits (by simp) (by simp [Node.Kind.isBlock]) laid all, by simp⟩

/-! ## Values and lists of values -/

/-- What `component` and `componentList` do with the given fuel. -/
structure ComponentsRead (inp : Input) (tokens : List Token) (fuel : Nat) : Prop where
  one : ∀ st a, Ready inp.source tokens st a → st.rest ≠ [] → 2 * st.rest.length ≤ fuel →
    ReadsNode inp tokens st a (component inp fuel st).1 (component inp fuel st).2
  many : ∀ stop st a, Ready inp.source tokens st a → 2 * st.rest.length + 1 ≤ fuel →
    ReadsAtoms inp tokens stop st a (componentList inp stop fuel st).1 (componentList inp stop fuel st).2

theorem ComponentsRead.component_succ {fuel : Nat} (ih : ComponentsRead inp tokens fuel) {st : State} {a : Nat}
    (h : Ready inp.source tokens st a) (rest : st.rest ≠ []) (enough : 2 * st.rest.length ≤ fuel + 1) :
    ReadsNode inp tokens st a (component inp (fuel + 1) st).1 (component inp (fuel + 1) st).2 := by
  obtain ⟨t, ts, e⟩ := List.exists_cons_of_ne_nil rest
  have tiles := h.tiles
  rw [e] at tiles
  have step := h.advance e
  have stepped : st.advance.rest = ts := by simp [State.advance_of_rest e]
  rw [component.eq_def]
  simp only [e]
  split
  next => exact readsNode_leaf h e
  next g _ =>
    split
    next =>
      have reads := (step.report (.tooDeep t.span))
      obtain ⟨inner, closing, passes, -⟩ := reads.ready.skipNested (reads.started (.inl (by simp)))
      have all := reads.trans passes
      have span : t.start = a := tiles.start_eq
      refine ⟨_, _, by simp, all, by rw [← span]; rfl, .leaf ?_ (by simp) rfl, ?_⟩
      · rw [span]
        exact all.fits h.boundary
      · intro white
        cases white
    next =>
      have entered := step.enter ⟨g.construct, t.span⟩
      obtain ⟨used, b, reads, adjoin, sound, -⟩ := ih.many g.endsAt _ _ entered.ready (by
        have : (st.advance.enter ⟨g.construct, t.span⟩).rest = ts := stepped
        rw [this]
        rw [e, List.length_cons] at enough
        omega)
      obtain ⟨closing, c, closed, le⟩ := (entered.trans reads).closeGroup (g := g)
      have stop := closed.lastOffset_eq (.inl (by simp))
      simp only [stop, tiles.start_eq]
      have laid : ByteSpan.LaidOut a c _ := (adjoin.laidOut.of_le step.le).to_le le
      obtain ⟨span, white, node, dropped⟩ := groupNode_spec g (closed.fits h.boundary) laid sound
      exact ⟨_, c, by simp, closed.discard dropped, span, node, by simp [white]⟩

theorem ComponentsRead.componentList_succ {fuel : Nat} (ih : ComponentsRead inp tokens fuel)
    (stop : Token.Kind → Bool) {st : State} {a : Nat} (h : Ready inp.source tokens st a)
    (enough : 2 * st.rest.length + 1 ≤ fuel + 1) :
    ReadsAtoms inp tokens stop st a (componentList inp stop (fuel + 1) st).1
      (componentList inp stop (fuel + 1) st).2 := by
  rw [componentList]
  split
  next ends =>
    exact ⟨[], a, .refl h, rfl, by simp, by simp, by simpa using ends⟩
  next ends =>
    have more : st.nextKind ≠ .eof := by simp_all
    obtain ⟨t, ts, e, -⟩ := rest_of_nextKind more
    obtain ⟨used, b, some, reads, span, sound, white⟩ := ih.one st a h (by simp [e]) (by omega)
    have shorter := reads.length
    have := List.length_pos_iff.2 some
    obtain ⟨used', c, reads', adjoin, sounds, covered, ended⟩ := ih.many stop _ _ reads.ready (by omega)
    refine ⟨used ++ used', c, reads.trans reads', ?_, ?_, ?_, ended⟩
    · simp only [List.map_cons, span]
      exact ⟨rfl, reads.le, adjoin⟩
    · simpa [sound] using sounds
    · intro u mem
      rcases List.mem_append.1 mem with mem | mem
      · exact ⟨_, by simp, by rw [span]; exact reads.holds mem, fun w => white w u mem⟩
      · obtain ⟨p, hp, held⟩ := covered u mem
        exact ⟨p, List.mem_cons_of_mem _ hp, held⟩

theorem componentsRead (inp : Input) (tokens : List Token) (fuel : Nat) : ComponentsRead inp tokens fuel := by
  induction fuel with
  | zero =>
    constructor
    · intro st a _ rest enough
      have := List.length_pos_iff.2 rest
      omega
    · intro stop st a _ enough
      omega
  | succ fuel ih =>
    exact ⟨fun st a h rest enough => ih.component_succ h rest enough,
      fun stop st a h enough => ih.componentList_succ stop h enough⟩

/-- Reading component values takes the tokens up to one that stops it, and the values cover them. -/
theorem Ready.components {st : State} {a : Nat} (h : Ready inp.source tokens st a) (stop : Token.Kind → Bool) :
    ReadsAtoms inp tokens stop st a (components inp stop st).1 (components inp stop st).2 :=
  (componentsRead inp tokens _).many stop st a h (Nat.le_refl _)

end AboveFold.Grammar
