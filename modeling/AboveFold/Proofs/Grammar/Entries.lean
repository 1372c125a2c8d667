import AboveFold.Proofs.Grammar.EntrySteps
import AboveFold.Proofs.Grammar.RuleSpan

/-!
# Entries cover their tokens

Every entry of a list starts where reading stands and covers the tokens that were read for it, except
for blanks, comments and semicolons at its end. What lies between two entries are separators and, at
the top level, closing braces that are reported. The blocks of rules and at-rules keep to this on every
level, so that the induction goes over lists and blocks together.
-/

namespace AboveFold.Grammar
open Source Node Parsed

variable {inp : Input} {tokens : List Token}

/-- A token that a list at `place` may leave out: one that separates entries, or at the top level a
closing brace that is reported as stray. -/
def LeftOut (place : Place) (errors : List Diagnostic) (t : Token) : Prop :=
  t.kind.isFiller ∨ place = .topLevel ∧ t.kind = .curlyClose ∧ Diagnostic.strayBrace t.span ∈ errors

/-- The entries `ps` of a list were read, up to the end of input or the brace that ends the list. -/
def ReadsEntries (inp : Input) (tokens : List Token) (place : Place) (st : State) (a : Nat) (ps : List Parsed)
    (st' : State) : Prop :=
  ∃ used b, Reads inp.source tokens st a used st' b ∧ ByteSpan.LaidOut a b (ps.map Parsed.span)
    ∧ (∀ p ∈ ps, p.AllSound inp.source tokens)
    ∧ (∀ t ∈ used, LeftOut place st'.errors t ∨ ∃ p ∈ ps, p.span.holds t)
    ∧ (st'.nextKind = .eof ∨ place ≠ .topLevel ∧ st'.nextKind = .curlyClose)

/-- A block was read, and its span covers all its tokens. -/
def ReadsBlock (inp : Input) (tokens : List Token) (st : State) (a : Nat) (p : Parsed) (st' : State) : Prop :=
  ∃ used b, used ≠ [] ∧ Reads inp.source tokens st a used st' b ∧ p.AllSound inp.source tokens
    ∧ p.span = ⟨a, b⟩

section

variable {place : Place} {st st' st'' : State} {a b : Nat} {p : Parsed} {ps : List Parsed} {used : List Token}

theorem LeftOut.mono {errors errors' : List Diagnostic} {t : Token} (h : LeftOut place errors t)
    (sub : ∀ d ∈ errors, d ∈ errors') : LeftOut place errors' t :=
  h.imp_right fun ⟨top, kind, reported⟩ => ⟨top, kind, sub _ reported⟩

/-- Tokens that were left out come before the other entries. -/
theorem ReadsEntries.skip (h : Reads inp.source tokens st a used st' b)
    (out : ∀ t ∈ used, LeftOut place st'.errors t) (later : ReadsEntries inp tokens place st' b ps st'') :
    ReadsEntries inp tokens place st a ps st'' := by
  obtain ⟨used', c, reads, laid, sound, covered, ended⟩ := later
  refine ⟨_, c, h.trans reads, laid.of_le h.le, sound, fun t mem => ?_, ended⟩
  rcases List.mem_append.1 mem with mem | mem
  · exact .inl ((out t mem).mono reads.errors)
  · exact covered t mem

/-- One entry comes before the others. -/
theorem ReadsEntries.cons (h : ReadsEntry inp tokens st a p st')
    (later : ∀ b, Ready inp.source tokens st' b → st'.rest.length < st.rest.length →
      ReadsEntries inp tokens place st' b ps st'') : ReadsEntries inp tokens place st a (p :: ps) st'' := by
  obtain ⟨used, b, some, reads, sound, start, stop, held⟩ := h
  have := reads.length
  have := List.length_pos_iff.2 some
  obtain ⟨used', c, reads', laid, sounds, covered, ended⟩ := later b reads.ready (by omega)
  refine ⟨_, c, reads.trans reads', ?_, by simpa [sound] using sounds, fun t mem => ?_, ended⟩
  · exact ⟨Nat.le_of_eq start.symm, sound.self.fits.start_le_stop, laid.of_le stop⟩
  · rcases List.mem_append.1 mem with mem | mem
    · exact (held t mem).imp .inl fun holds => ⟨p, by simp, holds⟩
    · exact (covered t mem).imp_right fun ⟨q, hq, holds⟩ => ⟨q, List.mem_cons_of_mem p hq, holds⟩

/-- The next token depends only on how many were taken. -/
theorem Reads.nextKind_eq {b' : Nat} (h : Reads inp.source tokens st a used st' b)
    (h' : Reads inp.source tokens st a used st'' b') : st'.nextKind = st''.nextKind := by
  have rest : st'.rest = st''.rest := List.append_cancel_left (h.rest.symm.trans h'.rest)
  simp [State.nextKind, rest]

/-- A node that covers all the tokens it was read from is an entry. -/
theorem ReadsEntry.of_span (some : used ≠ []) (h : Reads inp.source tokens st a used st' b)
    (sound : p.AllSound inp.source tokens) (span : p.span = ⟨a, b⟩) : ReadsEntry inp tokens st a p st' :=
  ⟨used, b, some, h, sound, by rw [span], Nat.le_of_eq (by rw [span]),
    fun _ mem => .inr (by rw [span]; exact h.holds mem)⟩

/-- Raw text from the place where reading started to the place where it stands. -/
theorem ReadsEntry.raw (some : used ≠ []) (boundary : IsBoundary inp.source a)
    (h : Reads inp.source tokens st a used st' b) : ReadsEntry inp tokens st a (rawNode inp a b) st' := by
  obtain ⟨span, sound⟩ := rawNode_spec tokens h.le boundary h.ready.boundary
  exact .of_span some h sound span

end

/-! ## Heads -/

theorem not_endsSelectors_of_styleRule {place : Place} {t : Token} {ts : List Token}
    (h : entryOf place (t :: ts) = .styleRule) :
    t.kind ≠ .eof ∧ (endsSelectors place t.kind → t.kind = .curlyOpen) := by
  unfold entryOf at h
  cases k : t.kind <;> cases place <;> simp_all [endsSelectors]

/-- An at-rule is read up to its block, or to its semicolon if there is one. -/
theorem Ready.atRuleHead {st : State} {a : Nat} (h : Ready inp.source tokens st a) :
    ∃ used b, Reads inp.source tokens st a used (atRuleHead inp a st).2 b
      ∧ ByteSpan.LaidOut a b ((atRuleHead inp a st).1.atoms.map Parsed.span)
      ∧ (∀ p ∈ (atRuleHead inp a st).1.atoms, p.AllSound inp.source tokens)
      ∧ (atRuleHead inp a st).1.stop = b
      ∧ ((atRuleHead inp a st).1.hasBlock → (atRuleHead inp a st).2.nextKind = .curlyOpen) := by
  obtain ⟨used, b, reads, adjoin, sound, -⟩ :=
    h.components fun k => k = .semicolon || k = .curlyOpen || k = .curlyClose
  have stop := adjoin.foldl_max
  rw [List.foldl_map] at stop
  unfold Grammar.atRuleHead
  simp only
  split
  next k =>
    obtain ⟨t, ts, e, -⟩ := rest_of_nextKind (by rw [k]; simp)
    have step := reads.advance e
    exact ⟨_, t.stop, step, adjoin.laidOut.to_le (reads.ready.advance e).le, sound,
      step.lastOffset_eq (.inl (by simp)), by simp⟩
  next k => exact ⟨used, b, reads, adjoin.laidOut, sound, stop, fun _ => k⟩
  next => exact ⟨used, b, reads, adjoin.laidOut, sound, stop, by simp⟩

/-- A style rule is read up to its block, or is raw text. -/
def ReadsHead (inp : Input) (tokens : List Token) (st : State) (a : Nat) (head : RuleHead) (st' : State) : Prop :=
  match head with
  | .raw p => ReadsEntry inp tokens st a p st'
  | .block selectorList start =>
    start = a ∧ ∃ used b, Reads inp.source tokens st a used st' b ∧ selectorList.AllSound inp.source tokens
      ∧ ByteSpan.LaidOut a b [selectorList.span] ∧ st'.nextKind = .curlyOpen

theorem Ready.ruleHead {st : State} {a : Nat} {t : Token} {ts : List Token} {place : Place}
    (h : Ready inp.source tokens st a) (e : st.rest = t :: ts) (style : entryOf place (t :: ts) = .styleRule) :
    ReadsHead inp tokens st a (ruleHead inp place st).1 (ruleHead inp place st).2 := by
  have tiles := h.tiles
  rw [e] at tiles
  have start : (st.nextSpan inp).start.offset = a := by
    rw [← tiles.start_eq]
    simp [State.nextSpan, e, Token.start]
  obtain ⟨used, b, reads, adjoin, sound, -, ended⟩ := h.components (endsSelectors place)
  -- Only an opening brace ends the selectors before any of them was read.
  have taken : (Grammar.components inp (endsSelectors place) st).2.nextKind ≠ .curlyOpen → used ≠ [] := by
    rintro k rfl
    obtain ⟨some, opens⟩ := not_endsSelectors_of_styleRule style
    have same : (Grammar.components inp (endsSelectors place) st).2.nextKind = t.kind :=
      nextKind_of_rest (reads.rest.symm.trans e)
    rw [same] at ended k
    rcases ended with eof | ends
    · exact some eof
    · exact k (opens ends)
  unfold Grammar.ruleHead
  simp only [start]
  split
  next k =>
    obtain ⟨list, node, laid⟩ := selectorListOf_spec h.boundary reads adjoin.laidOut sound
    exact ⟨rfl, used, b, list, node, laid, (list.nextKind_eq reads).trans k⟩
  next k =>
    have some := taken (by rw [k]; simp)
    rw [reads.lastOffset_eq (.inl some)]
    exact .raw some h.boundary ((reads.report _).discard sound)
  next k _ =>
    have some := taken k
    rw [reads.lastOffset_eq (.inl some)]
    exact .raw some h.boundary ((reads.report _).discard sound)

/-! ## Entries -/

theorem entryOf_eq_finish {place : Place} {t : Token} {ts : List Token} (h : entryOf place (t :: ts) = .finish) :
    t.kind = .eof ∨ place ≠ .topLevel ∧ t.kind = .curlyClose := by
  unfold entryOf at h
  cases k : t.kind <;> cases place <;> simp_all
  split at h <;> cases h

theorem entryOf_eq_separator {place : Place} {t : Token} {ts : List Token}
    (h : entryOf place (t :: ts) = .separator) : t.kind.isFiller := by
  unfold entryOf at h
  cases k : t.kind <;> cases place <;> simp_all [Token.Kind.isFiller]
  split at h <;> cases h

theorem entryOf_eq_strayBrace {place : Place} {t : Token} {ts : List Token}
    (h : entryOf place (t :: ts) = .strayBrace) : place = .topLevel ∧ t.kind = .curlyClose := by
  unfold entryOf at h
  cases k : t.kind <;> cases place <;> simp_all
  split at h <;> cases h

/-- What `entries` and `block` do with the given fuel. -/
structure EntriesRead (inp : Input) (tokens : List Token) (fuel : Nat) : Prop where
  list : ∀ place st a, Ready inp.source tokens st a → 2 * st.rest.length + 1 ≤ fuel →
    ReadsEntries inp tokens place st a (entries inp place fuel st).1 (entries inp place fuel st).2
  block : ∀ contents construct st a, Ready inp.source tokens st a → st.nextKind = .curlyOpen →
    2 * st.rest.length ≤ fuel →
    ReadsBlock inp tokens st a (block inp contents construct fuel st).1 (block inp contents construct fuel st).2

section

variable {fuel : Nat} {st : State} {a : Nat} {place : Place} {t : Token} {ts : List Token}

theorem EntriesRead.atRuleBody {b : Nat} {used : List Token} {st' : State} {head : AtRuleHead}
    (ih : EntriesRead inp tokens fuel) (name : String) (h : Reads inp.source tokens st a used st' b)
    (stop : head.stop = b) (opens : head.hasBlock → st'.nextKind = .curlyOpen)
    (enough : 2 * st'.rest.length ≤ fuel) :
    ∃ used' c, Reads inp.source tokens st a (used ++ used') (atRuleBody inp name fuel head st').2.2 c
      ∧ (atRuleBody inp name fuel head st').2.1 = c
      ∧ ByteSpan.LaidOut b c ((atRuleBody inp name fuel head st').1.map Parsed.span)
      ∧ ∀ p ∈ (atRuleBody inp name fuel head st').1, p.AllSound inp.source tokens := by
  unfold Grammar.atRuleBody
  split
  next has =>
    obtain ⟨used', c, -, reads, sound, span⟩ :=
      ih.block (atRuleContents name) .atRuleBlock st' b h.ready (opens has) enough
    refine ⟨used', c, h.trans reads, by simp only [span], ?_, by simpa using sound⟩
    simp only [List.map_cons, List.map_nil, span]
    exact ⟨Nat.le_refl b, reads.le, Nat.le_refl c⟩
  next => exact ⟨[], b, by simpa using h, stop, Nat.le_refl b, by simp⟩

theorem EntriesRead.atRule (ih : EntriesRead inp tokens fuel) (name : String) (h : Ready inp.source tokens st a)
    (e : st.rest = t :: ts) (enough : 2 * st.rest.length ≤ fuel) :
    let head := atRuleHead inp t.stop st.advance
    let body := Grammar.atRuleBody inp name fuel head.1 head.2
    let prelude := preludeOf inp name head.1.atoms
    ReadsEntry inp tokens st a (.node (.atRule name) ⟨t.start, body.2.1⟩ (prelude.1 ++ body.1))
      (body.2.2.discard prelude.2) := by
  have tiles := h.tiles
  rw [e] at tiles
  have step := h.advance e
  obtain ⟨used, b, reads, laid, sound, stop, opens⟩ := step.ready.atRuleHead
  have shorter := reads.length
  have := State.length_advance_lt e
  obtain ⟨used', c, all, ends, block, blocks⟩ :=
    ih.atRuleBody name (step.trans reads) stop opens (by omega)
  obtain ⟨prelude, preludes, dropped⟩ := preludeOf_spec name laid sound
  have start : t.start = a := tiles.start_eq
  simp only [ends, start]
  refine .of_span (by simp) (all.discard dropped) (.node (all.fits h.boundary) (by simp)
    (by simp [Node.Kind.isBlock]) ?_ ?_) rfl
  · rw [List.map_append]
    exact (prelude.of_le step.le).append block
  · intro p mem
    exact (List.mem_append.1 mem).elim (preludes p) (blocks p)

theorem EntriesRead.styleRule {list : Parsed} {start : Nat} {st' : State} (ih : EntriesRead inp tokens fuel)
    (h : Ready inp.source tokens st a) (head : ReadsHead inp tokens st a (.block list start) st')
    (enough : 2 * st.rest.length ≤ fuel) :
    let body := Grammar.block inp .declarations .ruleBlock fuel st'
    ReadsEntry inp tokens st a (.node .rule ⟨start, body.1.span.stop⟩ [list, body.1]) body.2 := by
  obtain ⟨rfl, used, b, reads, sound, laid, opens⟩ := head
  have := reads.length
  obtain ⟨used', c, some, reads', block, span⟩ := ih.block .declarations .ruleBlock st' b reads.ready opens (by omega)
  have all := reads.trans reads'
  simp only [span]
  refine .of_span (by simp [some]) all (.node (all.fits h.boundary) (by simp) (by simp [Node.Kind.isBlock]) ?_
    (by simp [sound, block])) rfl
  simp only [List.map_cons, List.map_nil, span]
  have beside : ByteSpan.LaidOut b c [⟨b, c⟩] := ⟨Nat.le_refl b, reads'.le, Nat.le_refl c⟩
  exact laid.append beside

/-- A token that cannot be read stands as raw text, among declarations with what follows it up to the next
semicolon. -/
theorem Ready.fault (place : Place) (fault : Token.Fault) (h : Ready inp.source tokens st a) (e : st.rest = t :: ts) :
    let reported := st.advance.report (.lexical fault t.span)
    let read := match place with
      | .declarations => rawDeclaration inp t.start t.stop reported
      | _ => (rawNode inp t.start t.stop, reported)
    ReadsEntry inp tokens st a read.1 read.2 := by
  have tiles := h.tiles
  rw [e] at tiles
  have start : t.start = a := tiles.start_eq
  have step := h.advance e
  have reported := step.report (.lexical fault t.span)
  have raw := ReadsEntry.raw (List.cons_ne_nil t []) h.boundary reported
  rw [start]
  cases place with
  | topLevel => exact raw
  | rules => exact raw
  | declarations =>
    exact reported.rawDeclaration (by simp) h.boundary step.le (Nat.le_refl _) step.ready.boundary (by simp)

/-- An entry covers the tokens that it is read from. -/
theorem EntriesRead.entry {p : Parsed} {st' : State} (ih : EntriesRead inp tokens fuel)
    (h : Ready inp.source tokens st a) (e : st.rest = t :: ts) (enough : 2 * st.rest.length ≤ fuel)
    (read : EntryRead inp place fuel st t ts p st') : ReadsEntry inp tokens st a p st' := by
  cases read with
  | comment text =>
    have step := h.advance e
    have tiles := h.tiles
    rw [e] at tiles
    have span : t.span.bytes = ⟨a, t.stop⟩ := by rw [← tiles.start_eq]; rfl
    refine .of_span (by simp) step (.leaf ?_ (by simp) rfl) span
    rw [span]
    exact step.fits h.boundary
  | fault fault eq =>
    subst eq
    exact h.fault place fault e
  | declaration property => exact h.declaration property e
  | atRule name _ _ headEq bodyEq =>
    subst headEq bodyEq
    exact ih.atRule name h e enough
  | raw style eq =>
    have head := h.ruleHead e style
    rw [eq] at head
    exact head
  | rule style eq bodyEq =>
    subst bodyEq
    have head := h.ruleHead e style
    rw [eq] at head
    exact ih.styleRule h head enough

theorem EntriesRead.entries_succ (ih : EntriesRead inp tokens fuel) (h : Ready inp.source tokens st a)
    (enough : 2 * st.rest.length + 1 ≤ fuel + 1) :
    ReadsEntries inp tokens place st a (entries inp place (fuel + 1) st).1 (entries inp place (fuel + 1) st).2 := by
  cases e : st.rest with
  | nil =>
    rw [entries_nil inp place _ e]
    exact ⟨[], a, .refl h, Nat.le_refl a, by simp, by simp, .inl (by simp [State.nextKind, e])⟩
  | cons t ts =>
    have step := h.advance e
    have shorter := State.length_advance_lt e
    have later {st' : State} (b : Nat) (ready : Ready inp.source tokens st' b)
        (less : st'.rest.length < st.rest.length) :=
      ih.list place st' b ready (by omega)
    cases entries_step inp place fuel e with
    | finish k eq =>
      rw [eq]
      refine ⟨[], a, .refl h, Nat.le_refl a, by simp, by simp, ?_⟩
      rw [nextKind_of_rest e]
      exact entryOf_eq_finish k
    | separator k eq =>
      rw [eq]
      exact .skip step (by simpa using .inl (entryOf_eq_separator k)) (later _ step.ready shorter)
    | strayBrace k eq =>
      rw [eq]
      have reported := step.report (.strayBrace t.span)
      obtain ⟨top, close⟩ := entryOf_eq_strayBrace k
      refine .skip reported ?_ (later _ reported.ready shorter)
      simp [LeftOut, top, close, State.report]
    | entry read eq =>
      rw [eq]
      exact .cons (ih.entry h e (by omega) read) fun b => later b

/-! ## Blocks -/

/-- The end of a block takes its closing brace, unless the tokens end first. -/
theorem Reads.closeBlock {st' : State} {b : Nat} {used : List Token} (h : Reads inp.source tokens st a used st' b)
    (ended : st'.nextKind = .eof ∨ st'.nextKind = .curlyClose) :
    ∃ closing c, Reads inp.source tokens st a (used ++ closing) (closeBlock inp st') c
      ∧ b ≤ c ∧ (closing = [] ∧ (∀ t ∈ (closeBlock inp st').rest, t.kind = .eof)
        ∨ ∃ closer, closing = [closer] ∧ closer.kind = .curlyClose ∧ closer.stop = c) := by
  unfold Grammar.closeBlock
  split
  next k =>
    obtain ⟨t, ts, e, kind⟩ := rest_of_nextKind (by rw [k]; simp)
    exact ⟨[t], t.stop, (h.advance e).leave, (h.ready.advance e).le, .inr ⟨t, rfl, kind.trans k, rfl⟩⟩
  next k =>
    refine ⟨[], b, by simpa using (h.report _).leave, Nat.le_refl b, .inl ⟨rfl, ?_⟩⟩
    exact h.ready.rest_of_eof (ended.resolve_right k)

/-- What was read from an opening brace to the bracket that closes it is a block around the tokens
between. -/
theorem Reads.encloses {st' : State} {b : Nat} {t : Token} {inner closing : List Token} {parts : List ByteSpan}
    (reads : Reads inp.source tokens st a ([t] ++ (inner ++ closing)) st' b) (h : Ready inp.source tokens st a)
    (opens : t.kind = .curlyOpen)
    (closed : closing = [] ∧ (∀ u ∈ st'.rest, u.kind = .eof)
      ∨ ∃ closer, closing = [closer] ∧ closer.kind.closing?.isSome ∧ closer.stop = b)
    (covered : ∀ u ∈ inner, u.kind.isFiller ∨ ∃ s ∈ parts, s.holds u) : Encloses tokens ⟨a, b⟩ parts := by
  obtain ⟨before, suffix⟩ := h.suffix
  have tiles := h.tiles
  rw [reads.rest] at tiles suffix
  refine ⟨before, t, inner, closing, st'.rest, by simp [← suffix], opens, tiles.start_eq, fun u mem => ?_, closed,
    covered⟩
  exact reads.holds (by simpa using mem)

/-- A block that is nested too deep holds the text up to its closing bracket. -/
theorem Ready.tooDeep (contents : Contents) (h : Ready inp.source tokens st a) (e : st.rest = t :: ts)
    (opens : t.kind = .curlyOpen) :
    let skipped := (st.advance.report (.tooDeep t.span)).skipNested
    ReadsBlock inp tokens st a
      (.node (.block contents) ⟨t.start, skipped.1.stop⟩ [rawNode inp t.stop skipped.1.inner]) skipped.2 := by
  have tiles := h.tiles
  rw [e] at tiles
  have start : t.start = a := tiles.start_eq
  have step := h.advance e
  have reported := step.report (.tooDeep t.span)
  obtain ⟨inner, closing, passes, lo, hi, boundary, within, closed⟩ :=
    reported.ready.skipNested (reported.started (.inl (List.cons_ne_nil t [])))
  have all := reported.trans passes
  obtain ⟨span, raw⟩ := rawNode_spec tokens lo step.ready.boundary boundary
  simp only [start]
  refine ⟨_, _, by simp, all, .node (all.fits h.boundary) (by simp) (fun _ => ?_) ?_ (by simpa using raw), rfl⟩
  · refine all.encloses h opens (closed.imp_left fun ⟨nil, eof⟩ => ⟨nil, by simp [eof]⟩) ?_
    intro u mem
    refine .inr ⟨_, List.mem_map_of_mem (List.mem_singleton_self _), ?_⟩
    rw [span]
    exact ByteSpan.holds_iff.2 ⟨(passes.within u (by simp [mem])).1, within u mem⟩
  · simp only [List.map_cons, List.map_nil, span]
    exact ⟨step.le, lo, hi⟩

/-- A block around entries that were read. -/
theorem ReadsEntries.block {contents : Contents} {ps : List Parsed} {inside st' : State}
    (h : Ready inp.source tokens st a) (e : st.rest = t :: ts) (opens : t.kind = .curlyOpen)
    (entered : Reads inp.source tokens st a [t] inside t.stop)
    (entries : ReadsEntries inp tokens (.ofContents contents) inside t.stop ps st') :
    ReadsBlock inp tokens st a (.node (.block contents) ⟨t.start, (closeBlock inp st').lastOffset⟩ ps)
      (closeBlock inp st') := by
  have tiles := h.tiles
  rw [e] at tiles
  have start : t.start = a := tiles.start_eq
  obtain ⟨used, b, reads, laid, sound, covered, ended⟩ := entries
  have nested : Place.ofContents contents ≠ .topLevel := by cases contents <;> simp [Place.ofContents]
  obtain ⟨closing, c, all, le, closed⟩ := (entered.trans reads).closeBlock (ended.imp_right And.right)
  rw [start, all.lastOffset_eq (.inl (by simp))]
  refine ⟨_, c, by simp, all, .node (all.fits h.boundary) (by simp) (fun _ => ?_) ?_ sound, rfl⟩
  · refine all.encloses h opens (closed.imp_right ?_) fun u mem => ?_
    · exact fun ⟨closer, one, curly, stop⟩ => ⟨closer, one, by simp [curly, Token.Kind.closing?], stop⟩
    · refine (covered u mem).imp ?_ fun ⟨p, hp, holds⟩ => ⟨p.span, List.mem_map_of_mem hp, holds⟩
      exact fun out => out.resolve_right fun stray => nested stray.1
  · exact (laid.of_le entered.le).to_le le

theorem EntriesRead.block_succ (ih : EntriesRead inp tokens fuel) (contents : Contents)
    (construct : Diagnostic.Construct) (h : Ready inp.source tokens st a) (opens : st.nextKind = .curlyOpen)
    (enough : 2 * st.rest.length ≤ fuel + 1) :
    ReadsBlock inp tokens st a (Grammar.block inp contents construct (fuel + 1) st).1
      (Grammar.block inp contents construct (fuel + 1) st).2 := by
  obtain ⟨t, ts, e, kind⟩ := rest_of_opens opens
  rw [Grammar.block.eq_def]
  simp only [e]
  split
  next => exact h.tooDeep contents e kind
  next =>
    have entered := (h.advance e).enter ⟨construct, t.span⟩
    have shorter : (st.advance.enter ⟨construct, t.span⟩).rest.length < st.rest.length :=
      State.length_advance_lt e
    exact (ih.list (.ofContents contents) _ _ entered.ready (by omega)).block h e kind entered

/-- Reading covers every token, with as much fuel as the list of tokens is long. -/
theorem entriesRead (inp : Input) (tokens : List Token) (fuel : Nat) : EntriesRead inp tokens fuel := by
  induction fuel with
  | zero =>
    refine ⟨fun place st a h enough => by omega, fun contents construct st a h opens enough => ?_⟩
    have some := length_pos_of_opens opens
    omega
  | succ fuel ih =>
    exact ⟨fun _ _ _ h enough => ih.entries_succ h enough,
      fun contents construct _ _ h opens enough => ih.block_succ contents construct h opens enough⟩

end

end AboveFold.Grammar
