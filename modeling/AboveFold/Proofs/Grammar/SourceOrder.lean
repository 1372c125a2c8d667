import AboveFold.Proofs.Grammar.Important
import AboveFold.Proofs.Grammar.Located
import AboveFold.Proofs.Grammar.Undamaged

/-!
# The order of diagnostics

Diagnostics are reported where reading stands or at the token that was just read, so that they come in the order of the
source. There are two that look back. A missing value is reported at its property, and nothing else can have been
reported in between, as a value counts as missing only if it holds nothing but blanks and the flag. A missing selector
is reported once the whole list of selectors was read, behind whatever is wrong further on in the list. It is the only
diagnostic that comes late (`Stylesheet.errors_precede`).
-/

namespace AboveFold.Diagnostic

/-- The byte where a diagnostic starts. -/
def offset (d : Diagnostic) : Nat := d.span.start.offset

/-- `d` may come before `e`: it does not start behind `e`, or `e` is a missing selector and `d` is none. -/
def Precedes (d e : Diagnostic) : Prop :=
  d.offset ≤ e.offset ∨ e.kind = .emptySelector ∧ d.kind ≠ .emptySelector

end AboveFold.Diagnostic

namespace AboveFold.Parsed
open Grammar

variable {p : Parsed} {atoms : List Parsed}

/-- What a value may hold that counts as missing: blanks and comments, and the two parts of `!important`. -/
def IsHollow (p : Parsed) : Prop := p.kind.isTrivia ∨ p.kind.ident?.isSome ∨ p.kind = .other "!"

theorem IsHollow.of_white (white : p.isWhitespace) : p.IsHollow := by
  refine .inl ?_
  cases k : p.kind <;> simp_all [isWhitespace, Node.Kind.isWhitespace, Node.Kind.isTrivia]

theorem isHollow_of_trim_eq_nil (empty : trim atoms = []) : ∀ p ∈ atoms, p.IsHollow := by
  intro p mem
  rcases white_or_mem_trim mem with white | kept
  · exact .of_white white
  · simp [empty] at kept

theorem isHollow_of_important {i : Nat} (e : importantAt? (trim atoms) = some i)
    (empty : trim ((trim atoms).take i) = []) : ∀ p ∈ atoms, p.IsHollow := by
  obtain ⟨front, bang, gap, word, trail, rfl, mark, trivia, ⟨name, ident, -⟩, white, same⟩ := importantAt?_trim e
  rw [same] at empty
  rw [List.forall_mem_append, List.forall_mem_cons, List.forall_mem_append, List.forall_mem_cons]
  refine ⟨isHollow_of_trim_eq_nil empty, .inr (.inr mark), fun p mem => .inl (trivia p mem), ?_,
    fun p mem => .of_white (white p mem)⟩
  exact .inr (.inl (by rw [ident]; rfl))

end AboveFold.Parsed

namespace AboveFold.Grammar
open Source Node Parsed Token

/-- The byte where reading stands: the start of the next token, or the end of the last. -/
def State.here (st : State) : Nat :=
  match st.rest with
  | [] => st.lastOffset
  | t :: _ => t.start

/-- What was reported is in order and does not start behind the byte where reading stands. Missing selectors start at
`start` at the latest, the end of the last selector while a list of selectors is read. -/
structure State.InOrder (st : State) (start : Nat) : Prop where
  within : ∀ d ∈ st.errors, d.offset ≤ st.here
  missing : ∀ d ∈ st.errors, d.kind = .emptySelector → d.offset ≤ start
  inOrder : st.errors.Pairwise fun later earlier => earlier.Precedes later

variable {inp : Input} {source : String} {tokens used : List Token} {st st' : State} {t : Token} {ts : List Token}
  {d : Diagnostic} {a b fuel start start' : Nat} {place : Place} {p : Parsed}

/-! ## Where reading stands -/

theorem State.endSpan_offset (inp : Input) (st : State) : (st.endSpan inp).start.offset = st.lastOffset := by
  unfold State.endSpan State.lastOffset
  cases st.lastEnd <;> rfl

theorem State.nextSpan_offset (inp : Input) (st : State) : (st.nextSpan inp).start.offset = st.here := by
  cases e : st.rest with
  | nil => simp only [State.nextSpan, State.here, e, State.endSpan_offset]
  | cons t ts => simp only [State.nextSpan, State.here, e, Token.start]

theorem Ready.here_of_cons (ready : Ready source tokens st a) (e : st.rest = t :: ts) : st.here = a ∧ t.start = a := by
  have tiles := ready.tiles
  rw [e] at tiles
  have start : t.start = a := tiles.start_eq
  exact ⟨by rw [State.here, e]; exact start, start⟩

theorem Ready.here_of_started (ready : Ready source tokens st a) (started : st.lastEnd ≠ none) : st.here = a := by
  cases e : st.rest with
  | nil =>
    rw [State.here, e]
    exact ready.lastOffset_eq started
  | cons t ts => exact (ready.here_of_cons e).1

theorem Ready.here_le (ready : Ready source tokens st a) : st.here ≤ a := by
  by_cases started : st.lastEnd = none
  · cases e : st.rest with
    | nil =>
      rw [State.here, e]
      simp [State.lastOffset, started]
    | cons t ts => exact Nat.le_of_eq (ready.here_of_cons e).1
  · exact Nat.le_of_eq (ready.here_of_started started)

theorem Reads.here_le (reads : Reads source tokens st a used st' b) (ready : Ready source tokens st a) :
    st.here ≤ st'.here := by
  by_cases known : used ≠ [] ∨ st.lastEnd ≠ none
  · rw [reads.ready.here_of_started (reads.started known)]
    exact Nat.le_trans ready.here_le reads.le
  · obtain ⟨rfl, fresh⟩ : used = [] ∧ st.lastEnd = none := by simpa using known
    have same : st.rest = st'.rest := reads.rest
    cases e : st.rest with
    | nil =>
      rw [State.here, e]
      simp [State.lastOffset, fresh]
    | cons t ts => simp only [State.here, ← same, e, Nat.le_refl]

/-- The place of a byte between characters starts at that byte. -/
theorem Input.placeOf_offset (boundary : IsBoundary inp.source a) (b : Nat) :
    (inp.placeOf ⟨a, b⟩).start.offset = a := by
  obtain ⟨before, after, split, rfl⟩ := boundary
  exact congrArg Position.offset (Position.of_append split)

namespace State.InOrder

/-! ## Steps -/

theorem mono (h : st.InOrder start) (le : start ≤ start') : st.InOrder start' :=
  ⟨h.within, fun d mem missing => Nat.le_trans (h.missing d mem missing) le, h.inOrder⟩

/-- Before a list of selectors is read, all that was reported starts where it does or before. -/
theorem settle (h : st.InOrder start) (le : st.here ≤ start') : st.InOrder start' :=
  ⟨h.within, fun d mem _ => Nat.le_trans (h.within d mem) le, h.inOrder⟩

/-- Reading goes on and reports nothing. -/
theorem go (h : st.InOrder start) (le : st.here ≤ st'.here) (same : st'.errors = st.errors) : st'.InOrder start := by
  refine ⟨fun d mem => ?_, ?_, ?_⟩
  · rw [same] at mem
    exact Nat.le_trans (h.within d mem) le
  · rw [same]
    exact h.missing
  · rw [same]
    exact h.inOrder

theorem discard (h : st.InOrder start) (ps : List Parsed) : (st.discard ps).InOrder start :=
  h.go (Nat.le_refl _) rfl

theorem enter (h : st.InOrder start) (o : Diagnostic.Opening) : (st.enter o).InOrder start :=
  h.go (Nat.le_refl _) rfl

theorem leave (h : st.InOrder start) : st.leave.InOrder start := h.go (Nat.le_refl _) rfl

theorem reads (h : st.InOrder start) (ready : Ready source tokens st a) (reads : Reads source tokens st a used st' b)
    (same : st'.errors = st.errors) : st'.InOrder start :=
  h.go (reads.here_le ready) same

theorem advance (h : st.InOrder start) (ready : Ready source tokens st a) (e : st.rest = t :: ts) :
    st.advance.InOrder start :=
  h.reads ready (ready.advance e) (State.errors_advance st)

theorem report (h : st.InOrder start) (other : d.kind ≠ .emptySelector) (behind : ∀ e ∈ st.errors, e.offset ≤ d.offset)
    (reached : d.offset ≤ st.here) : (st.report d).InOrder start where
  within := List.forall_mem_cons.2 ⟨reached, h.within⟩
  missing := List.forall_mem_cons.2 ⟨fun missing => absurd missing other, h.missing⟩
  inOrder := List.pairwise_cons.2 ⟨fun e mem => .inl (behind e mem), h.inOrder⟩

theorem report_here (h : st.InOrder start) (other : d.kind ≠ .emptySelector) (at_here : d.offset = st.here) :
    (st.report d).InOrder start :=
  h.report other (at_here ▸ h.within) (Nat.le_of_eq at_here)

/-- The next token is reported. -/
theorem report_next (h : st.InOrder start) (other : d.kind ≠ .emptySelector) (at_next : d.span = st.nextSpan inp) :
    (st.report d).InOrder start :=
  h.report_here other (by rw [Diagnostic.offset, at_next, State.nextSpan_offset])

/-- The end of what was read is reported. -/
theorem report_end (h : st.InOrder start) (ready : Ready source tokens st a) (started : st.lastEnd ≠ none)
    (other : d.kind ≠ .emptySelector) (at_end : d.span = st.endSpan inp) : (st.report d).InOrder start := by
  refine h.report_here other ?_
  rw [Diagnostic.offset, at_end, State.endSpan_offset, ready.lastOffset_eq started, ready.here_of_started started]

/-- The token that was just read is reported. -/
theorem report_token (h : st.InOrder start) (ready : Ready source tokens st a) (e : st.rest = t :: ts)
    (other : d.kind ≠ .emptySelector) (at_token : d.span = t.span) : (st.advance.report d).InOrder start := by
  have offset : d.offset = st.here := by rw [Diagnostic.offset, at_token, State.here, e]; rfl
  refine (h.advance ready e).report other ?_ ?_
  · rw [State.errors_advance, offset]
    exact h.within
  · rw [offset]
    exact (ready.advance e).here_le ready

/-- Brackets that are nested too deep are reported and passed over. -/
theorem tooDeep (h : st.InOrder start) (ready : Ready source tokens st a) (e : st.rest = t :: ts) :
    (st.advance.report (.tooDeep t.span)).skipNested.2.InOrder start := by
  have reported := (ready.advance e).report (.tooDeep t.span)
  obtain ⟨inner, closing, passes, -⟩ := reported.ready.skipNested (reported.started (.inl (by simp)))
  exact (h.report_token ready e (by nofun) rfl).reads reported.ready passes rfl

/-! ## Component values -/

theorem closeGroup (h : st.InOrder start) (ready : Ready inp.source tokens st a) (started : st.lastEnd ≠ none)
    (g : Group) : (closeGroup inp g st).InOrder start := by
  unfold Grammar.closeGroup
  simp only
  split
  next => exact (h.report_end ready started (by nofun) rfl).leave
  split
  next more _ =>
    obtain ⟨t, ts, e, -⟩ := rest_of_nextKind more
    exact (h.advance ready e).leave
  next => exact (h.report_next (by nofun) rfl).leave

end State.InOrder

theorem leafError_eq_some (wrong : leafError inp t = some d) : d.kind ≠ .emptySelector ∧ d.span = t.span := by
  unfold leafError at wrong
  split at wrong <;> cases wrong <;> exact ⟨by nofun, rfl⟩

/-- While component values are read, what was reported stays in order, and no selector is reported missing. -/
theorem State.InOrder.keepsValues (inp : Input) (tokens : List Token) (start : Nat) :
    KeepsValues inp tokens fun st => st.InOrder start where
  advance ready e h := h.advance ready e
  discard ps h := h.discard ps
  leafError ready e wrong h :=
    have ⟨other, there⟩ := leafError_eq_some wrong
    h.report_token ready e other there
  tooDeep ready e h := h.tooDeep ready e
  enter _ ready e h := (h.advance ready e).enter _
  closeGroup g ready started h := h.closeGroup ready started g

theorem State.InOrder.components (h : st.InOrder start) (ready : Ready inp.source tokens st a)
    (stop : Token.Kind → Bool) : (components inp stop st).2.InOrder start :=
  (keepsValues inp tokens start).components stop ready h

/-! ## Heads of entries -/

namespace State.InOrder

/-- A missing selector is reported at the end of the selector before, late or not. -/
theorem missingSelector (h : st.InOrder start) (boundary : IsBoundary inp.source start) (reached : start ≤ st.here) :
    (st.report (.missingSelector (inp.placeOf ⟨start, start⟩))).InOrder start := by
  have offset : (Diagnostic.missingSelector (inp.placeOf ⟨start, start⟩)).offset = start :=
    Input.placeOf_offset boundary start
  refine ⟨List.forall_mem_cons.2 ⟨Nat.le_trans (Nat.le_of_eq offset) reached, h.within⟩,
    List.forall_mem_cons.2 ⟨fun _ => Nat.le_of_eq offset, h.missing⟩,
    List.pairwise_cons.2 ⟨fun e mem => ?_, h.inOrder⟩⟩
  by_cases missing : e.kind = .emptySelector
  · exact .inl (Nat.le_trans (h.missing e mem missing) (Nat.le_of_eq offset.symm))
  · exact .inr ⟨rfl, missing⟩

theorem selectors {groups : List (List Parsed)} (h : st.InOrder start) (boundary : IsBoundary inp.source start)
    (laid : ByteSpan.LaidOut start b (groups.flatten.map Parsed.span))
    (all : ∀ p ∈ groups.flatten, p.AllSound inp.source tokens) (reached : b ≤ st.here) :
    ∃ last, (Grammar.selectors inp start groups st).2.InOrder last := by
  induction groups generalizing start st with
  | nil => exact ⟨start, h⟩
  | cons group groups ih =>
    rw [List.flatten_cons, List.map_append] at laid
    rw [List.flatten_cons, List.forall_mem_append] at all
    obtain ⟨mid, first, later⟩ := ByteSpan.laidOut_append.1 laid
    have le : start ≤ st.here := Nat.le_trans laid.le reached
    rw [Grammar.selectors]
    split
    next span covers =>
      have sub := trim_sublist group
      obtain ⟨lo, hi, fits, -⟩ := fits_cover (first.sublist (sub.map _)) (fun p mem => all.1 p (sub.subset mem)) covers
      split
      next =>
        have further := h.mono (Nat.le_trans lo fits.start_le_stop)
        exact ih further fits.stop (later.of_le hi) all.2 reached
      next =>
        exact ih ((h.discard _).missingSelector boundary le) boundary (later.of_le first.le) all.2 reached
    next => exact ih (h.missingSelector boundary le) boundary (later.of_le first.le) all.2 reached

theorem ruleHead (h : st.InOrder start) (ready : Ready inp.source tokens st a) (e : st.rest = t :: ts)
    (style : entryOf place (t :: ts) = .styleRule) : ∃ last, (Grammar.ruleHead inp place st).2.InOrder last := by
  obtain ⟨here, -⟩ := ready.here_of_cons e
  obtain ⟨used, b, reads, adjoin, sound, -, ended⟩ := ready.components (endsSelectors place)
  have all := (h.settle (Nat.le_of_eq here)).components ready (endsSelectors place)
  unfold Grammar.ruleHead
  simp only [st.nextSpan_offset, here]
  split
  next opens =>
    have stands : (Grammar.components inp (endsSelectors place) st).2.here = b := by
      obtain ⟨u, us, more, -⟩ := rest_of_opens opens
      exact (reads.ready.here_of_cons more).1
    have sub := flatten_splitAtCommas_sublist (Grammar.components inp (endsSelectors place) st).1
    obtain ⟨last, list⟩ := all.selectors ready.boundary (adjoin.laidOut.sublist (sub.map _))
      (fun p mem => sound p (sub.subset mem)) (Nat.le_of_eq stands.symm)
    exact ⟨last, list.discard _⟩
  next eof =>
    -- The first token was read, as only a brace ends the selectors before it.
    have taken : used ≠ [] := by
      rintro rfl
      have same : (Grammar.components inp (endsSelectors place) st).2.nextKind = t.kind :=
        nextKind_of_rest (reads.rest.symm.trans e)
      exact (not_endsSelectors_of_styleRule style).1 (same.symm.trans eof)
    exact ⟨a, (all.report_end reads.ready (reads.started (.inl taken)) (by nofun) rfl).discard _⟩
  next => exact ⟨a, (all.report_next (by nofun) rfl).discard _⟩

theorem atRuleHead (h : st.InOrder start) (ready : Ready inp.source tokens st a) (nameEnd : Nat) :
    (Grammar.atRuleHead inp nameEnd st).2.InOrder start := by
  obtain ⟨used, b, reads, -⟩ := ready.components fun k => k = .semicolon || k = .curlyOpen || k = .curlyClose
  have all := h.components ready fun k => k = .semicolon || k = .curlyOpen || k = .curlyClose
  unfold Grammar.atRuleHead
  simp only
  split
  next k =>
    obtain ⟨u, us, e, -⟩ := rest_of_nextKind (by rw [k]; simp)
    exact all.advance reads.ready e
  next => exact all
  next => exact all

end State.InOrder

/-! ## Values that count as missing -/

/-- The token at the front of a hollow value is a single one, and nothing is wrong with it. -/
theorem Headed.single_of_isHollow (h : Headed inp t p) (spells : Spells inp.source tokens) (mem : t ∈ tokens)
    (more : t.kind ≠ .eof) (hollow : p.IsHollow) : Group.of? t.kind = none ∧ leafError inp t = none := by
  obtain ⟨-, trivia, ident⟩ := h.kind
  rw [IsHollow, trivia, ident, h.bang_iff spells mem more] at hollow
  unfold Group.of? leafError
  cases k : t.kind <;> simp_all [Token.Kind.isTrivia, Token.Kind.ident?]

theorem component_errors (spells : Spells inp.source tokens) (e : st.rest = t :: ts) (mem : t ∈ tokens)
    (more : t.kind ≠ .eof) (enough : 2 * st.rest.length ≤ fuel) (hollow : (component inp fuel st).1.IsHollow) :
    (component inp fuel st).2.errors = st.errors := by
  have headed := ((componentsSurvey inp fuel).one st t ts e enough).1
  obtain ⟨single, sound⟩ := headed.single_of_isHollow spells mem more hollow
  cases fuel with
  | zero => simp [e] at enough
  | succ fuel =>
    rw [component.eq_def]
    simp only [e, single, leaf, sound]
    exact State.errors_advance st

/-- **While a value is read that counts as missing, nothing is reported.** -/
theorem componentList_errors (spells : Spells inp.source tokens) (stop : Token.Kind → Bool)
    (ready : Ready inp.source tokens st a) (enough : 2 * st.rest.length + 1 ≤ fuel)
    (hollow : ∀ p ∈ (componentList inp stop fuel st).1, p.IsHollow) :
    (componentList inp stop fuel st).2.errors = st.errors := by
  induction fuel generalizing st a with
  | zero => omega
  | succ fuel ih =>
    rw [componentList] at hollow ⊢
    split at hollow
    next ends => simp only [ends, if_true]
    next ends =>
      obtain ⟨t, ts, e, kind⟩ := rest_of_nextKind (show st.nextKind ≠ .eof by simp_all)
      have mem : t ∈ tokens := ready.suffix.subset (by simp [e])
      obtain ⟨used, b, taken, reads, -⟩ := (componentsRead inp tokens fuel).one st a ready (by simp [e]) (by omega)
      have := reads.length
      have := List.length_pos_iff.2 taken
      rw [List.forall_mem_cons] at hollow
      simp only [ends]
      exact (ih reads.ready (by omega) hollow.2).trans
        (component_errors spells e mem (by simp_all) (by omega) hollow.1)

/-- A declaration whose value was read reports nothing, or that its value is missing. -/
theorem declarationOf_reports (inp : Input) (property : String) (start colonEnd : Nat) (atoms : List Parsed)
    (st : State) :
    (∃ ps, (declarationOf inp property start colonEnd atoms st).2 = st.discard ps)
      ∨ (∀ p ∈ atoms, p.IsHollow) ∧ ∃ stop ps, (declarationOf inp property start colonEnd atoms st).2
        = (st.report (.missingValue property (inp.placeOf ⟨start, stop⟩))).discard ps := by
  have twice (st : State) (ps qs : List Parsed) : (st.discard ps).discard qs = st.discard (qs ++ ps) := by
    simp only [State.discard, List.append_assoc]
  unfold declarationOf
  cases e : importantAt? (trim atoms) with
  | none =>
    simp only [e, twice]
    split
    next empty =>
      have none : trim atoms = [] := by simp_all
      exact .inr ⟨isHollow_of_trim_eq_nil none, _, _, twice (st.report _) ..⟩
    next => exact .inl ⟨_, rfl⟩
  | some i =>
    simp only [e, twice]
    split
    next empty =>
      have none : trim ((trim atoms).take i) = [] := by simp_all
      exact .inr ⟨isHollow_of_important e none, _, _, twice (st.report _) ..⟩
    next => exact .inl ⟨_, rfl⟩

namespace State.InOrder

/-! ## Declarations -/

theorem rawDeclaration (h : st.InOrder start) (ready : Ready inp.source tokens st a) (lo stop : Nat) :
    (Grammar.rawDeclaration inp lo stop st).2.InOrder start := by
  obtain ⟨used, b, reads, -⟩ := ready.skipDeclaration st.rest.length stop (Nat.le_refl _)
  exact h.reads ready reads (skipDeclaration_errors ..)

theorem declaration (h : st.InOrder start) (spells : Spells inp.source tokens) (ready : Ready inp.source tokens st a)
    (e : st.rest = t :: ts) (property : String) : (Grammar.declaration inp t property st).2.InOrder start := by
  have name := ready.advance e
  obtain ⟨here, first⟩ := ready.here_of_cons e
  obtain ⟨trivia, mid, skip, -⟩ := name.ready.skipTrivia
  have read := name.trans skip
  have value := (h.advance ready e).reads name.ready skip rfl
  unfold Grammar.declaration
  simp only
  split
  next colon _ e' =>
    have colonRead := read.advance e'
    obtain ⟨used, b, reads, -⟩ := colonRead.ready.components endsDeclaration
    have all := (value.advance read.ready e').components colonRead.ready endsDeclaration
    rcases declarationOf_reports inp property t.start colon.stop.offset
      (Grammar.components inp endsDeclaration st.advance.skipTrivia.advance).1
      (Grammar.components inp endsDeclaration st.advance.skipTrivia.advance).2 with
      ⟨ps, eq⟩ | ⟨hollow, stop, ps, eq⟩
    · rw [eq]
      exact all.discard ps
    · rw [eq]
      have silent :
          (Grammar.components inp endsDeclaration st.advance.skipTrivia.advance).2.errors = st.errors := by
        rw [Grammar.components, componentList_errors spells _ colonRead.ready (Nat.le_refl _) hollow,
          State.errors_advance]
        exact State.errors_advance st
      have offset : (Diagnostic.missingValue property (inp.placeOf ⟨t.start, stop⟩)).span.start.offset = st.here := by
        rw [first, here]
        exact Input.placeOf_offset ready.boundary stop
      refine (all.report (by nofun) ?_ ?_).discard ps
      · rw [silent, Diagnostic.offset, offset]
        exact h.within
      · rw [Diagnostic.offset, offset]
        exact (colonRead.trans reads).here_le ready
  next =>
    exact (value.report_next (by nofun) rfl).rawDeclaration (read.report _).ready _ _

/-! ## Entries and blocks -/

theorem closeBlock (h : st.InOrder start) (ready : Ready inp.source tokens st a) (started : st.lastEnd ≠ none) :
    (Grammar.closeBlock inp st).InOrder start := by
  unfold Grammar.closeBlock
  split
  next closes =>
    obtain ⟨t, ts, e, -⟩ := rest_of_nextKind (show st.nextKind ≠ .eof by simp [closes])
    exact (h.advance ready e).leave
  next =>
    exact (h.report_end ready started (by nofun) rfl).leave

end State.InOrder

/-- Whatever is read, what was reported stays in order. -/
theorem State.InOrder.keeps (inp : Input) (spells : Spells inp.source tokens) :
    Keeps inp tokens fun st => ∃ start, st.InOrder start where
  toKeepsValues := .of_forall fun start => keepsValues inp tokens start
  strayBrace ready e := fun ⟨start, h⟩ => ⟨start, h.report_token ready e (by nofun) rfl⟩
  fault _ ready e := fun ⟨start, h⟩ => ⟨start, h.report_token ready e (by nofun) rfl⟩
  rawDeclaration lo stop ready := fun ⟨start, h⟩ => ⟨start, h.rawDeclaration ready lo stop⟩
  declaration property ready e := fun ⟨start, h⟩ => ⟨start, h.declaration spells ready e property⟩
  atRuleHead ready := fun ⟨start, h⟩ => ⟨start, h.atRuleHead ready _⟩
  ruleHead ready e style := fun ⟨_, h⟩ => h.ruleHead ready e style
  closeBlock ready started := fun ⟨start, h⟩ => ⟨start, h.closeBlock ready started⟩

end AboveFold.Grammar

namespace AboveFold.Stylesheet
open Source Grammar

/-- **Diagnostics come in the order of the source, except for missing selectors**: of any two, the one that is reported
later does not start before the other, unless it is a missing selector and the other is none. -/
theorem errors_precede (source : String) (path : Option String) :
    (parse source path).errors.Pairwise Diagnostic.Precedes := by
  obtain ⟨here, boundary, tiles⟩ := Token.tiles_tokens source path
  have start : (State.start (Token.tokens source path)).InOrder 0 :=
    ⟨by simp [State.start], by simp [State.start], .nil⟩
  have keeps := State.InOrder.keeps ⟨source, path⟩ (Token.spells_tokens source path)
  obtain ⟨last, read⟩ : ∃ last, State.InOrder _ last :=
    (keeps.entries _).list .topLevel _ _ (Ready.start boundary tiles) (Nat.le_refl _) ⟨0, start⟩
  exact List.pairwise_reverse.2 read.inOrder

/-- Where no selector is missing, diagnostics come in the order of the source. -/
theorem errors_inOrder (source : String) (path : Option String)
    (none : ∀ d ∈ (parse source path).errors, d.kind ≠ .emptySelector) :
    (parse source path).errors.Pairwise fun d e => d.offset ≤ e.offset :=
  (errors_precede source path).imp_of_mem fun _ mem precedes => precedes.resolve_right fun late => none _ mem late.1

/-- The selector that is missing before the comma is reported behind the bracket, the missing value at its property. -/
example : (parse ",)\x7b\x7d a\x7bb;c:\x7d" none).errors.map Diagnostic.offset = [1, 0, 8, 9] := by decide +kernel

end AboveFold.Stylesheet
