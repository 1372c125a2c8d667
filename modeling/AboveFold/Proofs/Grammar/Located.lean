import AboveFold.Proofs.Grammar.Keeping
import AboveFold.Proofs.Token.Positions
import AboveFold.Stylesheet.Basic

/-!
# Diagnostics point where their bytes are

The places that diagnostics name come from tokens, from the end of the token that was read last, or are worked out for a
range of bytes. Each is a range of the source (`Span.Resolved`), and what is read keeps to that (`State.Located`). In a
source without a byte order mark the line and the columns are therefore those of the bytes (`Stylesheet.errors_located`).
Behind a mark they are not: tokens count from behind the mark, and what is worked out counts the mark as a column.
-/

namespace AboveFold.Text

variable {cs : List Char} {n m : Nat}

theorem floorPrefix_prefix (cs : List Char) (n : Nat) : floorPrefix cs n <+: cs := by
  induction cs generalizing n with
  | nil => exact List.nil_prefix
  | cons c cs ih =>
    rw [floorPrefix]
    split
    next => exact List.cons_prefix_cons.2 ⟨rfl, ih _⟩
    next => exact List.nil_prefix

theorem byteSize_floorPrefix_le (cs : List Char) (le : n ≤ m) :
    byteSize (floorPrefix cs n) ≤ byteSize (floorPrefix cs m) := by
  induction cs generalizing n m with
  | nil => exact Nat.le_refl _
  | cons c cs ih =>
    rw [floorPrefix, floorPrefix]
    split
    next fits =>
      rw [if_pos (Nat.le_trans fits le)]
      exact Nat.add_le_add_left (ih (Nat.sub_le_sub_right le _)) _
    next => exact Nat.zero_le _

end AboveFold.Text

namespace AboveFold.Source
open Text Token

variable {source : String} {path : Option String} {s : Span} {n m : Nat}

/-- A position that is worked out is the end of a front of the source. -/
theorem Position.of_spec (source : String) (n : Nat) :
    ∃ after, source.toList = floorPrefix source.toList n ++ after
      ∧ Position.of source n = .after (floorPrefix source.toList n) := by
  obtain ⟨after, e⟩ := floorPrefix_prefix source.toList n
  exact ⟨after, e.symm, by rw [Position.of, Cursor.walk_start]⟩

theorem Position.isBoundary_of (source : String) (n : Nat) : IsBoundary source (Position.of source n).offset := by
  obtain ⟨after, e, eq⟩ := Position.of_spec source n
  exact ⟨_, after, e, by rw [eq]; rfl⟩

theorem Position.of_offset (source : String) (n : Nat) :
    Position.of source (Position.of source n).offset = Position.of source n := by
  obtain ⟨after, e, eq⟩ := Position.of_spec source n
  rw [eq]
  exact Position.of_append e

theorem Position.offset_of_le (source : String) (le : n ≤ m) :
    (Position.of source n).offset ≤ (Position.of source m).offset := by
  obtain ⟨-, -, eq⟩ := Position.of_spec source n
  obtain ⟨-, -, eq'⟩ := Position.of_spec source m
  rw [eq, eq']
  exact byteSize_floorPrefix_le source.toList le

/-- A span that was worked out for a range of bytes, in the source or in what stands behind its byte order mark. -/
inductive Span.Resolved (source : String) (path : Option String) : Span → Prop where
  | whole (bytes : ByteSpan) (le : bytes.start ≤ bytes.stop) : Resolved source path (.resolve source bytes path)
  | behindMark (bytes : ByteSpan) (le : bytes.start ≤ bytes.stop) :
      Resolved source path ((Span.resolve (unmarked source) bytes path).shift (markSize source))

/-- The end of a span. -/
theorem Span.Resolved.atEnd (h : s.Resolved source path) : Resolved source path ⟨s.stop, s.stop, path⟩ := by
  cases h with
  | whole bytes _ => exact .whole ⟨bytes.stop, bytes.stop⟩ (Nat.le_refl _)
  | behindMark bytes _ => exact .behindMark ⟨bytes.stop, bytes.stop⟩ (Nat.le_refl _)

theorem Span.Resolved.fits (h : s.Resolved source path) : s.bytes.FitsIn source := by
  cases h with
  | whole bytes le =>
    exact .of_boundaries (Position.offset_of_le source le) (Position.isBoundary_of ..) (Position.isBoundary_of ..)
  | behindMark bytes le =>
    have boundary (n : Nat) : IsBoundary source ((Position.of (unmarked source) n).offset + markSize source) := by
      obtain ⟨after, e, eq⟩ := Position.of_spec (unmarked source) n
      rw [eq]
      exact isBoundary_of_unmarked e
    exact .of_boundaries (Nat.add_le_add_right (Position.offset_of_le _ le) _) (boundary _) (boundary _)

theorem unmarked_eq (none : markSize source = 0) : unmarked source = source := by
  unfold markSize at none
  unfold unmarked
  split at none
  next => exact absurd none (Nat.ne_of_gt (Char.utf8Size_pos _))
  next other => rw [String.ofList_toList]

/-- Without a mark a span is the one that is worked out for its bytes. -/
theorem Span.Resolved.eq_resolve (h : s.Resolved source path) (none : markSize source = 0) :
    s = .resolve source s.bytes path := by
  have whole (bytes : ByteSpan) :
      Span.resolve source bytes path = .resolve source (Span.resolve source bytes path).bytes path := by
    simp only [Span.resolve, Span.bytes, Position.of_offset]
  cases h with
  | whole bytes _ => exact whole bytes
  | behindMark bytes _ =>
    rw [none, unmarked_eq none]
    exact whole bytes

end AboveFold.Source

namespace AboveFold.Diagnostic
open Source

/-- The places that a diagnostic and its notes name. -/
def spans (d : Diagnostic) : List Span := d.span :: d.notes.filterMap Note.span

theorem spans_unclosed (o : Option Opening) (openChar closeChar : Char) (span : Span) :
    (unclosed o openChar closeChar span).spans = span :: o.toList.map Opening.span := by
  cases o <;> rfl

theorem spans_mismatched (o : Option Opening) (closeChar : Char) (span : Span) :
    (mismatched o closeChar span).spans = span :: o.toList.map Opening.span := by
  cases o <;> rfl

end AboveFold.Diagnostic

namespace AboveFold.Grammar
open Source Node Parsed

/-- All places that reading knows of are ranges of the source: those of the tokens to come and of the open brackets, the
end of what was read, and the places that the diagnostics name. -/
structure State.Located (inp : Input) (st : State) : Prop where
  next : ∀ t ∈ st.rest, t.span.Resolved inp.source inp.path
  last : (st.endSpan inp).Resolved inp.source inp.path
  openings : ∀ o ∈ st.openings, o.span.Resolved inp.source inp.path
  errors : ∀ d ∈ st.errors, ∀ s ∈ d.spans, s.Resolved inp.source inp.path

variable {inp : Input} {tokens : List Token} {st st' : State} {t : Token} {ts : List Token} {a fuel : Nat} {place : Place}
  {atoms : List Parsed}

namespace State.Located

/-! ## Steps -/

theorem start (all : ∀ t ∈ tokens, t.span.Resolved inp.source inp.path) : (State.start tokens).Located inp := by
  refine ⟨all, ?_, by simp [State.start], by simp [State.start]⟩
  have origin : Position.of inp.source 0 = .start := Position.of_append (List.nil_append inp.source.toList).symm
  have here : (Span.resolve inp.source ⟨0, 0⟩ inp.path).Resolved inp.source inp.path := .whole _ (Nat.le_refl 0)
  rw [Span.resolve, origin] at here
  exact here

theorem nextSpan (h : st.Located inp) : (st.nextSpan inp).Resolved inp.source inp.path := by
  unfold State.nextSpan
  split
  next => exact h.last
  next t ts e => exact h.next t (by simp [e])

theorem advance (h : st.Located inp) : st.advance.Located inp := by
  unfold State.advance
  split
  next => exact h
  next t ts e =>
    exact ⟨fun u mem => h.next u (by simp [e, mem]), (h.next t (by simp [e])).atEnd, h.openings, h.errors⟩

theorem report (h : st.Located inp) {d : Diagnostic} (all : ∀ s ∈ d.spans, s.Resolved inp.source inp.path) :
    (st.report d).Located inp :=
  ⟨h.next, h.last, h.openings, List.forall_mem_cons.2 ⟨all, h.errors⟩⟩

/-- A diagnostic that names one place. -/
theorem report_at (h : st.Located inp) {d : Diagnostic} {span : Span} (only : d.spans = [span])
    (there : span.Resolved inp.source inp.path) : (st.report d).Located inp :=
  h.report (only ▸ List.forall_mem_singleton.2 there)

theorem discard (h : st.Located inp) (ps : List Parsed) : (st.discard ps).Located inp :=
  ⟨h.next, h.last, h.openings, h.errors⟩

theorem enter (h : st.Located inp) {o : Diagnostic.Opening} (there : o.span.Resolved inp.source inp.path) :
    (st.enter o).Located inp :=
  ⟨h.next, h.last, List.forall_mem_cons.2 ⟨there, h.openings⟩, h.errors⟩

theorem leave (h : st.Located inp) : st.leave.Located inp :=
  ⟨h.next, h.last, fun o mem => h.openings o (List.mem_of_mem_tail mem), h.errors⟩

theorem innermost (h : st.Located inp) :
    ∀ s ∈ st.openings.head?.toList.map Diagnostic.Opening.span, s.Resolved inp.source inp.path := by
  intro s mem
  obtain ⟨o, inside, rfl⟩ := List.mem_map.1 mem
  exact h.openings o (List.mem_of_mem_head? (Option.mem_toList.1 inside))

theorem skipTrivia (h : st.Located inp) : st.skipTrivia.Located inp := by
  induction e : st.rest generalizing st with
  | nil =>
    rw [skipTrivia_of_not_trivia (by simp [State.nextKind, e, Token.Kind.isTrivia])]
    exact h
  | cons t ts ih =>
    by_cases k : t.kind.isTrivia
    · rw [skipTrivia_of_trivia e k]
      exact ih h.advance (by simp [State.advance_of_rest e])
    · rw [skipTrivia_of_not_trivia (by simpa [nextKind_of_rest e] using k)]
      exact h

theorem passGroup (h : st.Located inp) (nested : Nat) : (st.passGroup nested).2.Located inp := by
  induction e : st.rest generalizing st nested with
  | nil =>
    rw [passGroup_nil nested e]
    exact h
  | cons t ts ih =>
    have later (n : Nat) := ih h.advance n (by simp [State.advance_of_rest e])
    rw [passGroup_cons nested e]
    split
    next => exact h.advance
    split
    next => exact later _
    split
    next =>
      cases nested with
      | zero => exact h.advance
      | succ n => exact later n
    next => exact later nested

theorem skipNested (h : st.Located inp) : st.skipNested.2.Located inp := h.passGroup 0

theorem skipComponent (h : st.Located inp) : st.skipComponent.2.Located inp := by
  unfold State.skipComponent
  split
  next => exact h
  next =>
    split
    next => exact h.advance.skipNested
    next => exact h.advance

/-! ## Component values -/

theorem leafError {d : Diagnostic} (h : st.Located inp) (there : t.span.Resolved inp.source inp.path)
    (wrong : leafError inp t = some d) : (st.report d).Located inp := by
  unfold Grammar.leafError at wrong
  split at wrong <;> cases wrong <;> exact h.report_at rfl there

theorem closeGroup (h : st.Located inp) (g : Group) : (closeGroup inp g st).Located inp := by
  unfold Grammar.closeGroup
  simp only
  split
  next =>
    refine h.leave.report ?_
    rw [Diagnostic.spans_unclosed, List.forall_mem_cons]
    exact ⟨h.last, h.innermost⟩
  split
  next => exact h.advance.leave
  next =>
    refine (h.report ?_).leave
    rw [Diagnostic.spans_mismatched, List.forall_mem_cons]
    exact ⟨h.nextSpan, h.innermost⟩

/-- While component values are read, all places stay ranges of the source. -/
theorem keepsValues (inp : Input) (tokens : List Token) : KeepsValues inp tokens (State.Located inp) where
  advance _ _ h := h.advance
  discard ps h := h.discard ps
  leafError _ e wrong h := h.advance.leafError (h.next _ (by simp [e])) wrong
  tooDeep _ e h := (h.advance.report_at rfl (h.next _ (by simp [e]))).skipNested
  enter _ _ e h := h.advance.enter (h.next _ (by simp [e]))
  closeGroup g _ _ h := h.closeGroup g

/-! ## Heads of entries -/

theorem selectors (h : st.Located inp) (start : Nat) (groups : List (List Parsed)) :
    (selectors inp start groups st).2.Located inp := by
  have missing {st : State} (h : st.Located inp) (start : Nat) :
      (st.report (.missingSelector (inp.placeOf ⟨start, start⟩))).Located inp :=
    h.report_at rfl (.whole ⟨start, start⟩ (Nat.le_refl _))
  induction groups generalizing start st with
  | nil => exact h
  | cons group groups ih =>
    rw [Grammar.selectors]
    split
    next =>
      split
      next => exact ih h _
      next => exact ih (missing (h.discard _) start) start
    next => exact ih (missing h start) start

theorem skipDeclaration (h : st.Located inp) (fuel stop : Nat) : (skipDeclaration fuel stop st).2.Located inp := by
  induction fuel generalizing stop st with
  | zero => exact h
  | succ fuel ih =>
    rw [Grammar.skipDeclaration]
    split
    next => exact h
    next => exact ih h.skipComponent _

theorem rawDeclaration (h : st.Located inp) (start stop : Nat) : (rawDeclaration inp start stop st).2.Located inp :=
  h.skipDeclaration _ _

theorem declarationOf (h : st.Located inp) (property : String) {start colonEnd : Nat}
    (le : start ≤ ByteSpan.lastStop colonEnd ((trim atoms).map Parsed.span)) :
    (declarationOf inp property start colonEnd atoms st).2.Located inp := by
  obtain ⟨important, kept, dropped, -, -, -, eq⟩ := declarationOf_eq inp property start colonEnd atoms st
  have set := (h.discard (trimmings atoms)).discard dropped
  rw [eq]
  simp only
  split
  next => exact (set.report_at rfl (.whole ⟨start, _⟩ le)).discard _
  next => exact set

theorem declaration (h : st.Located inp) (ready : Ready inp.source tokens st a) (e : st.rest = t :: ts)
    (property : String) : (declaration inp t property st).2.Located inp := by
  have name := ready.advance e
  obtain ⟨trivia, mid, skip, -⟩ := name.ready.skipTrivia
  have value := h.advance.skipTrivia
  unfold Grammar.declaration
  simp only
  split
  next colon _ e' =>
    have colonRead := (name.trans skip).advance e'
    obtain ⟨_, _, _, adjoin, -⟩ := colonRead.ready.components endsDeclaration
    have tight := (adjoin.laidOut.sublist ((trim_sublist _).map Parsed.span)).to_lastStop
    have tiles := ready.tiles
    rw [e] at tiles
    have start : t.start = a := tiles.start_eq
    have read := (keepsValues inp tokens).components endsDeclaration colonRead.ready value.advance
    exact read.declarationOf property (start ▸ Nat.le_trans colonRead.le tight.le)
  next => exact (value.report_at rfl value.nextSpan).rawDeclaration _ _

theorem atRuleHead (h : st.Located inp) (ready : Ready inp.source tokens st a) (nameEnd : Nat) :
    (atRuleHead inp nameEnd st).2.Located inp := by
  have all := (keepsValues inp tokens).components (fun k => k = .semicolon || k = .curlyOpen || k = .curlyClose) ready h
  unfold Grammar.atRuleHead
  simp only
  split
  next => exact all.advance
  next => exact all
  next => exact all

theorem ruleHead (h : st.Located inp) (ready : Ready inp.source tokens st a) (place : Place) :
    (ruleHead inp place st).2.Located inp := by
  have all := (keepsValues inp tokens).components (endsSelectors place) ready h
  unfold Grammar.ruleHead
  simp only
  split
  next => exact (all.selectors _ _).discard _
  next =>
    refine (all.report (List.forall_mem_cons.2 ⟨all.last, ?_⟩)).discard _
    exact List.forall_mem_singleton.2 (.whole ⟨_, _⟩ (Nat.le_refl _))
  next => exact (all.report_at rfl all.nextSpan).discard _

/-! ## Entries and blocks -/

theorem closeBlock (h : st.Located inp) : (closeBlock inp st).Located inp := by
  unfold Grammar.closeBlock
  split
  next => exact h.advance.leave
  next =>
    refine (h.report ?_).leave
    rw [Diagnostic.spans_unclosed, List.forall_mem_cons]
    exact ⟨h.last, h.innermost⟩

end State.Located

/-- Whatever is read, all places stay ranges of the source. -/
theorem State.Located.keeps (inp : Input) (tokens : List Token) : Keeps inp tokens (State.Located inp) where
  toKeepsValues := keepsValues inp tokens
  strayBrace _ e h := h.advance.report_at rfl (h.next _ (by simp [e]))
  fault _ _ e h := h.advance.report_at rfl (h.next _ (by simp [e]))
  rawDeclaration start stop _ h := h.rawDeclaration start stop
  declaration property ready e h := h.declaration ready e property
  atRuleHead ready h := h.atRuleHead ready _
  ruleHead ready _ _ h := h.ruleHead ready _
  closeBlock _ _ h := h.closeBlock

end AboveFold.Grammar

namespace AboveFold.Stylesheet
open Source Grammar

/-- Every place that a diagnostic of a stylesheet names is worked out for a range of bytes. -/
theorem errors_resolved (source : String) (path : Option String) :
    ∀ d ∈ (parse source path).errors, ∀ s ∈ d.spans, s.Resolved source path := by
  obtain ⟨here, boundary, tiles⟩ := Token.tiles_tokens source path
  have tokens : ∀ t ∈ Token.tokens source path, t.span.Resolved source path := by
    intro t mem
    obtain ⟨before, text, after, split, span⟩ := (Token.reading_tokens source path).covers mem
    rw [span, Token.textSpan_eq_resolve split]
    exact .behindMark _ (by simp)
  have read := ((State.Located.keeps ⟨source, path⟩ _).entries _).list .topLevel _ _ (Ready.start boundary tiles)
    (Nat.le_refl _) (.start tokens)
  exact fun d mem => read.errors d (List.mem_reverse.1 mem)

/-- **Diagnostics point where their bytes are**: every place that a diagnostic or one of its notes names is a range of the
source between characters, and in a source without a byte order mark it has the lines and columns of its bytes. -/
theorem errors_located (source : String) (path : Option String) :
    ∀ d ∈ (parse source path).errors, ∀ s ∈ d.spans,
      s.bytes.FitsIn source ∧ (Token.markSize source = 0 → s = .resolve source s.bytes path) :=
  fun d mem s inside =>
    have resolved := errors_resolved source path d mem s inside
    ⟨resolved.fits, resolved.eq_resolve⟩

/-- Behind a mark the bracket at byte 3 stands in column 0, and the empty place behind it, at byte 4, in column 2. -/
example : ((parse "\ufeff),\x7b\x7d" none).errors.map fun d => (d.span.start.offset, d.span.start.column))
    = [(3, 0), (4, 2)] := by decide +kernel

end AboveFold.Stylesheet
