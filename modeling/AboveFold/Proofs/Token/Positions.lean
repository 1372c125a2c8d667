import AboveFold.Proofs.Source.Counting
import AboveFold.Proofs.Token.Extent
import AboveFold.Proofs.Token.Tiling

/-!
# Where tokens stand

The tokens of a stylesheet are told apart from one front of its text to the next: `Reading` keeps the
text that is behind and the text that is still to be read, and with `tokensFrom_reading` every fact
about the tokens is an induction on it. `tokens_tiling` collects them: the tokens follow each other
without a gap in all four parts of a position, and each of their ends is the position that is worked
out for its offset alone, in the text without a byte order mark.
-/

namespace AboveFold.Token
open Text Source

/-- A stylesheet without the byte order mark at its front. -/
def unmarked (source : String) : String :=
  match source.toList with
  | '\ufeff' :: cs => String.ofList cs
  | cs => String.ofList cs

/-- The number of bytes that the byte order mark at the front takes, 0 without one. -/
def markSize (source : String) : Nat :=
  match source.toList with
  | '\ufeff' :: _ => byteOrderMark.utf8Size
  | _ => 0

theorem toList_eq_mark_append (source : String) :
    ∃ mark, source.toList = mark ++ (unmarked source).toList ∧ byteSize mark = markSize source := by
  unfold unmarked markSize
  split
  next cs e => exact ⟨[byteOrderMark], by simp [e, byteOrderMark], by simp [byteSize]⟩
  next => exact ⟨[], by simp, rfl⟩

/-- Reading starts behind a byte order mark, on the first line and in the first column. -/
theorem tokens_eq_tokensFrom (source : String) (path : Option String) :
    tokens source path = tokensFrom path (Cursor.start.shift (markSize source)) (unmarked source).toList := by
  unfold tokens unmarked markSize
  generalize source.toList = cs
  split
  · simp [Cursor.start, Cursor.shift, Position.start, Position.shift]
  · simp [Cursor.start, Cursor.shift, Position.start, Position.shift]

/-- The span of `text` behind `before`, in a text that has `n` more bytes in front. -/
def textSpan (path : Option String) (n : Nat) (before text : List Char) : Span :=
  ⟨(Position.after before).shift n, (Position.after (before ++ text)).shift n, path⟩

/-- The tokens of the text `rest` that stands behind `before`. -/
inductive Reading (path : Option String) (n : Nat) : (before rest : List Char) → List Token → Prop where
  /-- At the end of the text is the end of input. -/
  | eof (before : List Char) : Reading path n before [] [⟨.eof, textSpan path n before []⟩]
  /-- A token takes the text that it reaches over. -/
  | token {before text rest cs : List Char} {c : Char} {ts : List Token} (split : c :: cs = text ++ rest)
      (extent : text.length = (lexeme c cs).2) (behind : Reading path n (before ++ text) rest ts) :
      Reading path n before (c :: cs) (⟨(lexeme c cs).1, textSpan path n before text⟩ :: ts)

theorem tokensFrom_reading (path : Option String) (n : Nat) (before cs : List Char) :
    Reading path n before cs (tokensFrom path ((Cursor.start.walk before).shift n) cs) := by
  generalize here : (Cursor.start.walk before).shift n = cursor
  fun_induction tokensFrom path cursor cs generalizing before with
  | case1 cursor =>
    subst here
    have token : Reading path n before [] _ := .eof before
    simpa [Cursor.walk_start, Cursor.shift, textSpan] using token
  | case2 cursor c cs kind m e next =>
    rename_i ih
    obtain ⟨pos, inside⟩ := lexeme_extent c cs
    rw [e] at pos inside
    have arrived : (Cursor.start.walk (before ++ c :: cs.take (m - 1))).shift n = next := by
      simp only [Cursor.walk_append, Cursor.walk_cons, next, ← here, Cursor.step_shift, Cursor.walk_shift]
    have span : ⟨cursor.position, next.position, path⟩ = textSpan path n before (c :: cs.take (m - 1)) := by
      simp [textSpan, ← arrived, ← here, Cursor.shift, Cursor.walk_start]
    have extent : (c :: cs.take (m - 1)).length = (lexeme c cs).2 := by
      rw [e, List.length_cons, List.length_take]
      omega
    have token := Reading.token (by simp) extent (ih _ arrived)
    rwa [← span, e] at token

section Reading

variable {path : Option String} {n : Nat} {before rest : List Char} {ts : List Token}

/-- The first token starts where reading starts. -/
theorem Reading.head (h : Reading path n before rest ts) :
    ∃ t us, ts = t :: us ∧ t.span.start = (Position.after before).shift n := by
  cases h <;> exact ⟨_, _, rfl, rfl⟩

/-- The end of input is the last token, stands at the end of the text, and is no other token. -/
theorem Reading.last (h : Reading path n before rest ts) :
    ∃ front, ts = front ++ [⟨.eof, textSpan path n (before ++ rest) []⟩] ∧ ∀ t ∈ front, t.kind ≠ .eof := by
  induction h with
  | eof before => exact ⟨[], by simp⟩
  | @token before text rest cs c ts split _ _ ih =>
    obtain ⟨front, rfl, others⟩ := ih
    refine ⟨⟨(lexeme c cs).1, textSpan path n before text⟩ :: front, by simp [split], ?_⟩
    simpa using ⟨lexeme_kind_ne_eof c cs, others⟩

/-- Each token starts at the position where the one before it ends. -/
theorem Reading.isChain (h : Reading path n before rest ts) :
    ts.IsChain (fun t u => t.span.stop = u.span.start) := by
  induction h with
  | eof => exact .singleton _
  | token _ _ behind ih =>
    obtain ⟨t, us, rfl, start⟩ := behind.head
    exact .cons_cons start.symm ih

/-- Each token covers a piece of the text. -/
theorem Reading.covers (h : Reading path n before rest ts) {t : Token} (mem : t ∈ ts) :
    ∃ front text after, before ++ rest = front ++ text ++ after ∧ t.span = textSpan path n front text := by
  induction h with
  | eof before =>
    obtain rfl := List.mem_singleton.1 mem
    exact ⟨before, [], [], by simp, rfl⟩
  | @token before text rest cs c ts split _ _ ih =>
    rcases List.mem_cons.1 mem with rfl | mem
    · exact ⟨before, text, rest, by simp [split], rfl⟩
    · simpa [split] using ih mem

/-- Each token but the end of input is the one at the front of a text, and covers what it reaches over. -/
theorem Reading.reads (h : Reading path n before rest ts) {t : Token} (mem : t ∈ ts) (kind : t.kind ≠ .eof) :
    ∃ front text after c cs, before ++ rest = front ++ c :: cs ∧ c :: cs = text ++ after ∧
      t.kind = (lexeme c cs).1 ∧ text.length = (lexeme c cs).2 ∧ t.span = textSpan path n front text := by
  induction h with
  | eof before =>
    obtain rfl := List.mem_singleton.1 mem
    exact absurd rfl kind
  | @token before text rest cs c ts split extent _ ih =>
    rcases List.mem_cons.1 mem with rfl | mem
    · exact ⟨before, text, rest, c, cs, rfl, split, rfl, extent, rfl⟩
    · simpa [split] using ih mem

end Reading

/-- What the tokens of a stylesheet have to be, as a list. -/
structure Tiling (source : String) (path : Option String) (ts : List Token) : Prop where
  /-- One token is the end of input. It is the last, is empty, and stands at the end of the source. -/
  ends : ∃ front last, ts = front ++ [last] ∧ last.kind = .eof ∧ (∀ t ∈ front, t.kind ≠ .eof) ∧
    last.span.start = last.span.stop ∧ last.start = byteSize source.toList
  /-- All others have text. -/
  nonempty : ∀ t ∈ ts, t.kind ≠ .eof → t.start < t.stop
  /-- The first token starts right behind a byte order mark, which takes bytes and nothing else. -/
  first : ∃ t us, ts = t :: us ∧ t.span.start = Position.start.shift (markSize source)
  /-- Each next token starts at the position where the one before it ends. -/
  contiguous : ts.IsChain (fun t u => t.span.stop = u.span.start)
  /-- All offsets are between characters. -/
  boundaries : ∀ t ∈ ts, IsBoundary source t.start ∧ IsBoundary source t.stop
  /-- The span is the one worked out for its bytes alone, in the source without the mark. -/
  resolved : ∀ t ∈ ts, ∃ bytes : ByteSpan,
    t.span.bytes = ⟨bytes.start + markSize source, bytes.stop + markSize source⟩ ∧
      t.span = (Span.resolve (unmarked source) bytes path).shift (markSize source)
  /-- The lines and columns are those that can be counted in the text. -/
  counted : ∀ t ∈ ts, ∃ before text after, (unmarked source).toList = before ++ text ++ after ∧
    t.span = textSpan path (markSize source) before text
  /-- A token is the one at the front of the text at its start, and covers just what it reaches over. -/
  reads : ∀ t ∈ ts, t.kind ≠ .eof → ∃ before text after c cs, (unmarked source).toList = before ++ c :: cs ∧
    c :: cs = text ++ after ∧ t.kind = (lexeme c cs).1 ∧ text.length = (lexeme c cs).2 ∧
      t.span = textSpan path (markSize source) before text

/-- The span of a piece of text is the one worked out for its bytes. -/
theorem textSpan_eq_resolve {source : String} {before text after : List Char}
    (split : source.toList = before ++ text ++ after) (path : Option String) (n : Nat) :
    textSpan path n before text =
      (Span.resolve source ⟨byteSize before, byteSize (before ++ text)⟩ path).shift n := by
  have split' : source.toList = before ++ (text ++ after) := by rw [split, List.append_assoc]
  have start : Position.of source (byteSize before) = .after before := Position.of_append split'
  have stop : Position.of source (byteSize (before ++ text)) = .after (before ++ text) := Position.of_append split
  rw [Span.resolve, start, stop]
  rfl

/-- An offset of the text behind the mark is between characters of the source. -/
theorem isBoundary_of_unmarked {source : String} {before after : List Char}
    (split : (unmarked source).toList = before ++ after) :
    IsBoundary source (byteSize before + markSize source) := by
  obtain ⟨mark, e, size⟩ := toList_eq_mark_append source
  exact ⟨mark ++ before, after, by simp [e, split], by rw [byteSize_append, size, Nat.add_comm]⟩

theorem reading_tokens (source : String) (path : Option String) :
    Reading path (markSize source) [] (unmarked source).toList (tokens source path) := by
  rw [tokens_eq_tokensFrom]
  exact tokensFrom_reading path (markSize source) [] (unmarked source).toList

/-- **Tokens tile the text**: whatever the text is, its tokens follow each other without a gap from the byte
order mark to the end, and each stands where the text says. -/
theorem tokens_tiling (source : String) (path : Option String) : Tiling source path (tokens source path) := by
  have reading := reading_tokens source path
  have size : byteSize source.toList = byteSize (unmarked source).toList + markSize source := by
    obtain ⟨mark, e, size⟩ := toList_eq_mark_append source
    rw [e, byteSize_append, size, Nat.add_comm]
  refine ⟨?ends, ?nonempty, ?first, reading.isChain, ?boundaries, ?resolved, ?counted, ?reads⟩
  case ends =>
    obtain ⟨front, e, others⟩ := reading.last
    refine ⟨front, _, e, rfl, others, by simp [textSpan], ?_⟩
    rw [size]
    rfl
  case nonempty =>
    obtain ⟨here, -, tiles⟩ := tiles_tokens source path
    exact fun t mem kind => tiles.start_lt_stop mem kind
  case first => exact reading.head
  case boundaries =>
    intro t mem
    obtain ⟨before, text, after, e, span⟩ := reading.covers mem
    have e' : (unmarked source).toList = before ++ (text ++ after) := by simpa using e
    rw [Token.start, Token.stop, span]
    exact ⟨isBoundary_of_unmarked e', isBoundary_of_unmarked e⟩
  case resolved =>
    intro t mem
    obtain ⟨before, text, after, e, span⟩ := reading.covers mem
    refine ⟨⟨byteSize before, byteSize (before ++ text)⟩, ?_, span.trans (textSpan_eq_resolve e path _)⟩
    rw [span]
    rfl
  case counted => exact fun t mem => reading.covers mem
  case reads => exact fun t mem kind => reading.reads mem kind

end AboveFold.Token
