import AboveFold.Source.Span
import AboveFold.Token.Lexer

/-!
# Tokens cover the text

The tokens of a stylesheet stand one after the other: each starts at the byte where the one before it
ends, and every offset is between two characters. `Tiles` says this of any list of tokens, so that it
also holds of the tokens that are still to be read at any moment.
-/

namespace AboveFold.Source
open Text

/-- A byte offset between two characters of `source`, or at one of its ends. -/
def IsBoundary (source : String) (offset : Nat) : Prop :=
  ∃ before after, source.toList = before ++ after ∧ byteSize before = offset

theorem IsBoundary.le {source : String} {n : Nat} (h : IsBoundary source n) :
    n ≤ byteSize source.toList := by
  obtain ⟨before, after, e, rfl⟩ := h
  rw [e, byteSize_append]
  omega

theorem isBoundary_zero (source : String) : IsBoundary source 0 :=
  ⟨[], source.toList, rfl, rfl⟩

theorem isBoundary_end (source : String) : IsBoundary source (byteSize source.toList) :=
  ⟨source.toList, [], by simp, rfl⟩

/-- A range of bytes of `source` that starts and ends between characters. -/
structure ByteSpan.FitsIn (source : String) (s : ByteSpan) : Prop where
  start_le_stop : s.start ≤ s.stop
  stop_le : s.stop ≤ byteSize source.toList
  start : IsBoundary source s.start
  stop : IsBoundary source s.stop

theorem ByteSpan.FitsIn.of_boundaries {source : String} {s : ByteSpan} (le : s.start ≤ s.stop)
    (start : IsBoundary source s.start) (stop : IsBoundary source s.stop) : s.FitsIn source :=
  ⟨le, stop.le, start, stop⟩

/-- Of two ways to cut a text, the one that cuts earlier cuts off the shorter front. -/
theorem exists_append_of_byteSize_le {a b c d : List Char} (e : a ++ b = c ++ d)
    (le : byteSize a ≤ byteSize c) : ∃ m, c = a ++ m ∧ b = m ++ d := by
  rcases List.append_eq_append_iff.1 e with ⟨m, rfl, rfl⟩ | ⟨m, rfl, rfl⟩
  · exact ⟨m, rfl, rfl⟩
  · rw [byteSize_append] at le
    cases m with
    | nil => exact ⟨[], by simp⟩
    | cons x m =>
      have := x.utf8Size_pos
      simp only [byteSize] at le
      omega

/-- A range that fits has a text. -/
theorem ByteSpan.FitsIn.slice_isSome {source : String} {s : ByteSpan} (h : s.FitsIn source) :
    ∃ text, s.slice source = some text := by
  obtain ⟨a, b, e, ha⟩ := h.start
  obtain ⟨c, d, e', hc⟩ := h.stop
  obtain ⟨m, rfl, rfl⟩ := exists_append_of_byteSize_le (e.symm.trans e')
    (by rw [ha, hc]; exact h.start_le_stop)
  refine ⟨String.ofList m, ?_⟩
  rw [byteSize_append] at hc
  rw [ByteSpan.slice, e', ← ha, ← hc, slice_append]
  rfl

theorem ByteSpan.slice_eq_some {source : String} {s : ByteSpan} {text : List Char}
    (h : s.slice source = some (String.ofList text)) :
    ∃ before after, source.toList = before ++ text ++ after ∧ byteSize before = s.start
      ∧ s.start + byteSize text = s.stop := by
  obtain ⟨cut, some, same⟩ := Option.map_eq_some_iff.1 h
  obtain rfl := String.ofList_injective same
  exact Text.slice_eq_some some

theorem ByteSpan.slice_empty {source : String} {n : Nat} (boundary : IsBoundary source n) :
    slice ⟨n, n⟩ source = some (String.ofList []) := by
  obtain ⟨before, after, e, rfl⟩ := boundary
  have := slice_append before [] after
  rw [ByteSpan.slice, e]
  simpa [byteSize] using congrArg (Option.map String.ofList) this

/-- A range that has a text ends between characters. -/
theorem IsBoundary.of_slice {source : String} {s : ByteSpan} {text : List Char}
    (h : s.slice source = some (String.ofList text)) : IsBoundary source s.stop := by
  obtain ⟨before, after, e, start, stop⟩ := ByteSpan.slice_eq_some h
  exact ⟨before ++ text, after, e, by rw [byteSize_append, start, stop]⟩

/-- The texts of two ranges side by side make up the text of both. -/
theorem ByteSpan.slice_beside {source : String} {a b c : Nat} {first second : List Char}
    (h : slice ⟨a, b⟩ source = some (String.ofList first)) (h' : slice ⟨b, c⟩ source = some (String.ofList second)) :
    slice ⟨a, c⟩ source = some (String.ofList (first ++ second)) := by
  obtain ⟨before, after, text, start, stop⟩ := slice_eq_some h
  obtain ⟨before', after', text', start', stop'⟩ := slice_eq_some h'
  simp only at start stop start' stop'
  have size : byteSize (before ++ first) = byteSize before' := by rw [byteSize_append, start, stop, start']
  obtain ⟨rest, e, behind⟩ := exists_append_of_byteSize_le
    (text.symm.trans (text'.trans (List.append_assoc ..))) (Nat.le_of_eq size)
  have empty : rest = [] := by
    rw [e, byteSize_append (before ++ first)] at size
    cases rest with
    | nil => rfl
    | cons d rest =>
      have := d.utf8Size_pos
      simp only [byteSize] at size
      omega
  rw [behind, empty, List.nil_append, ← List.append_assoc, List.append_assoc before] at text
  rw [← stop', ← stop, ← start, Nat.add_assoc, ← byteSize_append, ByteSpan.slice, text, slice_append]
  rfl

end AboveFold.Source

namespace AboveFold.Token
open Text Source

/-- Tokens that follow each other without a gap from the byte `here` on. Only the end of input takes
no byte, and nothing comes after it. -/
def Tiles (source : String) (here : Nat) : List Token → Prop
  | [] => True
  | t :: ts =>
    t.start = here ∧ (t.kind ≠ .eof ∧ here < t.stop ∨ t.kind = .eof ∧ t.stop = here ∧ ts = [])
      ∧ IsBoundary source t.stop ∧ Tiles source t.stop ts

/-- A token that is read from text is not the end of input. -/
theorem lexeme_kind_ne_eof (c : Char) (cs : List Char) : (lexeme c cs).1 ≠ .eof := by
  unfold lexeme
  repeat' split
  all_goals simp [stringLexeme, numericLexeme, markedLexeme, identLexeme, commentLexeme, urlLexeme]
  all_goals repeat' split
  all_goals simp

theorem tiles_tokensFrom {source : String} (path : Option String) (before : List Char) (cursor : Cursor)
    {cs : List Char} (e : source.toList = before ++ cs) (here : cursor.position.offset = byteSize before) :
    Tiles source cursor.position.offset (tokensFrom path cursor cs) := by
  fun_induction tokensFrom path cursor cs generalizing before with
  | case1 cursor =>
    refine ⟨rfl, .inr ⟨rfl, rfl, rfl⟩, ?_, trivial⟩
    exact ⟨before, [], e, here.symm⟩
  | case2 cursor c cs kind n heq next =>
    rename_i ih
    have split : source.toList = (before ++ c :: cs.take (n - 1)) ++ cs.drop (n - 1) := by
      simp [e]
    have stop : next.position.offset = byteSize (before ++ c :: cs.take (n - 1)) := by
      simp [next, here, byteSize, Nat.add_assoc]
    have grows : cursor.position.offset < next.position.offset := by
      have := c.utf8Size_pos
      simp [next]
      omega
    have kept : kind ≠ .eof := by
      have := lexeme_kind_ne_eof c cs
      rwa [heq] at this
    exact ⟨rfl, .inl ⟨kept, grows⟩, ⟨_, _, split, stop.symm⟩, ih _ split stop⟩

/-- The tokens of a stylesheet cover it, from the end of a byte order mark on. -/
theorem tiles_tokens (source : String) (path : Option String) :
    ∃ here, IsBoundary source here ∧ Tiles source here (tokens source path) := by
  unfold tokens
  split
  next cs e =>
    refine ⟨byteOrderMark.utf8Size, ⟨[byteOrderMark], cs, e, by simp [byteSize]⟩, ?_⟩
    exact tiles_tokensFrom path [byteOrderMark]
      ⟨{ Position.start with offset := byteOrderMark.utf8Size }, false⟩ e (by simp [byteSize])
  next => exact ⟨0, isBoundary_zero source, tiles_tokensFrom path [] .start rfl rfl⟩

section Tiles

variable {source : String} {here : Nat} {t : Token} {ts us : List Token}

theorem Tiles.take (h : Tiles source here ts) (n : Nat) : Tiles source here (ts.take n) := by
  induction ts generalizing here n with
  | nil => simpa using h
  | cons t ts ih =>
    cases n with
    | zero => trivial
    | succ n =>
      obtain ⟨start, size, stop, rest⟩ := h
      refine ⟨start, size.imp_right ?_, stop, ih rest n⟩
      rintro ⟨k, e, rfl⟩
      exact ⟨k, e, by simp⟩

theorem Tiles.start_eq (h : Tiles source here (t :: ts)) : t.start = here := h.1

theorem Tiles.le_stop (h : Tiles source here (t :: ts)) : here ≤ t.stop := by
  obtain ⟨-, ⟨-, lt⟩ | ⟨-, e, -⟩, -, -⟩ := h <;> omega

theorem Tiles.stop_boundary (h : Tiles source here (t :: ts)) : IsBoundary source t.stop := h.2.2.1

theorem Tiles.tail (h : Tiles source here (t :: ts)) : Tiles source t.stop ts := h.2.2.2

/-- The end of input is empty and the last token. -/
theorem Tiles.eof (h : Tiles source here (t :: ts)) (k : t.kind = .eof) : t.stop = here ∧ ts = [] := by
  obtain ⟨-, ⟨ne, -⟩ | ⟨-, e, last⟩, -, -⟩ := h
  · exact absurd k ne
  · exact ⟨e, last⟩

/-- All tokens but the end of input take at least one byte. -/
theorem Tiles.start_lt_stop (h : Tiles source here ts) {u : Token} (mem : u ∈ ts) (k : u.kind ≠ .eof) :
    u.start < u.stop := by
  induction ts generalizing here with
  | nil => cases mem
  | cons t ts ih =>
    obtain ⟨start, size, stop, rest⟩ := h
    rcases List.mem_cons.1 mem with rfl | mem
    · rcases size with ⟨-, lt⟩ | ⟨e, -⟩
      · omega
      · exact absurd e k
    · exact ih rest mem

/-- Tokens lie behind the place where the first of them starts. -/
theorem Tiles.le_start (h : Tiles source here ts) {u : Token} (mem : u ∈ ts) : here ≤ u.start := by
  induction ts generalizing here with
  | nil => cases mem
  | cons t ts ih =>
    rcases List.mem_cons.1 mem with rfl | mem
    · exact Nat.le_of_eq h.start_eq.symm
    · exact Nat.le_trans h.le_stop (ih h.tail mem)

/-- Of two tokens, the first ends before the second starts. -/
theorem Tiles.pairwise (h : Tiles source here ts) : ts.Pairwise (fun t u => t.stop ≤ u.start) := by
  induction ts generalizing here with
  | nil => exact .nil
  | cons t ts ih => exact .cons (fun u mem => h.tail.le_start mem) (ih h.tail)

end Tiles

end AboveFold.Token
