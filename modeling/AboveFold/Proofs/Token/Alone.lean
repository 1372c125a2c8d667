import AboveFold.Proofs.Token.Begins
import AboveFold.Proofs.Token.Positions
import AboveFold.Proofs.Token.TokenEnd

/-!
# Tokens by themselves

A token keeps its bytes, and these are written out again in other surroundings. The end of input is calmer than
whatever stood behind the token, so its own text reads as that one token (`lexeme_alone`), and of every stylesheet
each token that `standsAlone` is all that its slice holds (`tokens_slice`).
-/

namespace AboveFold.Token
open Text Source

/-- Whether a token can be told from its own text. A fault may need what stands behind it, and so does a function with
the name of a url, which is one only before a quote. -/
def Kind.standsAlone : Kind → Bool
  | .eof | .fault _ => false
  | .function name => !eqIgnoreCase name "url"
  | _ => true

section

variable {c : Char} {xs r : List Char} {k : Kind}

/-- Whatever follows a token that stands alone, the end of input may follow it instead. -/
theorem follows_nil (alone : k.standsAlone = true) (text r : List Char) : Follows k text r [] where
  calmer _ := .of_breaks r rfl
  shut _ := .inr (by simp)
  quoted name function url := by
    subst function
    simp [Kind.standsAlone, url] at alone

/-- What is read at the front of a text is read from its own characters alone. -/
theorem lexeme_alone (whole : lexeme c (xs ++ r) = (k, xs.length + 1)) (alone : k.standsAlone = true) :
    lexeme c xs = (k, xs.length + 1) := by
  rw [← List.append_nil xs]
  by_cases white : k = .whitespace
  · -- blanks reach as far as they can, which is no farther than the end of input
    subst white
    have blank := (lexeme_eq_blanks.1 whole).1
    rw [lexeme_eq_blanks.2 ⟨blank, rfl⟩, List.append_nil]
  · have sound (f : Fault) : k ≠ .fault f := by
      rintro rfl
      cases alone
    rw [lexeme_append whole (follows_nil alone _ r) white sound, List.append_nil]

/-- One token that reaches over a whole text, and the end of input behind it. -/
theorem tokensFrom_of_whole (whole : lexeme c xs = (k, xs.length + 1)) (path : Option String) :
    tokensFrom path .start (c :: xs) = [⟨k, textSpan path 0 [] (c :: xs)⟩, ⟨.eof, textSpan path 0 (c :: xs) []⟩] := by
  have start : Position.start = Position.after [] := rfl
  have stop : (Cursor.start.walk (c :: xs)).position = Position.after (c :: xs) := by rw [Cursor.walk_start]
  rw [tokensFrom, whole]
  simp only [Nat.add_sub_cancel, List.take_length, List.drop_length, tokensFrom, ← Cursor.walk_cons, stop]
  simp [textSpan, start, Cursor.start, Position.shift]

theorem tokens_ofList (other : c ≠ byteOrderMark) (path : Option String) :
    tokens (String.ofList (c :: xs)) path = tokensFrom path .start (c :: xs) := by
  unfold tokens
  rw [String.toList_ofList]
  split
  next front =>
    obtain ⟨rfl, -⟩ := List.cons.inj front
    exact absurd rfl other
  next => rfl

end

/-- The span of a piece of text cuts that piece out. -/
theorem slice_textSpan {source : String} {mark before text after : List Char}
    (split : source.toList = mark ++ before ++ text ++ after) (path : Option String) :
    (textSpan path (byteSize mark) before text).slice source = some (String.ofList text) := by
  have stop : byteSize (before ++ text) + byteSize mark = byteSize (mark ++ before) + byteSize text := by
    simp only [byteSize_append]
    omega
  have start : byteSize before + byteSize mark = byteSize (mark ++ before) := by
    rw [byteSize_append, Nat.add_comm]
  simp only [Span.slice, Span.bytes, ByteSpan.slice, textSpan, Position.shift, Position.after, start, stop, split,
    slice_append, Option.map_some]

/-- **Tokens end by themselves**: the text of a token that stands alone is read as that token, over all of its
characters, and nothing else. Only a byte order mark at the front of the text would be passed over. -/
theorem tokens_slice (source : String) (path path' : Option String) {t : Token} (mem : t ∈ tokens source path)
    (alone : t.kind.standsAlone = true) :
    ∃ text : String, t.span.slice source = some text ∧ (text.toList.head? ≠ some byteOrderMark →
      tokens text path' =
          [⟨t.kind, textSpan path' 0 [] text.toList⟩, ⟨.eof, textSpan path' 0 text.toList []⟩]
        ∧ (textSpan path' 0 [] text.toList).slice text = some text) := by
  have kind : t.kind ≠ .eof := by
    intro e
    rw [e] at alone
    cases alone
  obtain ⟨before, text, after, c, cs, place, split, read, extent, span⟩ := (reading_tokens source path).reads mem kind
  obtain ⟨mark, whole, size⟩ := toList_eq_mark_append source
  refine ⟨String.ofList text, ?_, fun plain => ?_⟩
  · have pieces : source.toList = mark ++ before ++ text ++ after := by
      rw [List.nil_append] at place
      rw [whole, place, split]
      simp only [List.append_assoc]
    rw [span, ← size]
    exact slice_textSpan pieces path
  · obtain ⟨some, -⟩ := lexeme_extent c cs
    obtain ⟨xs, rfl, rfl⟩ : ∃ xs, text = c :: xs ∧ cs = xs ++ after := by
      cases text with
      | nil => simp [← extent] at some
      | cons d xs =>
        obtain ⟨rfl, rest⟩ := List.cons.inj split
        exact ⟨xs, rfl, rest⟩
    have first : lexeme c (xs ++ after) = (t.kind, xs.length + 1) := Prod.ext read.symm extent.symm
    have pieces : (String.ofList (c :: xs)).toList = [] ++ [] ++ (c :: xs) ++ [] := by simp
    rw [String.toList_ofList] at plain ⊢
    refine ⟨?_, slice_textSpan pieces path'⟩
    rw [tokens_ofList (by simpa using plain), tokensFrom_of_whole (lexeme_alone first alone)]

/-- The number of `a:-1e--->` takes the hyphens for its unit, and the angle is left over. -/
theorem tokens_slice_dimension :
    let t : Token := ⟨.numeric "-1e---", ⟨⟨0, 2, 2, 2⟩, ⟨0, 8, 8, 8⟩, none⟩⟩
    t ∈ tokens "a:-1e--->" none ∧ t.kind.standsAlone = true ∧ t.span.slice "a:-1e--->" = some "-1e---"
      ∧ tokens "-1e---" none
        = [⟨t.kind, textSpan none 0 [] "-1e---".toList⟩, ⟨.eof, textSpan none 0 "-1e---".toList []⟩] := by
  intro t
  have mem : t ∈ tokens "a:-1e--->" none := by decide +kernel
  have cut : t.span.slice "a:-1e--->" = some "-1e---" := by decide +kernel
  obtain ⟨text, slice, reads⟩ := tokens_slice "a:-1e--->" none none mem rfl
  obtain rfl : "-1e---" = text := Option.some.inj (cut.symm.trans slice)
  exact ⟨mem, rfl, cut, (reads (by decide)).1⟩

/-- Before a quote the name of a url is that of a function; without the quote it opens a url. -/
example : ((tokens "url('a')" none).map Token.kind, (tokens "url(" none).map Token.kind)
    = ([.function "url", .quotedString "'a'", .parenClose, .eof], [.fault .openUrl, .eof]) := by decide +kernel

end AboveFold.Token
