import AboveFold.Proofs.Token.TokenEnd

/-!
# Tokens as they are written

A token without its place is its kind and its text (`Written`). `written` reads a text as such tokens, and a
list of them `Stands` if its text reads as the list. What a text means are those that are neither blanks nor
comments, and blanks in front of a text do not change that.
-/

namespace AboveFold.Token
open Text Source

/-- A token without its place. -/
structure Written where
  kind : Kind
  text : List Char
deriving DecidableEq

/-- The text of tokens, one after the other. -/
def textOf (ws : List Written) : List Char := ws.flatMap Written.text

/-- The tokens of a text, without the end of input. -/
def written : List Char → List Written
  | [] => []
  | c :: cs => ⟨(lexeme c cs).1, c :: cs.take ((lexeme c cs).2 - 1)⟩ :: written (cs.drop ((lexeme c cs).2 - 1))
termination_by cs => cs.length

/-- Each token is read off where it stands, with the text of the later ones behind it. -/
def Stands : List Written → Prop
  | [] => True
  | w :: ws =>
    (∃ c xs, w.text = c :: xs ∧ lexeme c (xs ++ textOf ws) = (w.kind, xs.length + 1)) ∧ Stands ws

/-- What a text says: its tokens but for blanks and comments. -/
def meaning (cs : List Char) : List Written := (written cs).filter fun w => !w.kind.isTrivia

@[simp] theorem textOf_nil : textOf [] = [] := rfl

@[simp] theorem textOf_cons (w : Written) (ws : List Written) : textOf (w :: ws) = w.text ++ textOf ws := rfl

@[simp] theorem textOf_append (ws vs : List Written) : textOf (ws ++ vs) = textOf ws ++ textOf vs := List.flatMap_append

section

variable {c : Char} {cs xs r : List Char} {k : Kind}

theorem textOf_written (cs : List Char) : textOf (written cs) = cs := by
  fun_induction written cs with
  | case1 => rfl
  | case2 c cs ih => simp [ih]

theorem stands_written (cs : List Char) : Stands (written cs) := by
  fun_induction written cs with
  | case1 => trivial
  | case2 c cs ih =>
    obtain ⟨some, inside⟩ := lexeme_extent c cs
    refine ⟨⟨c, _, rfl, ?_⟩, ih⟩
    rw [textOf_written, List.take_append_drop, List.length_take_of_le (by omega)]
    exact Prod.ext rfl (by simp only; omega)

theorem written_of_lexeme (h : lexeme c (xs ++ r) = (k, xs.length + 1)) :
    written (c :: (xs ++ r)) = ⟨k, c :: xs⟩ :: written r := by
  rw [written, h]
  simp

/-- The tokens of a text with their places are those without, and the end of input. -/
theorem kind_tokensFrom (path : Option String) (cursor : Cursor) (cs : List Char) :
    (tokensFrom path cursor cs).map Token.kind = (written cs).map Written.kind ++ [.eof] := by
  fun_induction tokensFrom path cursor cs with
  | case1 => simp [written]
  | case2 cursor c cs kind n heq next ih =>
    rw [List.map_cons, ih, written, heq]
    rfl

/-- A text that stands reads as it is written. -/
theorem Stands.written_eq {ws : List Written} (h : Stands ws) : written (textOf ws) = ws := by
  induction ws with
  | nil => simp [written]
  | cons w ws ih =>
    obtain ⟨⟨c, xs, text, reads⟩, rest⟩ := h
    rw [textOf_cons, text, List.cons_append, written_of_lexeme reads, ih rest, ← text]

theorem meaning_of_lexeme (h : lexeme c (xs ++ r) = (k, xs.length + 1)) :
    meaning (c :: (xs ++ r)) = [⟨k, c :: xs⟩].filter (fun w => !w.kind.isTrivia) ++ meaning r := by
  rw [meaning, written_of_lexeme h, ← List.singleton_append, List.filter_append]
  rfl

theorem Stands.meaning_eq {ws : List Written} (h : Stands ws) :
    meaning (textOf ws) = ws.filter fun w => !w.kind.isTrivia := by
  rw [meaning, h.written_eq]

theorem meaning_nil : meaning [] = [] := by
  simp [meaning, written]

theorem meaning_blank (blank : isBlank c = true) (r : List Char) :
    meaning (c :: r) = meaning (r.dropWhile isBlank) := by
  have reads : lexeme c (r.takeWhile isBlank ++ r.dropWhile isBlank)
      = (.whitespace, (r.takeWhile isBlank).length + 1) := by
    rw [List.takeWhile_append_dropWhile]
    unfold lexeme
    rw [if_pos blank]
  have := meaning_of_lexeme reads
  rwa [List.takeWhile_append_dropWhile] at this

theorem meaning_dropWhile (r : List Char) : meaning (r.dropWhile isBlank) = meaning r := by
  cases r with
  | nil => rfl
  | cons c r =>
    cases blank : isBlank c with
    | true => rw [meaning_blank blank, List.dropWhile_cons_of_pos blank]
    | false => rw [List.dropWhile_cons_of_neg (by simp [blank])]

/-- Blanks in front of a text mean nothing. -/
theorem meaning_append_of_blanks (blank : ∀ c ∈ xs, isBlank c = true) (r : List Char) :
    meaning (xs ++ r) = meaning r := by
  induction xs with
  | nil => rfl
  | cons c xs ih =>
    rw [List.forall_mem_cons] at blank
    rw [List.cons_append, meaning_blank blank.1, meaning_dropWhile, ih blank.2]

end

end AboveFold.Token
