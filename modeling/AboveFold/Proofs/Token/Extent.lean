import AboveFold.Token.Lexer

/-!
# How far a token reaches

Every scan stays inside the text that it is given: an escape, a number, a string or a url that the
text breaks off ends with it. A scan that a token starts with takes at least one character. So a
token has at least one character and never more than there are (`lexeme_extent`), and reading goes
on in every branch.
-/

namespace AboveFold.Token
open Text

section Names

theorem nameLength_le (skip : Nat) (cs : List Char) : nameLength skip cs ≤ cs.length := by
  fun_induction nameLength skip cs <;> simp <;> omega

theorem nameLength_pos {c : Char} {cs : List Char} (h : isNameChar c || (c = '\\' && canEscape cs)) :
    0 < nameLength 0 (c :: cs) := by
  unfold nameLength
  split
  · omega
  · rw [if_pos (by simpa [*] using h)]
    omega

/-- Where an identifier starts, a name has a character. -/
theorem nameLength_pos_of_startsIdent {c : Char} {cs : List Char} (h : startsIdent (c :: cs) = true) :
    0 < nameLength 0 (c :: cs) := by
  apply nameLength_pos
  unfold startsIdent at h
  split at h
  next e =>
    obtain ⟨rfl, -⟩ := List.cons.inj e
    simp [isNameChar]
  next e =>
    obtain ⟨rfl, rfl⟩ := List.cons.inj e
    simp [h]
  next e =>
    obtain ⟨rfl, -⟩ := List.cons.inj e
    simp [isNameChar, h]
  next e => cases e

end Names

section Numbers

theorem digitsLength_le (cs : List Char) : digitsLength cs ≤ cs.length :=
  (List.takeWhile_prefix _).length_le

theorem digitsLength_pos {cs : List Char} (h : startsDigit cs = true) : 0 < digitsLength cs := by
  cases cs with
  | nil => simp [startsDigit] at h
  | cons c cs => simp [digitsLength, show c.isDigit = true from h]

theorem signLength_le (cs : List Char) : signLength cs ≤ cs.length := by
  fun_cases signLength cs <;> simp

theorem fractionLength_le (cs : List Char) : fractionLength cs ≤ cs.length := by
  fun_cases fractionLength cs with
  | case1 cs _ => simpa using digitsLength_le cs
  | case2 => omega
  | case3 => omega

theorem exponentLength_le (cs : List Char) : exponentLength cs ≤ cs.length := by
  fun_cases exponentLength cs with
  | case1 c cs _ =>
    have sign := signLength_le cs
    have digits := digitsLength_le (cs.drop (signLength cs))
    simp only [List.length_drop, List.length_cons] at *
    omega
  | case2 => omega
  | case3 => omega

theorem unitLength_le (cs : List Char) : unitLength cs ≤ cs.length := by
  fun_cases unitLength cs with
  | case1 => exact nameLength_le 0 cs
  | case2 _ h =>
    cases cs with
    | nil => simp at h
    | cons c cs => simp
  | case3 => omega

/-- What a scan reads behind the first `n` characters lies inside the text. -/
theorem add_drop_le {f : List Char → Nat} (inside : ∀ cs, f cs ≤ cs.length) {n : Nat} {cs : List Char}
    (h : n ≤ cs.length) : n + f (cs.drop n) ≤ cs.length := by
  have := inside (cs.drop n)
  rw [List.length_drop] at this
  omega

theorem numericLength_le (cs : List Char) : numericLength cs ≤ cs.length :=
  add_drop_le unitLength_le <| add_drop_le exponentLength_le <| add_drop_le fractionLength_le <|
    add_drop_le digitsLength_le <| signLength_le cs

theorem numericLength_pos_of_sign {cs : List Char} (h : 0 < signLength cs) : 0 < numericLength cs := by
  simp only [numericLength]
  omega

theorem signLength_of_startsDigit {cs : List Char} (h : startsDigit cs = true) : signLength cs = 0 := by
  cases cs with
  | nil => rfl
  | cons c cs =>
    have digit : c.isDigit = true := h
    have plus : c ≠ '+' := by rintro rfl; exact absurd digit (by decide)
    have minus : c ≠ '-' := by rintro rfl; exact absurd digit (by decide)
    simp [signLength, plus, minus]

theorem numericLength_pos_of_startsDigit {cs : List Char} (h : startsDigit cs = true) :
    0 < numericLength cs := by
  have digits := digitsLength_pos h
  simp only [numericLength, signLength_of_startsDigit h, List.drop_zero]
  omega

theorem numericLength_pos_of_startsUnsigned {cs : List Char} (h : startsUnsigned cs = true) :
    0 < numericLength cs := by
  unfold startsUnsigned at h
  split at h
  next cs =>
    have no_sign : signLength ('.' :: cs) = 0 := rfl
    have no_digit : digitsLength ('.' :: cs) = 0 := rfl
    have point : fractionLength ('.' :: cs) = digitsLength cs + 1 := by simp [fractionLength, h]
    simp only [numericLength, no_sign, no_digit, Nat.add_zero, List.drop_zero, point]
    omega
  next => exact numericLength_pos_of_startsDigit h

/-- Where a number starts, a sign, a digit or a point belongs to it. -/
theorem numericLength_pos {cs : List Char} (h : startsNumber cs = true) : 0 < numericLength cs := by
  unfold startsNumber at h
  split at h
  next => exact numericLength_pos_of_sign Nat.one_pos
  next => exact numericLength_pos_of_sign Nat.one_pos
  next => exact numericLength_pos_of_startsUnsigned h

end Numbers

section Delimited

theorem stringLength_le (quote : Char) (skip : Nat) (cs : List Char) :
    (stringLength quote skip cs).2 ≤ cs.length := by
  fun_induction stringLength quote skip cs <;> simp_all

theorem urlLength_le (skip : Nat) (cs : List Char) : (urlLength skip cs).2 ≤ cs.length := by
  fun_induction urlLength skip cs <;> simp_all

/-- Behind the text of a closed url, and perhaps blanks, stands the parenthesis that closes it. -/
theorem urlLength_closed {skip : Nat} {cs : List Char} (h : (urlLength skip cs).1 = .closed) :
    ∃ after, (cs.drop (urlLength skip cs).2).dropWhile isBlank = ')' :: after := by
  fun_induction urlLength skip cs with
  | case1 => cases h
  | case2 skip c cs ending n e ih => simpa [e] using ih (by simpa [e] using h)
  | case3 cs => exact ⟨cs, rfl⟩
  | case4 => cases h
  | case5 c cs not_close blank d after e =>
    by_cases close : d = ')'
    · exact ⟨after, by simp [blank, e, close]⟩
    · simp [close] at h
  | case6 => cases h
  | case7 => cases h
  | case8 => cases h
  | case9 c cs _ _ _ _ _ skip ending n e ih => simpa [e] using ih (by simpa [e] using h)

theorem remnantsLength_le (skip : Nat) (cs : List Char) : remnantsLength skip cs ≤ cs.length := by
  fun_induction remnantsLength skip cs <;> simp <;> omega

theorem commentLength_le {cs : List Char} {n : Nat} (h : commentLength cs = some n) : n ≤ cs.length := by
  induction cs generalizing n with
  | nil => cases h
  | cons c cs ih =>
    unfold commentLength at h
    split at h
    next ends =>
      obtain rfl : 2 = n := by simpa using h
      cases cs with
      | nil => simp at ends
      | cons d cs => simp
    next =>
      obtain ⟨m, rest, rfl⟩ := Option.map_eq_some_iff.1 h
      simpa using ih rest

end Delimited

section Lexemes

variable {c : Char} {cs : List Char}

theorem urlLexeme_le (cs : List Char) : (urlLexeme cs).2 ≤ cs.length := by
  have blanks : (cs.takeWhile isBlank).length ≤ cs.length := (List.takeWhile_prefix _).length_le
  have text := urlLength_le 0 (cs.drop (cs.takeWhile isBlank).length)
  unfold urlLexeme
  rcases e : urlLength 0 (cs.drop (cs.takeWhile isBlank).length) with ⟨ending, n⟩
  simp only [e, List.length_drop] at text ⊢
  cases ending with
  | closed =>
    obtain ⟨after, close⟩ := urlLength_closed (congrArg Prod.fst e)
    have split := List.takeWhile_append_dropWhile (p := isBlank)
      (l := (cs.drop (cs.takeWhile isBlank).length).drop n)
    rw [e] at close
    rw [close] at split
    have := congrArg List.length split
    simp only [List.length_append, List.length_cons, List.length_drop] at this ⊢
    omega
  | inputEnd => exact Nat.le_refl _
  | bad =>
    have rest := remnantsLength_le 0 ((cs.drop (cs.takeWhile isBlank).length).drop n)
    simp only [List.length_drop] at rest ⊢
    omega

/-- An identifier, function or url takes its name, which has a character, and stays inside the text. -/
theorem identLexeme_extent (h : 0 < nameLength 0 cs) :
    0 < (identLexeme cs).2 ∧ (identLexeme cs).2 ≤ cs.length := by
  have name := nameLength_le 0 cs
  unfold identLexeme
  dsimp only
  split
  next rest e =>
    have behind := congrArg List.length e
    have url := urlLexeme_le rest
    simp only [List.length_drop, List.length_cons] at behind
    split
    · simp only
      omega
    · simp only
      omega
  next => exact ⟨h, name⟩

theorem stringLexeme_extent (quote : Char) (cs : List Char) :
    0 < (stringLexeme quote cs).2 ∧ (stringLexeme quote cs).2 ≤ cs.length + 1 := by
  have text := stringLength_le quote 0 cs
  unfold stringLexeme
  split <;> simp_all

theorem commentLexeme_extent (cs : List Char) :
    0 < (commentLexeme cs).2 ∧ (commentLexeme cs).2 ≤ cs.length + 2 := by
  unfold commentLexeme
  split
  next n e => simpa using commentLength_le e
  next => simp

theorem markedLexeme_extent (kind : String → Kind) (cs : List Char) :
    0 < (markedLexeme kind cs).2 ∧ (markedLexeme kind cs).2 ≤ cs.length + 1 := by
  simpa [markedLexeme] using nameLength_le 0 cs

theorem numericLexeme_extent (h : 0 < numericLength cs) :
    0 < (numericLexeme cs).2 ∧ (numericLexeme cs).2 ≤ cs.length :=
  ⟨h, numericLength_le cs⟩

/-- A text that starts with `front` is at least as long. -/
theorem length_le_of_take (front : List Char) {cs : List Char} (h : cs.take front.length = front) :
    front.length ≤ cs.length := by
  have := congrArg List.length h
  rw [List.length_take] at this
  omega

/-- A token takes at least one character, and no more than there are. -/
theorem lexeme_extent (c : Char) (cs : List Char) : 0 < (lexeme c cs).2 ∧ (lexeme c cs).2 ≤ cs.length + 1 := by
  have one : 0 < 1 ∧ 1 ≤ cs.length + 1 := ⟨Nat.one_pos, by omega⟩
  unfold lexeme
  split
  next => exact ⟨by simp, by simpa using (List.takeWhile_prefix isBlank).length_le⟩
  next =>
    split
    -- quotes, `#` and the brackets and marks of one character
    iterate 2 exact stringLexeme_extent _ cs
    · split
      · exact markedLexeme_extent _ cs
      · exact one
    iterate 9 exact one
    -- `+`, `.` and `-`
    iterate 2
      split
      next h => exact numericLexeme_extent (numericLength_pos h)
      next => exact one
    · split
      next h => exact numericLexeme_extent (numericLength_pos h)
      next =>
        split
        next h => exact ⟨by simp, Nat.succ_le_succ (length_le_of_take ['-', '>'] h)⟩
        next =>
          split
          next h => exact identLexeme_extent (nameLength_pos_of_startsIdent h)
          next => exact one
    -- `<`, `@`, `\\` and `/`
    · split
      next h => exact ⟨by simp, Nat.succ_le_succ (length_le_of_take ['!', '-', '-'] h)⟩
      next => exact one
    · split
      · exact markedLexeme_extent _ cs
      · exact one
    · split
      next h => exact identLexeme_extent (nameLength_pos (by simp [h]))
      next => exact one
    · split
      next h =>
        obtain ⟨rest, rfl⟩ : ∃ rest, cs = '*' :: rest := by
          cases cs <;> simp_all
        simpa using commentLexeme_extent rest
      next => exact one
    · split
      next h => exact numericLexeme_extent (numericLength_pos_of_startsDigit h)
      next =>
        split
        next h => exact identLexeme_extent (nameLength_pos (by simp [isNameChar, h]))
        next => exact one

end Lexemes

end AboveFold.Token
