import AboveFold.Proofs.Token.Calmer

/-!
# Where names end

A name that ends before a text ends before every other in which no name goes on (`nameLength_append`).
Blanks are the exception: an escape of hexadecimal digits at the end of a name takes the first blank behind
it, and a carriage return that it took takes a line feed (`endsOpen`).
-/

namespace AboveFold.Token
open Text

/-- The number of hexadecimal digits at the front, up to six. -/
def hexLength (cs : List Char) : Nat := ((cs.take 6).takeWhile isHexDigit).length

/-- Whether what stands behind a backslash, up to the end of a text, is a hexadecimal escape that can still
take a blank. A carriage return can still take a line feed. -/
def isOpenEscape (cs : List Char) : Bool :=
  0 < hexLength cs && (cs.drop (hexLength cs) = [] || cs.drop (hexLength cs) = ['\r'])

/-- Whether a text ends in a hexadecimal escape that can still take a blank. -/
def endsOpen : (skip : Nat) → List Char → Bool
  | _, [] => false
  | skip + 1, _ :: cs => endsOpen skip cs
  | 0, c :: cs => if c = '\\' then isOpenEscape cs || endsOpen (escapeLength cs) cs else endsOpen 0 cs

/-- The text `r'` starts with a blank only where `r` does, and with a line feed only where `r` does. -/
structure Tighter (r r' : List Char) : Prop where
  blank : r'.head?.any isBlank = true → r.head?.any isBlank = true
  feed : r'.head? = some '\n' → r.head? = some '\n'

theorem Tighter.of_head {r r' : List Char} (same : r'.head? = r.head?) : Tighter r r' where
  blank := by rw [same]; exact id
  feed := by rw [same]; exact id

/-- Behind the text `xs`, `r'` gives an escape no blank that `r` does not give it: it starts with no blank that `r`
has not there, or with none that an escape at the end of `xs` could take. -/
def Shut (skip : Nat) (xs r r' : List Char) : Prop :=
  Tighter r r' ∨ (r'.head?.any isBlank = true → endsOpen skip xs = false)

section Escapes

variable {xs r r' : List Char}

theorem isNameChar_of_isHexDigit {c : Char} (h : isHexDigit c = true) : isNameChar c = true := by
  simp only [isNameChar, isNameStart, Bool.or_eq_true, isAlpha_iff]
  simp only [isHexDigit, Bool.or_eq_true, Bool.and_eq_true, decide_eq_true_eq, Char.le_def, UInt32.le_iff_toNat_le] at h
  rcases h with (digit | lower) | upper
  · exact .inr digit
  · exact .inl (.inl (.inl (.inr (.inr (by simp at lower ⊢; omega)))))
  · exact .inl (.inl (.inl (.inr (.inl (by simp at upper ⊢; omega)))))

theorem hexLength_le (cs : List Char) : hexLength cs ≤ cs.length :=
  Nat.le_trans (List.takeWhile_prefix _).length_le (List.length_take_le' ..)

theorem escapeLength_eq (cs : List Char) :
    escapeLength cs = if hexLength cs = 0 then 1 else hexLength cs + escapeEnd (cs.drop (hexLength cs)) := rfl

/-- Digits do not go on into a text that starts with none. -/
theorem hexLength_append_of_stop (stop : r.head?.any isHexDigit = false) : hexLength (xs ++ r) = hexLength xs := by
  have none (n : Nat) : (r.take n).takeWhile isHexDigit = [] := by
    cases r with
    | nil => simp
    | cons c r => cases n <;> simp_all
  unfold hexLength
  rw [List.take_append, List.takeWhile_append, none]
  split
  next whole => rw [List.append_nil, whole]
  next => rfl

/-- Digits that end inside a text do not hang on what follows it. -/
theorem hexLength_append_of_le (inside : hexLength (xs ++ r) ≤ xs.length) : hexLength (xs ++ r) = hexLength xs := by
  unfold hexLength at inside ⊢
  rw [List.take_append, List.takeWhile_append] at inside ⊢
  split at inside
  next whole =>
    rw [if_pos whole]
    have few : ((r.take (6 - xs.length)).takeWhile isHexDigit).length ≤ 6 - xs.length :=
      Nat.le_trans (List.takeWhile_prefix _).length_le (List.length_take_le ..)
    rw [List.length_append, whole]
    rw [List.length_append, List.length_take] at inside
    rw [List.length_take]
    omega
  next part => rw [if_neg part]

theorem escapeEnd_cons (c : Char) (cs : List Char) :
    escapeEnd (c :: cs) = if c = '\r' ∧ cs.head? = some '\n' then 2 else if isBlank c then 1 else 0 := by
  unfold escapeEnd
  split
  next e =>
    obtain ⟨rfl, rfl⟩ := List.cons.inj e
    simp
  next other e =>
    obtain ⟨rfl, rfl⟩ := List.cons.inj e
    have apart : ¬(c = '\r' ∧ cs.head? = some '\n') := by
      rintro ⟨cr, lf⟩
      cases cs with
      | nil => simp at lf
      | cons d ds => exact other ds cr (by simpa using lf)
    rw [if_neg apart]
  next e => cases e

/-- What follows an escape does not matter if the escape takes none of it. -/
theorem escapeEnd_append {behind : List Char} (shut : r.head?.any isBlank = true → behind ≠ [] ∧ behind ≠ ['\r']) :
    escapeEnd (behind ++ r) = escapeEnd behind := by
  match behind with
  | [] =>
    cases r with
    | nil => rfl
    | cons c r =>
      have blank : isBlank c = false := by simpa using shut
      have other : c ≠ '\r' := by rintro rfl; cases blank
      simp [blank, other, escapeEnd]
  | [c] =>
    have feed : ¬(c = '\r' ∧ r.head? = some '\n') := by
      rintro ⟨rfl, e⟩
      exact (shut (by simp [e, isBlank])).2 rfl
    simp only [List.cons_append, List.nil_append, escapeEnd_cons, if_neg feed]
    simp
  | c :: d :: behind => simp [escapeEnd_cons]

theorem escapeEnd_append_of_le {behind : List Char} (inside : escapeEnd (behind ++ r) ≤ behind.length) :
    escapeEnd (behind ++ r) = escapeEnd behind := by
  match behind with
  | [] => exact Nat.le_zero.1 inside
  | [c] =>
    have feed : ¬(c = '\r' ∧ r.head? = some '\n') := by
      intro both
      simp [escapeEnd_cons, both] at inside
    simp only [List.cons_append, List.nil_append, escapeEnd_cons, if_neg feed]
    simp
  | c :: d :: behind => simp [escapeEnd_cons]

theorem escapeEnd_append_of_tighter {behind : List Char} (inside : escapeEnd (behind ++ r) ≤ behind.length)
    (tighter : Tighter r r') : escapeEnd (behind ++ r') = escapeEnd behind := by
  match behind with
  | [] =>
    have none : escapeEnd r = 0 := Nat.le_zero.1 inside
    have solid : r.head?.any isBlank = false := by
      cases r with
      | nil => rfl
      | cons c r =>
        rw [escapeEnd_cons] at none
        split at none
        next => cases none
        next => simpa using none
    refine escapeEnd_append fun blank => ?_
    rw [tighter.blank blank] at solid
    cases solid
  | [c] =>
    have feed : ¬(c = '\r' ∧ r'.head? = some '\n') := by
      rintro ⟨rfl, e⟩
      simp [escapeEnd_cons, tighter.feed e] at inside
    simp only [List.cons_append, List.nil_append, escapeEnd_cons, if_neg feed]
    simp
  | c :: d :: behind => simp [escapeEnd_cons]

/-- An escape ends where no digit and no blank goes on with it. -/
theorem escapeLength_append_of_stop (stop : r.head?.any isHexDigit = false)
    (shut : r.head?.any isBlank = true → isOpenEscape xs = false) : escapeLength (xs ++ r) = escapeLength xs := by
  rw [escapeLength_eq, escapeLength_eq, hexLength_append_of_stop stop]
  split
  next => rfl
  next digits =>
    rw [List.drop_append_of_le_length (hexLength_le xs), escapeEnd_append]
    intro blank
    have closed := shut blank
    simp only [isOpenEscape, Bool.and_eq_false_iff, Bool.or_eq_false_iff, decide_eq_false_iff_not] at closed
    exact closed.resolve_left (by omega)

theorem hexLength_append_of_escape (inside : escapeLength (xs ++ r) ≤ xs.length) :
    hexLength (xs ++ r) = hexLength xs := by
  apply hexLength_append_of_le
  rw [escapeLength_eq] at inside
  split at inside <;> omega

/-- An escape that ends inside a text does not hang on what follows it. -/
theorem escapeLength_append_of_le (inside : escapeLength (xs ++ r) ≤ xs.length) :
    escapeLength (xs ++ r) = escapeLength xs := by
  have digits : hexLength (xs ++ r) = hexLength xs := hexLength_append_of_escape inside
  rw [escapeLength_eq, digits] at inside ⊢
  rw [escapeLength_eq]
  split
  next => rfl
  next some =>
    rw [if_neg some] at inside
    rw [List.drop_append_of_le_length (hexLength_le xs)] at inside ⊢
    rw [escapeEnd_append_of_le]
    rw [List.length_drop]
    omega

/-- An escape that ends inside a text ends there before every other text that gives it no blank. -/
theorem escapeLength_append_of_tighter (inside : escapeLength (xs ++ r) ≤ xs.length)
    (stop : r'.head?.any isHexDigit = false) (tighter : Tighter r r') :
    escapeLength (xs ++ r') = escapeLength xs := by
  have digits : hexLength (xs ++ r) = hexLength xs := hexLength_append_of_escape inside
  rw [escapeLength_eq, digits] at inside
  rw [escapeLength_eq, escapeLength_eq, hexLength_append_of_stop stop]
  split
  next => rfl
  next some =>
    rw [if_neg some, List.drop_append_of_le_length (hexLength_le xs)] at inside
    rw [List.drop_append_of_le_length (hexLength_le xs), escapeEnd_append_of_tighter _ tighter]
    rw [List.length_drop]
    omega

end Escapes

section Names

variable {xs r r' : List Char}

theorem ne_nil_of_canEscape {cs : List Char} (h : canEscape cs = true) : cs ≠ [] := by
  rintro rfl
  cases h

theorem canEscape_append (more : xs ≠ []) : canEscape (xs ++ r) = canEscape xs := by
  cases xs with
  | nil => exact absurd rfl more
  | cons c xs => rfl

theorem nameLength_of_stop (stop : goesOn r = false) : nameLength 0 r = 0 := by
  cases r with
  | nil => rfl
  | cons c r =>
    obtain ⟨name, escape⟩ := Bool.or_eq_false_iff.1 stop
    simp [nameLength, name, escape]

theorem isHexDigit_head (stop : goesOn r = false) : r.head?.any isHexDigit = false := by
  cases r with
  | nil => rfl
  | cons c r =>
    obtain ⟨name, -⟩ := Bool.or_eq_false_iff.1 stop
    refine Bool.eq_false_iff.2 fun digit => ?_
    rw [isNameChar_of_isHexDigit digit] at name
    cases name

theorem le_nameLength {skip : Nat} {cs : List Char} (inside : skip ≤ cs.length) : skip ≤ nameLength skip cs := by
  induction cs generalizing skip with
  | nil => simp_all
  | cons c cs ih =>
    cases skip with
    | zero => omega
    | succ skip => exact Nat.succ_le_succ (ih (Nat.le_of_succ_le_succ inside))

theorem escapeEnd_le (cs : List Char) : escapeEnd cs ≤ cs.length := by
  unfold escapeEnd
  split
  · simp
  · split <;> simp
  · simp

theorem escapeLength_le {cs : List Char} (more : cs ≠ []) : escapeLength cs ≤ cs.length := by
  have some : 0 < cs.length := List.length_pos_iff.2 more
  have digits := hexLength_le cs
  have blank := escapeEnd_le (cs.drop (hexLength cs))
  rw [List.length_drop] at blank
  rw [escapeLength_eq]
  split <;> omega

theorem escapeLength_pos (cs : List Char) : 0 < escapeLength cs := by
  rw [escapeLength_eq]
  split <;> omega

/-- An escape is inside the name that ends behind it. -/
theorem escape_inside (escapes : canEscape (xs ++ r) = true)
    (rest : nameLength (escapeLength (xs ++ r)) (xs ++ r) = xs.length) :
    xs ≠ [] ∧ escapeLength (xs ++ r) ≤ xs.length := by
  have reaches : escapeLength (xs ++ r) ≤ xs.length :=
    rest ▸ le_nameLength (escapeLength_le (ne_nil_of_canEscape escapes))
  exact ⟨List.length_pos_iff.1 (Nat.lt_of_lt_of_le (escapeLength_pos _) reaches), reaches⟩

/-- A name that ends before a text ends before every other in which no name goes on, if no escape at its end
takes a blank of that. -/
theorem nameLength_append {skip : Nat} (inside : skip ≤ xs.length) (whole : nameLength skip (xs ++ r) = xs.length)
    (stop : goesOn r' = false) (shut : Shut skip xs r r') : nameLength skip (xs ++ r') = xs.length := by
  induction xs generalizing skip with
  | nil =>
    obtain rfl : skip = 0 := Nat.le_zero.1 inside
    exact nameLength_of_stop stop
  | cons c xs ih =>
    cases skip with
    | succ skip =>
      have before := ih (Nat.le_of_succ_le_succ inside) (Nat.succ.inj whole) shut
      exact congrArg Nat.succ before
    | zero =>
      rw [List.cons_append, nameLength] at whole ⊢
      by_cases name : isNameChar c = true
      · have other : c ≠ '\\' := by rintro rfl; exact absurd name (by decide)
        rw [if_pos name] at whole ⊢
        have shut' : Shut 0 xs r r' := by simpa [Shut, endsOpen, other] using shut
        rw [ih (Nat.zero_le _) (Nat.succ.inj whole) shut']
        rfl
      · rw [if_neg name] at whole ⊢
        split at whole
        next escape =>
          simp only [Bool.and_eq_true, decide_eq_true_eq] at escape
          obtain ⟨rfl, escapes⟩ := escape
          have rest : nameLength (escapeLength (xs ++ r)) (xs ++ r) = xs.length := Nat.succ.inj whole
          obtain ⟨more, reaches⟩ := escape_inside escapes rest
          have ends (open_ : r'.head?.any isBlank = true → endsOpen 0 ('\\' :: xs) = false)
              (blank : r'.head?.any isBlank = true) :
              isOpenEscape xs = false ∧ endsOpen (escapeLength xs) xs = false := by
            simpa [endsOpen] using open_ blank
          have escape : escapeLength (xs ++ r') = escapeLength xs :=
            shut.elim (escapeLength_append_of_tighter reaches (isHexDigit_head stop))
              fun h => escapeLength_append_of_stop (isHexDigit_head stop) fun blank => (ends h blank).1
          rw [escapeLength_append_of_le reaches] at rest reaches
          rw [escape, ih reaches rest (shut.imp_right fun h blank => (ends h blank).2)]
          rw [canEscape_append more] at escapes ⊢
          simp [escapes]
        next => cases whole

/-- A name without escapes is made of the characters of names. -/
theorem isNameChar_of_whole (whole : nameLength 0 (xs ++ r) = xs.length) (free : '\\' ∉ xs) :
    ∀ c ∈ xs, isNameChar c = true := by
  induction xs with
  | nil => simp
  | cons c xs ih =>
    rw [List.mem_cons, not_or] at free
    rw [List.cons_append, nameLength] at whole
    split at whole
    next name => exact List.forall_mem_cons.2 ⟨name, ih (Nat.succ.inj whole) free.2⟩
    next =>
      rw [if_neg (by simp [Ne.symm free.1])] at whole
      cases whole

/-- A name does not end in a backslash that escapes what is behind it. -/
theorem not_bare_of_whole (whole : nameLength 0 (xs ++ r) = xs.length) : ¬Bare xs := by
  rintro ⟨front, rfl, free⟩
  induction front with
  | nil =>
    have backslash : isNameChar '\\' = false := by decide
    cases escapes : canEscape r with
    | false => simp [nameLength, backslash, escapes] at whole
    | true =>
      have rest : nameLength (escapeLength r) r = 0 := by simpa [nameLength, backslash, escapes] using whole
      have reaches := rest ▸ le_nameLength (escapeLength_le (ne_nil_of_canEscape escapes))
      exact absurd (escapeLength_pos r) (Nat.not_lt.2 reaches)
  | cons c front ih =>
    rw [List.mem_cons, not_or] at free
    rw [List.cons_append, List.cons_append, nameLength] at whole
    split at whole
    next => exact ih free.2 (Nat.succ.inj whole)
    next =>
      rw [if_neg (by simp [Ne.symm free.1])] at whole
      cases whole

theorem nameLength_pos_of_goesOn (h : goesOn r = true) : 0 < nameLength 0 r := by
  cases r with
  | nil => cases h
  | cons c r => exact nameLength_pos h

/-- Where a name goes on, it does so in every longer text. -/
theorem goesOn_append (h : goesOn xs = true) (r : List Char) : goesOn (xs ++ r) = true := by
  cases xs with
  | nil => cases h
  | cons c xs =>
    simp only [List.cons_append, goesOn, Bool.or_eq_true, Bool.and_eq_true] at h ⊢
    refine h.imp_right (And.imp_right fun escapes => ?_)
    exact (canEscape_append (ne_nil_of_canEscape escapes)).trans escapes

/-- A name goes on inside of the text that is all of it. -/
theorem goesOn_of_append (more : xs ≠ []) (whole : nameLength 0 (xs ++ r) = xs.length)
    (h : goesOn (xs ++ r) = true) : goesOn xs = true := by
  cases xs with
  | nil => exact absurd rfl more
  | cons c xs =>
    simp only [List.cons_append, goesOn, Bool.or_eq_true, Bool.and_eq_true, decide_eq_true_eq] at h ⊢
    refine h.imp_right ?_
    rintro ⟨rfl, escapes⟩
    have rest : nameLength (escapeLength (xs ++ r)) (xs ++ r) = xs.length := by
      have backslash : isNameChar '\\' = false := by decide
      simpa [nameLength, backslash, escapes] using whole
    obtain ⟨more, -⟩ := escape_inside escapes rest
    exact ⟨rfl, canEscape_append more ▸ escapes⟩

theorem startsDigit_append_of_ne_nil (more : xs ≠ []) (r : List Char) : startsDigit (xs ++ r) = startsDigit xs := by
  cases xs with
  | nil => exact absurd rfl more
  | cons c xs => rfl

theorem startsIdent_append (h : startsIdent xs = true) (r : List Char) : startsIdent (xs ++ r) = true := by
  have front (cs : List Char) (h : (goesOn cs && !startsDigit cs) = true) :
      (goesOn (cs ++ r) && !startsDigit (cs ++ r)) = true := by
    obtain ⟨on, digit⟩ := Bool.and_eq_true_iff.1 h
    have more : cs ≠ [] := by rintro rfl; cases on
    rw [goesOn_append on, startsDigit_append_of_ne_nil more, digit]
    rfl
  cases xs with
  | nil => cases h
  | cons c xs =>
    rw [List.cons_append, startsIdent_cons]
    rw [startsIdent_cons] at h
    split
    next hyphen => exact front xs (by rwa [if_pos hyphen] at h)
    next other => exact front (c :: xs) (by rwa [if_neg other] at h)

/-- An identifier starts inside of the text that is all of it. -/
theorem startsIdent_of_append (more : xs ≠ []) (whole : nameLength 0 (xs ++ r) = xs.length)
    (h : startsIdent (xs ++ r) = true) : startsIdent xs = true := by
  have front (cs : List Char) (more : cs ≠ []) (whole : nameLength 0 (cs ++ r) = cs.length)
      (h : (goesOn (cs ++ r) && !startsDigit (cs ++ r)) = true) : (goesOn cs && !startsDigit cs) = true := by
    obtain ⟨on, digit⟩ := Bool.and_eq_true_iff.1 h
    rw [startsDigit_append_of_ne_nil more] at digit
    rw [goesOn_of_append more whole on, digit]
    rfl
  cases xs with
  | nil => exact absurd rfl more
  | cons c xs =>
    rw [List.cons_append, startsIdent_cons] at h
    rw [startsIdent_cons]
    split
    next hyphen =>
      subst hyphen
      rw [if_pos rfl] at h
      have rest : nameLength 0 (xs ++ r) = xs.length := by
        have name : isNameChar '-' = true := by decide
        simpa [nameLength, name] using whole
      refine front xs ?_ rest h
      rintro rfl
      have := nameLength_pos_of_goesOn (Bool.and_eq_true_iff.1 h).1
      rw [rest] at this
      exact absurd this (by simp)
    next other =>
      rw [if_neg other] at h
      exact front (c :: xs) more whole h

end Names

end AboveFold.Token
