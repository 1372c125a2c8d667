import AboveFold.Proofs.Token.NameEnd

/-!
# Where numbers end

A number is read in stages: sign, digits, fraction, exponent and unit. A stage that ends inside of a text
does the same whatever calmer text follows, and so does the whole (`numericLength_append`).
-/

namespace AboveFold.Token
open Text

section Numbers

variable {xs r r' : List Char}

theorem digitsLength_of_stop (stop : startsDigit r = false) : digitsLength r = 0 := by
  cases r with
  | nil => rfl
  | cons c r => simp [digitsLength, show c.isDigit = false from stop]

theorem digitsLength_cons (c : Char) (cs : List Char) :
    digitsLength (c :: cs) = if c.isDigit then digitsLength cs + 1 else 0 := by
  unfold digitsLength
  rw [List.takeWhile_cons]
  split <;> rfl

theorem startsDigit_eq_false (none : digitsLength r = 0) : startsDigit r = false := by
  refine Bool.eq_false_iff.2 fun digit => ?_
  have := digitsLength_pos digit
  omega

theorem Calmer.startsDigit_eq_false (calmer : Calmer r r') (stop : startsDigit r = false) : startsDigit r' = false :=
  Bool.eq_false_iff.2 fun digit => by simp [calmer.digit digit] at stop

theorem digitsLength_append (calmer : Calmer r r') (inside : digitsLength (xs ++ r) ≤ xs.length) :
    digitsLength (xs ++ r') = digitsLength (xs ++ r) := by
  induction xs with
  | nil =>
    have none : digitsLength r = 0 := Nat.le_zero.1 inside
    have stop := calmer.startsDigit_eq_false (startsDigit_eq_false none)
    exact (digitsLength_of_stop stop).trans none.symm
  | cons c xs ih =>
    simp only [List.cons_append, digitsLength_cons] at inside ⊢
    split
    next digit =>
      rw [if_pos digit] at inside
      rw [ih (Nat.le_of_succ_le_succ inside)]
    next => rfl

theorem signLength_append (more : xs ≠ []) : signLength (xs ++ r) = signLength xs := by
  cases xs with
  | nil => exact absurd rfl more
  | cons c xs => rfl

/-- A text that ends before a digit can be followed by another text only if it is not empty. -/
theorem startsDigit_append (calmer : Calmer r r') (more : startsDigit r = true → xs ≠ []) :
    startsDigit (xs ++ r') = startsDigit (xs ++ r) := by
  cases xs with
  | nil =>
    have stop : startsDigit r = false := Bool.eq_false_iff.2 fun digit => more digit rfl
    exact (calmer.startsDigit_eq_false stop).trans stop.symm
  | cons c xs => rfl

theorem fractionLength_append (calmer : Calmer r r') (inside : fractionLength (xs ++ r) ≤ xs.length) :
    fractionLength (xs ++ r') = fractionLength (xs ++ r) := by
  cases xs with
  | nil =>
    have none : fractionLength r = 0 := Nat.le_zero.1 inside
    have none' : ¬0 < fractionLength r' := fun some => by have := calmer.fraction some; omega
    exact (Nat.eq_zero_of_not_pos none').trans none.symm
  | cons c xs =>
    by_cases point : c = '.'
    · subst point
      simp only [List.cons_append, fractionLength_cons, true_and, List.length_cons] at inside ⊢
      have more (digit : startsDigit r = true) : xs ≠ [] := by
        rintro rfl
        have := digitsLength_pos digit
        simp [digit] at inside
        omega
      rw [startsDigit_append calmer more]
      split
      next digit =>
        rw [if_pos digit] at inside
        rw [digitsLength_append calmer (Nat.le_of_succ_le_succ inside)]
      next => rfl
    · simp [fractionLength_cons, point]

theorem exponentLength_append (calmer : Calmer r r') (inside : exponentLength (xs ++ r) ≤ xs.length) :
    exponentLength (xs ++ r') = exponentLength (xs ++ r) := by
  cases xs with
  | nil =>
    have none : exponentLength r = 0 := Nat.le_zero.1 inside
    have none' : ¬0 < exponentLength r' := fun some => by have := calmer.exponent some; omega
    exact (Nat.eq_zero_of_not_pos none').trans none.symm
  | cons c xs =>
    simp only [List.cons_append, exponentLength_cons] at inside ⊢
    cases letter : (c = 'e' || c = 'E') with
    | false => simp
    | true =>
      simp only [letter, Bool.true_and] at inside ⊢
      cases xs with
      | nil =>
        have stop : startsSigned r = false := by
          refine Bool.eq_false_iff.2 fun signed => ?_
          have := digitsLength_pos signed
          simp [signed] at inside
          omega
        have stop' : startsSigned r' = false := Bool.eq_false_iff.2 fun signed => by simp [calmer.signed signed] at stop
        simp [stop, stop']
      | cons d xs =>
        have same (r : List Char) : signLength (d :: xs ++ r) = signLength (d :: xs) := signLength_append (by simp)
        have sign : signLength (d :: xs) ≤ (d :: xs).length := signLength_le _
        have size : ((d :: xs).drop (signLength (d :: xs))).length + signLength (d :: xs) = (d :: xs).length := by
          rw [List.length_drop]
          omega
        simp only [startsSigned, same, List.drop_append_of_le_length sign] at inside ⊢
        generalize (d :: xs).drop (signLength (d :: xs)) = ys at *
        have more (digit : startsDigit r = true) : ys ≠ [] := by
          rintro rfl
          have := digitsLength_pos digit
          simp only [List.nil_append, digit, if_true, List.length_cons, List.length_nil] at inside size
          omega
        rw [startsDigit_append calmer more]
        split
        next digit =>
          rw [if_pos digit, List.length_cons, ← size] at inside
          rw [digitsLength_append calmer (by omega)]
        next => rfl

theorem Calmer.goesOn_eq_false (calmer : Calmer r r') (stop : goesOn r = false) : goesOn r' = false :=
  Bool.eq_false_iff.2 fun on => by simp [calmer.name on] at stop

theorem goesOn_eq_false (none : nameLength 0 r = 0) : goesOn r = false := by
  refine Bool.eq_false_iff.2 fun on => ?_
  have := nameLength_pos_of_goesOn on
  omega

/-- Behind the whole of a name no name goes on. -/
theorem goesOn_eq_false_of_whole {skip : Nat} (inside : skip ≤ xs.length)
    (whole : nameLength skip (xs ++ r) = xs.length) : goesOn r = false := by
  induction xs generalizing skip with
  | nil =>
    obtain rfl : skip = 0 := Nat.le_zero.1 inside
    exact goesOn_eq_false whole
  | cons c xs ih =>
    cases skip with
    | succ skip => exact ih (Nat.le_of_succ_le_succ inside) (Nat.succ.inj whole)
    | zero =>
      rw [List.cons_append, nameLength] at whole
      split at whole
      next => exact ih (Nat.zero_le _) (Nat.succ.inj whole)
      next =>
        split at whole
        next escape =>
          obtain ⟨-, reaches⟩ := escape_inside (Bool.and_eq_true_iff.1 escape).2 (Nat.succ.inj whole)
          exact ih reaches (Nat.succ.inj whole)
        next => cases whole

theorem unitLength_pos (h : startsIdent r = true) : 0 < unitLength r := by
  cases r with
  | nil => cases h
  | cons c r => simpa [unitLength, h] using nameLength_pos_of_startsIdent h

theorem startsIdent_percent (cs : List Char) : startsIdent ('%' :: cs) = false := by
  have name : isNameChar '%' = false := by decide
  simp [startsIdent_cons, goesOn, name]

theorem unitLength_append (calmer : Calmer r r') (whole : unitLength (xs ++ r) = xs.length)
    (shut : Shut 0 xs r r') : unitLength (xs ++ r') = xs.length := by
  cases xs with
  | nil =>
    have ident : ¬startsIdent r = true := fun h => by
      have := unitLength_pos h
      simp_all
    have percent : r.head? ≠ some '%' := fun h => by simp [unitLength, ident, h] at whole
    have ident' : ¬startsIdent r' = true := fun h => ident (calmer.ident h)
    have percent' : r'.head? ≠ some '%' := fun h => percent (calmer.head '%' (by simp) h)
    simp [unitLength, ident', percent']
  | cons c xs =>
    unfold unitLength at whole ⊢
    split at whole
    next ident =>
      have ident' := startsIdent_append (startsIdent_of_append (by simp) whole ident) r'
      have stop := calmer.goesOn_eq_false (goesOn_eq_false_of_whole (Nat.zero_le _) whole)
      rw [if_pos ident', nameLength_append (Nat.zero_le _) whole stop shut]
    next =>
      split at whole
      next percent =>
        obtain rfl : c = '%' := by simpa using percent
        obtain rfl : xs = [] := by simpa using whole
        simp [startsIdent_percent]
      next => cases whole

/-- A stage of a scan that ends inside of a text does the same before a calmer rest. -/
theorem stage_append {f : List Char → Nat} {n : Nat}
    (stays : ∀ {ys}, f (ys ++ r) ≤ ys.length → f (ys ++ r') = f (ys ++ r)) (inside : n ≤ xs.length)
    (next : n + f ((xs ++ r).drop n) ≤ xs.length) : f ((xs ++ r').drop n) = f ((xs ++ r).drop n) := by
  rw [List.drop_append_of_le_length inside] at next ⊢
  rw [List.drop_append_of_le_length inside]
  apply stays
  rw [List.length_drop]
  omega

/-- The characters of a number without its unit. -/
def isNumeral (c : Char) : Bool := c.isDigit || ['+', '-', '.', 'e', 'E'].contains c

theorem ne_backslash_of_isNumeral {c : Char} (numeral : isNumeral c = true) : c ≠ '\\' := by
  rintro rfl
  cases numeral

/-- A scan that takes only what a number without its unit is made of. -/
def TakesNumerals (f : List Char → Nat) : Prop :=
  ∀ cs : List Char, ∀ c ∈ cs.take (f cs), isNumeral c = true

/-- One such scan behind another. -/
theorem TakesNumerals.stage {f g : List Char → Nat} (hf : TakesNumerals f) (hg : TakesNumerals g) :
    TakesNumerals fun cs => f cs + g (cs.drop (f cs)) := by
  intro cs c mem
  rw [List.take_add, List.mem_append] at mem
  exact mem.elim (hf cs c) (hg _ c)

theorem numerals_signLength : TakesNumerals signLength := by
  intro cs c mem
  cases cs with
  | nil => simp at mem
  | cons d cs =>
    simp only [signLength] at mem
    split at mem
    next sign =>
      obtain rfl : c = d := by simpa using mem
      rcases (by simpa using sign : c = '+' ∨ c = '-') with rfl | rfl <;> rfl
    next => simp at mem

theorem numerals_digitsLength : TakesNumerals digitsLength := by
  intro cs c mem
  have taken : cs.take (digitsLength cs) = cs.takeWhile Char.isDigit := by
    exact (List.prefix_iff_eq_take.1 (List.takeWhile_prefix _)).symm
  rw [taken] at mem
  have digit : c.isDigit = true := List.all_eq_true.1 List.all_takeWhile _ mem
  simp [isNumeral, digit]

theorem numerals_fractionLength : TakesNumerals fractionLength := by
  intro cs c mem
  cases cs with
  | nil => simp at mem
  | cons d cs =>
    rw [fractionLength_cons] at mem
    split at mem
    next point =>
      rcases List.mem_cons.1 mem with rfl | mem
      · rw [point.1]
        rfl
      · exact numerals_digitsLength cs c mem
    next => simp at mem

theorem numerals_exponentLength : TakesNumerals exponentLength := by
  intro cs c mem
  cases cs with
  | nil => simp at mem
  | cons d cs =>
    rw [exponentLength_cons] at mem
    split at mem
    next letter =>
      rcases List.mem_cons.1 mem with rfl | mem
      · rcases (by simpa using (Bool.and_eq_true_iff.1 letter).1 : c = 'e' ∨ c = 'E') with rfl | rfl <;> rfl
      · exact numerals_signLength.stage numerals_digitsLength cs c mem
    next => simp at mem

/-- What takes no backslash does not matter for an escape at the end. -/
theorem endsOpen_append {front : List Char} (numerals : ∀ c ∈ front, c ≠ '\\') :
    endsOpen 0 (front ++ xs) = endsOpen 0 xs := by
  induction front with
  | nil => rfl
  | cons c front ih =>
    rw [List.forall_mem_cons] at numerals
    rw [List.cons_append, endsOpen, if_neg numerals.1, ih numerals.2]

/-- The extent of a number without its unit. -/
def numberLength (cs : List Char) : Nat :=
  let sign := signLength cs
  let whole := sign + digitsLength (cs.drop sign)
  let fraction := whole + fractionLength (cs.drop whole)
  fraction + exponentLength (cs.drop fraction)

theorem numericLength_eq (cs : List Char) :
    numericLength cs = numberLength cs + unitLength (cs.drop (numberLength cs)) := rfl

theorem numerals_numberLength : TakesNumerals numberLength :=
  ((numerals_signLength.stage numerals_digitsLength).stage numerals_fractionLength).stage numerals_exponentLength

theorem numberLength_append (calmer : Calmer r r') (more : xs ≠ []) (inside : numberLength (xs ++ r) ≤ xs.length) :
    numberLength (xs ++ r') = numberLength (xs ++ r) := by
  unfold numberLength at inside ⊢
  have sign : signLength (xs ++ r') = signLength (xs ++ r) := by
    rw [signLength_append more, signLength_append more]
  dsimp only at inside ⊢
  rw [sign]
  generalize signLength (xs ++ r) = s at *
  rw [stage_append (digitsLength_append calmer) (by omega) (by omega)]
  generalize s + digitsLength ((xs ++ r).drop s) = d at *
  rw [stage_append (fractionLength_append calmer) (by omega) (by omega)]
  generalize d + fractionLength ((xs ++ r).drop d) = f at *
  rw [stage_append (exponentLength_append calmer) (by omega) (by omega)]

/-- A number is made of numerals and a unit: a name, a percent sign or nothing. -/
theorem exists_unit (whole : numericLength (xs ++ r) = xs.length) :
    ∃ front unit, xs = front ++ unit ∧ (∀ c ∈ front, isNumeral c = true)
      ∧ (nameLength 0 (unit ++ r) = unit.length ∨ unit = ['%'] ∨ unit = []) := by
  rw [numericLength_eq] at whole
  have inside : numberLength (xs ++ r) ≤ xs.length := by omega
  have numerals := numerals_numberLength (xs ++ r)
  generalize numberLength (xs ++ r) = n at *
  rw [List.take_append_of_le_length inside] at numerals
  rw [List.drop_append_of_le_length inside] at whole
  refine ⟨xs.take n, xs.drop n, (List.take_append_drop n xs).symm, numerals, ?_⟩
  have size : unitLength (xs.drop n ++ r) = (xs.drop n).length := by
    rw [List.length_drop]
    omega
  unfold unitLength at size
  split at size
  next => exact .inl size
  next =>
    split at size
    next percent =>
      obtain ⟨c, one⟩ := List.length_eq_one_iff.1 size.symm
      rw [one] at percent ⊢
      obtain rfl : c = '%' := by simpa using percent
      exact .inr (.inl rfl)
    next => exact .inr (.inr (List.length_eq_zero_iff.1 size.symm))

/-- A number does not end in a backslash that escapes what is behind it. -/
theorem not_bare_of_numericLength (whole : numericLength (xs ++ r) = xs.length) : ¬Bare xs := by
  intro bare
  obtain ⟨front, unit, rfl, numerals, read⟩ := exists_unit whole
  have bare := bare.right fun c mem => ne_backslash_of_isNumeral (numerals c mem)
  rcases read with read | rfl | rfl
  · exact not_bare_of_whole read bare
  · obtain ⟨before, e, -⟩ := bare.tail (by decide)
    cases before <;> cases e
  · obtain ⟨before, e, -⟩ := bare
    cases before <;> cases e

/-- A number that ends before a text ends before every calmer one. -/
theorem numericLength_append (calmer : Calmer r r') (more : xs ≠ []) (whole : numericLength (xs ++ r) = xs.length)
    (shut : Shut 0 xs r r') : numericLength (xs ++ r') = xs.length := by
  rw [numericLength_eq] at whole ⊢
  have inside : numberLength (xs ++ r) ≤ xs.length := by omega
  have numerals := numerals_numberLength (xs ++ r)
  rw [numberLength_append calmer more inside]
  generalize numberLength (xs ++ r) = n at *
  rw [List.take_append_of_le_length inside] at numerals
  rw [List.drop_append_of_le_length inside] at whole ⊢
  have unit : unitLength (xs.drop n ++ r') = (xs.drop n).length := by
    refine unitLength_append calmer ?_ (shut.imp_right fun h blank => ?_)
    · rw [List.length_drop]
      omega
    · rw [← h blank, ← endsOpen_append fun c mem => ne_backslash_of_isNumeral (numerals c mem), List.take_append_drop]
  rw [unit, List.length_drop]
  omega

end Numbers

end AboveFold.Token
