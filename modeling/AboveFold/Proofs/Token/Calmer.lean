import AboveFold.Proofs.Token.Extent

/-!
# What may follow a token

A token that ends asks only a few questions of the text behind it: whether a name or a number goes on
there, or one of the marks that join with others. `Calmer r r'` says that no answer is yes for `r'` that is
no for `r`. A text that breaks is calmer than any other (`Calmer.of_breaks`), and what stands before two
texts does not make the one less calm, but for a backslash that ends there (`Calmer.append`).
-/

namespace AboveFold.Token
open Text


/-- Whether a name goes on: with one of its characters, or with an escape. -/
def goesOn : List Char → Bool
  | c :: cs => isNameChar c || (c = '\\' && canEscape cs)
  | [] => false

/-- Whether a digit, or a sign and a digit, stands at the front. -/
def startsSigned (cs : List Char) : Bool :=
  startsDigit (cs.drop (signLength cs))

/-- Whatever could go on into the text `r'` could go on into `r`. -/
structure Calmer (r r' : List Char) : Prop where
  name : goesOn r' = true → goesOn r = true
  digit : startsDigit r' = true → startsDigit r = true
  unsigned : startsUnsigned r' = true → startsUnsigned r = true
  fraction : 0 < fractionLength r' → 0 < fractionLength r
  exponent : 0 < exponentLength r' → 0 < exponentLength r
  signed : startsSigned r' = true → startsSigned r = true
  ident : startsIdent r' = true → startsIdent r = true
  hyphenated : startsIdent ('-' :: r') = true → startsIdent ('-' :: r) = true
  head : ∀ c ∈ ['(', '%', '*', '>', '-'], r'.head? = some c → r.head? = some c
  arrow : r'.take 2 = ['-', '>'] → r.take 2 = ['-', '>']
  hyphens : r'.take 2 = ['-', '-'] → r.take 2 = ['-', '-']
  mark : r'.take 3 = ['!', '-', '-'] → r.take 3 = ['!', '-', '-']

theorem Calmer.refl (r : List Char) : Calmer r r := by
  constructor <;> simp

/-- A character that no token before it can take, but for a blank behind an escape. -/
def isBreak (c : Char) : Bool :=
  !isNameChar c && !(['\\', '(', '%', '.', '+', '*', '>', '!'].contains c)

theorem isBreak_of_isBlank {c : Char} (blank : isBlank c = true) : isBreak c = true := by
  simp only [isBlank, Bool.or_eq_true, decide_eq_true_eq] at blank
  rcases blank with (((rfl | rfl) | rfl) | rfl) | rfl <;> rfl

/-- Whether a text is at its end or goes on with a break. -/
def breaks : List Char → Bool
  | c :: _ => isBreak c
  | [] => true

theorem isAlpha_iff {c : Char} : c.isAlpha = true ↔ 65 ≤ c.toNat ∧ c.toNat ≤ 90 ∨ 97 ≤ c.toNat ∧ c.toNat ≤ 122 := by
  show (decide ('A'.val ≤ c.val ∧ c.val ≤ 'Z'.val) || (decide ('a'.val ≤ c.val) && decide (c.val ≤ 'z'.val))) = true ↔ _
  simp [UInt32.le_iff_toNat_le]

theorem startsUnsigned_cons (c : Char) (cs : List Char) :
    startsUnsigned (c :: cs) = if c = '.' then startsDigit cs else c.isDigit := by
  unfold startsUnsigned
  split <;> simp_all [startsDigit]

theorem startsSigned_cons (c : Char) (cs : List Char) :
    startsSigned (c :: cs) = if c = '+' ∨ c = '-' then startsDigit cs else c.isDigit := by
  by_cases h : c = '+' ∨ c = '-' <;> simp [startsSigned, signLength, startsDigit, h]

theorem fractionLength_cons (c : Char) (cs : List Char) :
    fractionLength (c :: cs) = if c = '.' ∧ startsDigit cs = true then digitsLength cs + 1 else 0 := by
  unfold fractionLength
  split <;> simp_all

theorem exponentLength_cons (c : Char) (cs : List Char) :
    exponentLength (c :: cs) = if (c = 'e' || c = 'E') && startsSigned cs then
      signLength cs + digitsLength (cs.drop (signLength cs)) + 1 else 0 := rfl

theorem isNameStart_of_isDigit {c : Char} (h : c.isDigit = true) : isNameStart c = false := by
  have digit : 48 ≤ c.toNat ∧ c.toNat ≤ 57 := by
    simpa [Char.isDigit, UInt32.le_iff_toNat_le] using h
  have other : c ≠ '_' := by rintro rfl; exact absurd digit (by decide)
  have letter : c.isAlpha = false := by
    rw [Bool.eq_false_iff, ne_eq, isAlpha_iff]
    omega
  simp [isNameStart, isAscii, letter, other]
  omega

/-- An identifier is a name that does not start with a digit, perhaps behind a hyphen. -/
theorem startsIdent_cons (c : Char) (cs : List Char) :
    startsIdent (c :: cs) =
      if c = '-' then goesOn cs && !startsDigit cs else goesOn (c :: cs) && !startsDigit (c :: cs) := by
  have start (d : Char) (ds : List Char) (other : d ≠ '-') :
      (goesOn (d :: ds) && !startsDigit (d :: ds)) = (isNameStart d || (d = '\\' && canEscape ds)) := by
    cases digit : d.isDigit with
    | true =>
      have backslash : d ≠ '\\' := by rintro rfl; cases digit
      simp [startsDigit, digit, isNameStart_of_isDigit digit, backslash]
    | false => simp [goesOn, isNameChar, startsDigit, digit, other]
  have hyphen : isNameStart '-' = false := by decide
  unfold startsIdent
  split
  next c cs h =>
    obtain ⟨rfl, rfl⟩ := List.cons.inj h
    rw [if_pos rfl]
    by_cases again : c = '-'
    · subst again
      simp [goesOn, isNameChar, startsDigit]
    · simp [start c cs again, again]
  next h =>
    obtain ⟨rfl, rfl⟩ := List.cons.inj h
    rw [if_neg (by decide), start _ _ (by decide)]
    simp [isNameStart, isAscii]
  next more other h =>
    obtain ⟨rfl, rfl⟩ := List.cons.inj h
    split
    next e =>
      subst e
      cases cs with
      | nil => exact hyphen
      | cons d ds => exact (more d ds rfl rfl).elim
    next e =>
      rw [start _ _ e]
      simpa using fun e => (other e).elim
  next h => cases h

/-- A text that breaks answers no to everything that a token asks. -/
theorem Calmer.of_breaks (r : List Char) {s : List Char} (h : breaks s = true) : Calmer r s := by
  cases s with
  | nil =>
    constructor <;>
      simp [goesOn, startsDigit, startsUnsigned, startsSigned, signLength, fractionLength, exponentLength, startsIdent,
        isNameStart, isAscii]
  | cons c s =>
    simp only [breaks, isBreak, Bool.and_eq_true, Bool.not_eq_true', List.contains_eq_mem, decide_eq_false_iff_not,
      List.mem_cons, List.not_mem_nil, or_false, not_or] at h
    obtain ⟨name, backslash, paren, percent, point, plus, star, arrow, mark⟩ := h
    have start : isNameStart c = false := by simp_all [isNameChar]
    have hyphen : c ≠ '-' := by rintro rfl; cases name
    have digit : c.isDigit = false := by simp_all [isNameChar]
    have exponent : c ≠ 'e' ∧ c ≠ 'E' := by
      constructor <;> (rintro rfl; cases name)
    constructor <;>
      simp_all [goesOn, startsDigit, startsUnsigned_cons, startsSigned_cons, startsIdent_cons, fractionLength_cons,
        exponentLength_cons]

theorem take_one {cs : List Char} {c : Char} : cs.take 1 = [c] ↔ cs.head? = some c := by
  cases cs <;> simp

/-- The same character may stand before both, if it is no backslash that escapes only in front of the calmer one. -/
theorem Calmer.cons {r r' : List Char} (h : Calmer r r') (c : Char)
    (escape : c = '\\' → canEscape r' = true → canEscape r = true) : Calmer (c :: r) (c :: r') := by
  have named : goesOn (c :: r') = true → goesOn (c :: r) = true := by
    simp only [goesOn, Bool.or_eq_true, Bool.and_eq_true, decide_eq_true_eq]
    exact Or.imp_right fun ⟨backslash, escapes⟩ => ⟨backslash, escape backslash escapes⟩
  constructor
  case name => exact named
  case digit => exact id
  case unsigned =>
    rw [startsUnsigned_cons, startsUnsigned_cons]
    split
    · exact h.digit
    · exact id
  case signed =>
    rw [startsSigned_cons, startsSigned_cons]
    split
    · exact h.digit
    · exact id
  case fraction =>
    simp only [fractionLength_cons]
    split
    next here => simp [here.1, h.digit here.2]
    next => simp
  case exponent =>
    simp only [exponentLength_cons]
    split
    next here =>
      obtain ⟨letter, signed⟩ := Bool.and_eq_true_iff.1 here
      simp [letter, h.signed signed]
    next => simp
  case ident =>
    by_cases e : c = '-'
    · subst e
      exact h.hyphenated
    · simp only [startsIdent_cons, e, if_false, Bool.and_eq_true]
      exact And.imp_left named
  case hyphenated =>
    simp only [startsIdent_cons, if_true, Bool.and_eq_true]
    exact And.imp_left named
  case head => exact fun _ _ => id
  case arrow =>
    simp only [List.take_succ_cons, List.cons.injEq, take_one]
    exact And.imp_right (h.head '>' (by simp))
  case hyphens =>
    simp only [List.take_succ_cons, List.cons.injEq, take_one]
    exact And.imp_right (h.head '-' (by simp))
  case mark =>
    simp only [List.take_succ_cons, List.cons.injEq]
    exact And.imp_right h.hyphens

/-- A text has one backslash and ends with it: what that escapes is not in the text. -/
def Bare (cs : List Char) : Prop := ∃ front, cs = front ++ ['\\'] ∧ '\\' ∉ front

theorem Bare.cons {cs : List Char} (h : Bare cs) {c : Char} (other : c ≠ '\\') : Bare (c :: cs) := by
  obtain ⟨front, rfl, free⟩ := h
  exact ⟨c :: front, rfl, by simp [free, other.symm]⟩

theorem Bare.tail {c : Char} {cs : List Char} (h : Bare (c :: cs)) (other : c ≠ '\\') : Bare cs := by
  obtain ⟨front, e, free⟩ := h
  cases front with
  | nil => exact absurd (List.cons.inj e).1 other
  | cons d front => exact ⟨front, (List.cons.inj e).2, fun mem => free (List.mem_cons_of_mem d mem)⟩

theorem Bare.right {front cs : List Char} (h : Bare (front ++ cs)) (free : ∀ c ∈ front, c ≠ '\\') : Bare cs := by
  induction front with
  | nil => exact h
  | cons c front ih =>
    rw [List.forall_mem_cons] at free
    exact ih (h.tail free.1) free.2

/-- A backslash and what it escapes say all that a token asks, whatever stands behind them. -/
theorem Calmer.of_escape (c : Char) (r r' : List Char) : Calmer ('\\' :: c :: r) ('\\' :: c :: r') := by
  have name : isNameChar '\\' = false := by decide
  constructor <;>
    simp [goesOn, name, canEscape, startsDigit, startsUnsigned_cons, startsSigned_cons, startsIdent_cons,
      fractionLength_cons, exponentLength_cons]

/-- The same text may stand before both, if it ends in no backslash that escapes only in front of the calmer one. -/
theorem Calmer.append {r r' : List Char} (h : Calmer r r') (front : List Char)
    (escape : Bare front → canEscape r' = true → canEscape r = true) : Calmer (front ++ r) (front ++ r') := by
  induction front with
  | nil => exact h
  | cons c front ih =>
    by_cases backslash : c = '\\'
    · subst backslash
      cases front with
      | nil => exact h.cons '\\' fun _ => escape ⟨[], rfl, by simp⟩
      | cons d front => exact .of_escape d _ _
    · exact (ih fun bare => escape (bare.cons backslash)).cons c fun e => absurd e backslash

/-- A character that says all that a token asks, whatever stands behind it. -/
def isSteady (c : Char) : Bool :=
  !(['\\', '.', '+', '-', '!', 'e', 'E'].contains c)

theorem Calmer.of_isSteady {c : Char} (steady : isSteady c = true) (r r' : List Char) : Calmer (c :: r) (c :: r') := by
  simp only [isSteady, List.contains_eq_mem, Bool.not_eq_true', decide_eq_false_iff_not, List.mem_cons,
    List.not_mem_nil, or_false, not_or] at steady
  constructor <;>
    simp_all [goesOn, startsDigit, startsUnsigned_cons, startsSigned_cons, startsIdent_cons, fractionLength_cons,
      exponentLength_cons]

theorem Calmer.of_mem {c : Char} {front : List Char} (mem : c ∈ front) (steady : isSteady c = true) (r r' : List Char) :
    Calmer (front ++ r) (front ++ r') := by
  obtain ⟨before, behind, rfl⟩ := List.append_of_mem mem
  rw [List.append_assoc, List.append_assoc]
  refine (Calmer.of_isSteady steady (behind ++ r) (behind ++ r')).append before fun _ escapes => ?_
  exact escapes

end AboveFold.Token
