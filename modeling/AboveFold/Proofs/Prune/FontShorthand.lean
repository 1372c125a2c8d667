import AboveFold.Prune.Fonts

/-!
# The families of a font shorthand

A font shorthand has words for style and weight, then the size, perhaps a line height, and then the families. The
families are what stands behind the size and line height (`Font.Shorthand.families_text`), if the slash before the
line height is not the last character of the size, and the size has no slash if the line height is set off from it. A
dimension or a percentage is a size, and a bare number is none.
-/

namespace AboveFold.Font
open Text

/-- Which quote is open behind a character, and how many parentheses. -/
def turn (quote : Option Char) (depth : Nat) (c : Char) : Option Char × Nat :=
  match quote with
  | some q => (if c = q then none else some q, depth)
  | none =>
    if c = '\x22' || c = '\x27' then (some c, depth)
    else if c = '(' then (none, depth + 1)
    else if c = ')' then (none, depth - 1)
    else (none, depth)

/-- Whether a word ends at a character. -/
def breaks (quote : Option Char) (depth : Nat) (c : Char) : Bool := quote = none && isWhiteSpace c && depth = 0

/-- Which quote is open behind a text, and how many parentheses, if no word ends in it. -/
def within (quote : Option Char) (depth : Nat) : List Char → Option (Option Char × Nat)
  | [] => some (quote, depth)
  | c :: cs => if breaks quote depth c then none else within (turn quote depth c).1 (turn quote depth c).2 cs

/-- A text without white space, but in quotes or parentheses, none of which stay open. -/
structure IsWord (w : List Char) : Prop where
  nonempty : w ≠ []
  closed : within none 0 w = some (none, 0)

variable {quote quote' : Option Char} {depth depth' n : Nat} {c : Char} {w w' cs onward : List Char}

/-! ## Words -/

theorem wordsFrom_cons (quote : Option Char) (depth : Nat) (word : Option (List Char × Nat)) (c : Char)
    (cs : List Char) : wordsFrom quote depth word (c :: cs) =
      if breaks quote depth c then (word.toList.map fun (onward, n) => ⟨onward.take n, onward⟩) ++ wordsFrom none 0 none cs
      else wordsFrom (turn quote depth c).1 (turn quote depth c).2
        (match word with
          | some (onward, n) => some (onward, n + 1)
          | none => some (c :: cs, 1)) cs := by
  cases quote with
  | some q => rfl
  | none =>
    rw [wordsFrom.eq_def]
    unfold turn breaks
    cases white : isWhiteSpace c with
    | false => grind
    | true =>
      have ne {d : Char} (solid : isWhiteSpace d = false) : c ≠ d := by
        rintro rfl
        rw [white] at solid
        cases solid
      simp [ne (d := '\x22') rfl, ne (d := '\x27') rfl, ne (d := '(') rfl, ne (d := ')') rfl]
      grind

theorem wordsFrom_within (h : within quote depth w = some (quote', depth')) :
    wordsFrom quote depth (some (onward, n)) (w ++ cs) = wordsFrom quote' depth' (some (onward, n + w.length)) cs := by
  induction w generalizing quote depth n with
  | nil =>
    obtain ⟨rfl, rfl⟩ : quote = quote' ∧ depth = depth' := by simpa [within] using h
    rfl
  | cons c w ih =>
    have length : n + (c :: w).length = n + 1 + w.length := by rw [List.length_cons]; omega
    rw [within] at h
    split at h
    next => cases h
    next inside =>
      rw [List.cons_append, wordsFrom_cons, if_neg inside, length]
      exact ih h

theorem within_append (h : within quote depth w = some (quote', depth')) :
    within quote depth (w ++ cs) = within quote' depth' cs := by
  induction w generalizing quote depth with
  | nil =>
    obtain ⟨rfl, rfl⟩ : quote = quote' ∧ depth = depth' := by simpa [within] using h
    rfl
  | cons c w ih =>
    rw [within] at h
    split at h
    next => cases h
    next inside =>
      rw [List.cons_append, within, if_neg inside]
      exact ih h

/-- Behind a slash a word goes on. -/
theorem IsWord.slash (h : IsWord w) : IsWord ('/' :: w) := ⟨by simp, h.closed⟩

theorem IsWord.append (h : IsWord w) (h' : IsWord w') : IsWord (w ++ w') :=
  ⟨by simp [h.nonempty], (within_append h.closed).trans h'.closed⟩

/-- A word starts with no white space. -/
theorem IsWord.exists_cons (h : IsWord w) : ∃ c cs, w = c :: cs ∧ isWhiteSpace c = false := by
  obtain ⟨nonempty, closed⟩ := h
  cases w with
  | nil => exact absurd rfl nonempty
  | cons c cs =>
    refine ⟨c, cs, rfl, ?_⟩
    rw [Bool.eq_false_iff]
    intro white
    rw [within, if_pos (by simp [breaks, white])] at closed
    cases closed

theorem words_start (solid : isWhiteSpace c = false) :
    words (c :: cs) = wordsFrom none 0 (some (c :: cs, 0)) (c :: cs) := by
  have inside : ¬ breaks none 0 c = true := by simp [breaks, solid]
  rw [words, wordsFrom_cons, wordsFrom_cons, if_neg inside, if_neg inside]

/-- A word at the front of a text is its first word. -/
theorem words_append (word : IsWord w) (white : isWhiteSpace c = true) :
    words (w ++ c :: cs) = ⟨w, w ++ c :: cs⟩ :: words cs := by
  obtain ⟨d, ds, rfl, solid⟩ := word.exists_cons
  rw [List.cons_append, words_start solid, ← List.cons_append, wordsFrom_within word.closed, wordsFrom_cons,
    if_pos (by simp [breaks, white]), Nat.zero_add]
  simp [words]

/-- The first word goes on from the start of the text. -/
theorem exists_wordsFrom (quote : Option Char) (depth : Nat) (onward : List Char) (n : Nat) (cs : List Char) :
    ∃ m more, n ≤ m ∧ wordsFrom quote depth (some (onward, n)) cs = ⟨onward.take m, onward⟩ :: more := by
  induction cs generalizing quote depth n with
  | nil => exact ⟨n, [], Nat.le_refl n, rfl⟩
  | cons c cs ih =>
    rw [wordsFrom_cons]
    split
    next => exact ⟨n, _, Nat.le_refl n, rfl⟩
    next =>
      obtain ⟨m, more, le, e⟩ := ih (turn quote depth c).1 (turn quote depth c).2 (n + 1)
      exact ⟨m, more, by omega, e⟩

theorem exists_words (solid : isWhiteSpace c = false) (cs : List Char) :
    ∃ text more, words (c :: cs) = ⟨c :: text, c :: cs⟩ :: more := by
  have inside : ¬ breaks none 0 c = true := by simp [breaks, solid]
  obtain ⟨m, more, le, e⟩ := exists_wordsFrom (turn none 0 c).1 (turn none 0 c).2 (c :: cs) 1 cs
  obtain ⟨m, rfl⟩ : ∃ k, m = k + 1 := ⟨m - 1, by omega⟩
  exact ⟨cs.take m, more, by rw [words, wordsFrom_cons, if_neg inside]; exact e⟩

/-! ## Sizes -/

theorem splitOnce_cons (sep c : Char) (cs : List Char) :
    splitOnce sep (c :: cs)
      = if c = sep then ([], some cs) else (c :: (splitOnce sep cs).1, (splitOnce sep cs).2) := by
  unfold splitOnce
  by_cases here : c = sep
  · simp [here]
  · rw [if_neg here, List.dropWhile_cons_of_pos (by simpa using here), List.takeWhile_cons_of_pos (by simpa using here)]
    split <;> rfl

/-- What stands behind a slash does not change what stands before the first one. -/
theorem splitOnce_append_slash (w cs : List Char) :
    (splitOnce '/' (w ++ '/' :: cs)).1 = (splitOnce '/' w).1 ∧ (splitOnce '/' (w ++ '/' :: cs)).2.isSome = true := by
  induction w with
  | nil => exact ⟨rfl, rfl⟩
  | cons c w ih =>
    rw [List.cons_append, splitOnce_cons, splitOnce_cons]
    split
    next => exact ⟨rfl, rfl⟩
    next => exact ⟨congrArg (c :: ·) ih.1, ih.2⟩

theorem splitOnce_of_not_mem (whole : '/' ∉ w) : splitOnce '/' w = (w, none) := by
  induction w with
  | nil => rfl
  | cons c w ih =>
    rw [List.mem_cons, not_or] at whole
    rw [splitOnce_cons, if_neg (Ne.symm whole.1), ih whole.2]

theorem isSize_append_slash (size : isSize w = true) (cs : List Char) : isSize (w ++ '/' :: cs) = true := by
  obtain ⟨head, height⟩ := splitOnce_append_slash w cs
  unfold isSize at size ⊢
  dsimp only at size ⊢
  rw [head, height]
  split
  next => rw [Bool.true_or]
  next other => rwa [if_neg other] at size

/-- A sign of a number. -/
def isSign (c : Char) : Bool := c = '+' || c = '-'

/-- A digit of a number, or its point. -/
def isNumeric (c : Char) : Bool := c.isDigit || c = '.'

theorem isAscii_of_isNumeric (numeric : isNumeric c = true) : isAscii c = true := by
  rcases Bool.or_eq_true_iff.1 numeric with digit | point
  · have bounds : 48 ≤ c.toNat ∧ c.toNat ≤ 57 := by simpa [Char.isDigit, UInt32.le_iff_toNat_le] using digit
    simp only [isAscii, decide_eq_true_eq]
    omega
  · rw [of_decide_eq_true point]
    rfl

theorem toLower_of_isNumeric (numeric : isNumeric c = true) : c.toLower = c ∧ isSign c = false ∧ c ≠ '/' :=
  ascii_forall (p := fun c => isNumeric c = true → c.toLower = c ∧ isSign c = false ∧ c ≠ '/') (by decide)
    (isAscii_of_isNumeric numeric) numeric

theorem toLower_of_isSign (sign : isSign c = true) : c.toLower = c ∧ c ≠ '/' := by
  rcases Bool.or_eq_true_iff.1 sign with e | e <;> rw [of_decide_eq_true e] <;> decide

/-- Numbers are the same in lower case. -/
theorem isNumeric_toLower (c : Char) : isNumeric c.toLower = isNumeric c := toLower_congr (by decide) c

theorem dropWhile_signs {signs : List Char} (sign : ∀ c ∈ signs, isSign c = true) (digit : isNumeric c = true) :
    ((signs ++ c :: cs).map Char.toLower).dropWhile isSign = c :: cs.map Char.toLower := by
  obtain ⟨same, other, -⟩ := toLower_of_isNumeric digit
  induction signs with
  | nil => simp [same, other]
  | cons d signs ih =>
    rw [List.forall_mem_cons] at sign
    rw [List.cons_append, List.map_cons, (toLower_of_isSign sign.1).1, List.dropWhile_cons_of_pos sign.1, ih sign.2]

theorem isSize_of_isNumeric {signs : List Char} (sign : ∀ c ∈ signs, isSign c = true) (first : isNumeric c = true)
    (whole : '/' ∉ cs) : isSize (signs ++ c :: cs) = !cs.all isNumeric := by
  have whole : '/' ∉ signs ++ c :: cs := by
    rw [List.mem_append, List.mem_cons, not_or, not_or]
    exact ⟨fun mem => (toLower_of_isSign (sign _ mem)).2 rfl, Ne.symm (toLower_of_isNumeric first).2.2, whole⟩
  have unsigned : (((signs ++ c :: cs).map Char.toLower).dropWhile fun c => c = '+' || c = '-')
      = c :: cs.map Char.toLower := dropWhile_signs sign first
  unfold isSize
  rw [splitOnce_of_not_mem whole]
  dsimp only
  have first' : (c :: cs.map Char.toLower).head?.any isNumeric = true := first
  rw [unsigned]
  refine (if_pos first').trans ?_
  rw [Option.isSome_none, Bool.false_or]
  have numeric : (c :: cs.map Char.toLower).all isNumeric = cs.all isNumeric := by
    rw [List.all_cons, first, Bool.true_and, List.all_map]
    exact List.all_congr rfl isNumeric_toLower
  exact congrArg (!·) numeric

/-- A bare number is no size. -/
theorem isSize_number {signs digits : List Char} (sign : ∀ c ∈ signs, isSign c = true) (first : isNumeric c = true)
    (digit : ∀ d ∈ digits, isNumeric d = true) : isSize (signs ++ c :: digits) = false := by
  rw [isSize_of_isNumeric sign first fun mem => (toLower_of_isNumeric (digit _ mem)).2.2 rfl, List.all_eq_true.2 digit]
  rfl

/-- A number with a unit is a size. -/
theorem isSize_dimension {signs unit : List Char} (sign : ∀ c ∈ signs, isSign c = true) (first : isNumeric c = true)
    (letter : ∃ d ∈ unit, isNumeric d = false) (whole : '/' ∉ unit) : isSize (signs ++ c :: unit) = true := by
  rw [isSize_of_isNumeric sign first whole, Bool.not_eq_true', List.all_eq_false]
  obtain ⟨d, mem, other⟩ := letter
  exact ⟨d, mem, by simp [other]⟩

/-! ## Shorthands -/

/-- What may stand between a size and the families, but for a space: nothing, or a slash and a line height. A line
height that is set off from the size does not follow a size with a slash. -/
inductive LineHeight (size : List Char) : (between : List Char) → Prop where
  | none : LineHeight size []
  | joined {height : List Char} (word : IsWord height) : LineHeight size ('/' :: height)
  | before {height : List Char} (whole : '/' ∉ size) (word : IsWord height) : LineHeight size (' ' :: '/' :: height)
  | apart {height : List Char} (whole : '/' ∉ size) (word : IsWord height) :
      LineHeight size (' ' :: '/' :: ' ' :: height)

/-- Words that are no sizes come before the size. -/
theorem dropWhile_words {before : List (List Char)} (words : ∀ w ∈ before, IsWord w ∧ isSize w = false)
    (cs : List Char) : (Font.words (before.flatMap (· ++ [' ']) ++ cs)).dropWhile (!isSize ·.text)
      = (Font.words cs).dropWhile (!isSize ·.text) := by
  induction before with
  | nil => rfl
  | cons w before ih =>
    rw [List.forall_mem_cons] at words
    have front : (w :: before).flatMap (· ++ [' ']) ++ cs = w ++ ' ' :: (before.flatMap (· ++ [' ']) ++ cs) := by simp
    rw [front, words_append words.1.1 rfl, List.dropWhile_cons_of_pos (by simp [words.1.2]), ih words.2]

/-- What follows a size is as it stands, if no line height is set off from it. -/
theorem afterLineHeight_eq_self {size : Word} {rest : List Word}
    (joined : '/' ∈ size.text ∨ ∀ w ∈ rest.head?, w.text.head? ≠ some '/') : afterLineHeight size rest = rest := by
  unfold afterLineHeight
  split
  next => rfl
  next whole =>
    have apart := joined.resolve_left (by simpa using whole)
    cases rest with
    | nil => rfl
    | cons w after =>
      have apart : w.text.head? ≠ some '/' := apart w rfl
      have other : w.text ≠ ['/'] := by
        intro e
        rw [e] at apart
        exact apart rfl
      dsimp only
      rw [if_neg other, if_neg apart]

/-- The families of a shorthand are what follows the size and the line height. -/
theorem shorthandFamilies_eq {before : List (List Char)} {size between : List Char}
    (words : ∀ w ∈ before, IsWord w ∧ isSize w = false) (word : IsWord size) (sized : isSize size = true)
    (height : LineHeight size between) (solid : isWhiteSpace c = false) (other : c ≠ '/') :
    shorthandFamilies (before.flatMap (· ++ [' ']) ++ (size ++ between ++ ' ' :: c :: cs)) = c :: cs := by
  obtain ⟨text, more, families⟩ := exists_words solid cs
  have found {size onward rest : List Char} {after : List Word} (sized : isSize size = true)
      (sizes : Font.words rest = ⟨size, onward⟩ :: after)
      (reads : afterLineHeight ⟨size, onward⟩ after = Font.words (c :: cs)) :
      shorthandFamilies (before.flatMap (· ++ [' ']) ++ rest) = c :: cs := by
    rw [shorthandFamilies, dropWhile_words words, sizes, List.dropWhile_cons_of_neg (by simp [sized])]
    dsimp only
    rw [reads, families]
    rfl
  cases height with
  | none =>
    rw [List.append_nil]
    refine found sized (words_append word rfl) (afterLineHeight_eq_self (.inr fun w mem => ?_))
    rw [families] at mem
    obtain rfl := Option.some.inj mem
    simpa using other
  | @joined height word' =>
    exact found (isSize_append_slash sized height) (words_append (word.append word'.slash) rfl) (afterLineHeight_eq_self (.inl (by simp)))
  | @before height whole word' =>
    have text : size ++ ' ' :: '/' :: height ++ ' ' :: c :: cs = size ++ ' ' :: (('/' :: height) ++ ' ' :: c :: cs) := by
      simp
    rw [text]
    refine found sized (words_append word rfl) ?_
    rw [words_append word'.slash rfl]
    have nonempty := word'.nonempty
    simp [afterLineHeight, whole, nonempty]
  | @apart height whole word' =>
    have slash : IsWord ['/'] := ⟨by simp, rfl⟩
    have text : size ++ ' ' :: '/' :: ' ' :: height ++ ' ' :: c :: cs
        = size ++ ' ' :: (['/'] ++ ' ' :: (height ++ ' ' :: c :: cs)) := by simp
    rw [text]
    refine found sized (words_append word rfl) ?_
    rw [words_append slash rfl, words_append word' rfl]
    simp [afterLineHeight, whole]

/-- A slash at the end of the size is taken for one with a line height, and the line height for a family. -/
example : shorthandFamilies "12px / 1.5 Lato".toList = "Lato".toList
    ∧ shorthandFamilies "12px/ 1.5 Lato".toList = "1.5 Lato".toList := by decide

/-! ## Lists of families -/

/-- Which quote is open behind a text, if there is no comma in it outside of quotes. -/
def quoteAfter (quote : Option Char) : List Char → Option (Option Char)
  | [] => some quote
  | c :: cs =>
    match quote with
    | some q => quoteAfter (if c = q then none else some q) cs
    | none => if c = ',' then none else quoteAfter (if c = '\x22' || c = '\x27' then some c else none) cs

theorem splitList_append {entry : List Char} (h : quoteAfter quote w = some quote') :
    splitList quote entry (w ++ cs) = splitList quote' (entry ++ w) cs := by
  induction w generalizing quote entry with
  | nil =>
    obtain rfl : quote = quote' := by simpa [quoteAfter] using h
    rw [List.append_nil, List.nil_append]
  | cons c w ih =>
    rw [quoteAfter.eq_def] at h
    rw [List.cons_append, splitList.eq_def, List.append_cons]
    cases quote with
    | some q => exact ih h
    | none =>
      dsimp only at h ⊢
      split at h
      next => cases h
      next other =>
        rw [if_neg other]
        exact ih h

/-- The entries of a list are the texts that stand between the commas. -/
theorem splitList_intercalate {entries : List (List Char)} (some : entries ≠ [])
    (closed : ∀ entry ∈ entries, quoteAfter none entry = .some none) :
    splitList none [] ([','].intercalate entries) = entries := by
  induction entries with
  | nil => exact absurd rfl some
  | cons entry more ih =>
    rw [List.forall_mem_cons] at closed
    cases more with
    | nil =>
      have last : [','].intercalate [entry] = entry ++ [] := by simp [List.intercalate]
      rw [last, splitList_append closed.1]
      rfl
    | cons next more =>
      have front : [','].intercalate (entry :: next :: more) = entry ++ ',' :: [','].intercalate (next :: more) := by
        simp [List.intercalate]
      have comma (cs : List Char) : splitList none entry (',' :: cs) = entry :: splitList none [] cs := rfl
      rw [front, splitList_append closed.1, List.nil_append, comma, ih (by simp) closed.2]

/-- The families of a list are its entries in normal form. -/
theorem families_intercalate {entries : List (List Char)} (some : entries ≠ [])
    (closed : ∀ entry ∈ entries, quoteAfter none entry = .some none) :
    families ([','].intercalate entries)
      = (entries.map fun entry => normalize (String.ofList entry)).filter (· ≠ "") := by
  rw [families, splitList_intercalate some closed]

/-! ## Shorthands as a whole -/

/-- A font shorthand in its parts. -/
structure Shorthand where
  /-- The words for style and weight. -/
  before : List (List Char)
  size : List Char
  /-- What stands between the size and the families, but for a space. -/
  between : List Char
  families : List (List Char)
  words : ∀ w ∈ before, IsWord w ∧ isSize w = false
  word : IsWord size
  sized : isSize size = true
  height : LineHeight size between
  closed : ∀ entry ∈ families, quoteAfter none entry = some none
  start : ∃ c cs, [','].intercalate families = c :: cs ∧ isWhiteSpace c = false ∧ c ≠ '/'

/-- The shorthand as it is written. -/
def Shorthand.text (f : Shorthand) : List Char :=
  f.before.flatMap (· ++ [' ']) ++ (f.size ++ f.between ++ ' ' :: [','].intercalate f.families)

/-- **The families of a font shorthand** are read from its text. -/
theorem Shorthand.families_text (f : Shorthand) : Font.families (shorthandFamilies f.text)
    = (f.families.map fun entry => normalize (String.ofList entry)).filter (· ≠ "") := by
  obtain ⟨c, cs, listed, solid, other⟩ := f.start
  have some : f.families ≠ [] := by
    intro none
    simp [none] at listed
  rw [text, listed, shorthandFamilies_eq f.words f.word f.sized f.height solid other, ← listed,
    families_intercalate some f.closed]

end AboveFold.Font
