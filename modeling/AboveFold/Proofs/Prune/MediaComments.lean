import AboveFold.Proofs.Prune.Media

/-!
# Comments in media queries

Whether a media query is useful does not depend on its comments: they may as well be spaces
(`isUsefulQuery_aired`). The text of a query is read only up to the first character that is neither part of a
word nor white space, so it does not matter that collapsing takes what is in a url for a comment, if there is one.
-/

namespace AboveFold.Prune
open Text Normalizer Token

/-- A character at which the judgement of a query ends. -/
def isStop (c : Char) : Bool := !isTypeChar c && !isWhiteSpace c

/-- Two texts are judged alike: they are the same, at least up to a character at which judgement ends. -/
inductive Alike : List Char → List Char → Prop where
  | nil : Alike [] []
  | cons (c : Char) {xs ys : List Char} (more : Alike xs ys) : Alike (c :: xs) (c :: ys)
  | stop {c : Char} (stops : isStop c = true) (xs ys : List Char) : Alike (c :: xs) (c :: ys)

variable {xs ys zs word : List Char} {c : Char} {p : Char → Bool}

theorem not_isTypeChar_of_isStop (stops : isStop c = true) : isTypeChar c = false := by
  simpa using (Bool.and_eq_true_iff.1 stops).1

theorem not_isWhiteSpace_of_isStop (stops : isStop c = true) : isWhiteSpace c = false := by
  simpa using (Bool.and_eq_true_iff.1 stops).2

theorem Alike.refl (xs : List Char) : Alike xs xs := by
  induction xs with
  | nil => exact .nil
  | cons c xs ih => exact .cons c ih

theorem Alike.append_left (zs : List Char) (h : Alike xs ys) : Alike (zs ++ xs) (zs ++ ys) := by
  induction zs with
  | nil => exact h
  | cons c zs ih => exact .cons c ih

theorem Alike.toLower (h : Alike xs ys) : Alike (xs.map Char.toLower) (ys.map Char.toLower) := by
  induction h with
  | nil => exact .nil
  | cons c _ ih => exact .cons _ ih
  | @stop c stops xs ys => exact .stop ((toLower_congr (by decide) c : isStop c.toLower = isStop c).trans stops) _ _

/-! ## Judging -/

/-- Words and white space are read off in the same way. -/
theorem Alike.span (h : Alike xs ys) (stops : ∀ c, isStop c = true → p c = false) :
    xs.takeWhile p = ys.takeWhile p ∧ Alike (xs.dropWhile p) (ys.dropWhile p) := by
  induction h with
  | nil => exact ⟨rfl, .nil⟩
  | @cons c xs ys more ih =>
    cases taken : p c with
    | true => simpa [taken] using ih
    | false => simpa [taken] using .cons c more
  | @stop c stop xs ys => simpa [stops c stop] using .stop stop xs ys

theorem Alike.all_isWhiteSpace (h : Alike xs ys) : xs.all isWhiteSpace = ys.all isWhiteSpace := by
  induction h with
  | nil => rfl
  | cons c _ ih => rw [List.all_cons, List.all_cons, ih]
  | stop stops => rw [List.all_cons, List.all_cons, not_isWhiteSpace_of_isStop stops, Bool.false_and, Bool.false_and]

theorem Alike.holdsOnScreen (h : Alike xs ys) (negated : Bool) :
    holdsOnScreen negated xs = holdsOnScreen negated ys := by
  obtain ⟨type, rest⟩ := h.span fun _ => not_isTypeChar_of_isStop
  unfold Prune.holdsOnScreen
  rw [type, rest.all_isWhiteSpace]

/-- A word at the front is found in both texts or in none. -/
theorem Alike.after? (h : Alike xs ys) (chars : ∀ c ∈ word, isTypeChar c = true) :
    Option.Rel Alike (after? word xs) (after? word ys) := by
  induction word generalizing xs ys with
  | nil => exact .some h
  | cons d word ih =>
    rw [List.forall_mem_cons] at chars
    cases h with
    | nil => exact .none
    | cons c more =>
      simp only [Text.after?]
      split
      next => exact ih more chars.2
      next => exact .none
    | @stop c stops xs ys =>
      have other : d ≠ c := by
        rintro rfl
        exact Bool.false_ne_true ((not_isTypeChar_of_isStop stops).symm.trans chars.1)
      simp only [Text.after?, other, if_false]
      exact .none

/-- What stands behind a word that was found decides whether it is one. -/
def behindWord? : List Char → Option (List Char)
  | [] => some []
  | c :: rest => if c = ' ' then some (rest.dropWhile isWhiteSpace) else none

theorem afterWord?_eq (word : String) (cs : List Char) :
    afterWord? word cs = (after? word.toList cs).bind behindWord? := by
  unfold afterWord?
  split
  next found => rw [found]; rfl
  next found => rw [found]; rfl
  next other space =>
    cases found : Text.after? word.toList cs with
    | none => rfl
    | some rest =>
      cases rest with
      | nil => exact absurd found other
      | cons c rest =>
        have ne : c ≠ ' ' := by
          rintro rfl
          exact space rest found
        simp [behindWord?, ne]

theorem Alike.behindWord? (h : Alike xs ys) : Option.Rel Alike (behindWord? xs) (behindWord? ys) := by
  cases h with
  | nil => exact .some .nil
  | cons c more =>
    simp only [Prune.behindWord?]
    split
    next => exact .some (more.span fun _ => not_isWhiteSpace_of_isStop).2
    next => exact .none
  | @stop c stops xs ys =>
    have ne : c ≠ ' ' := by
      rintro rfl
      exact Bool.false_ne_true (not_isWhiteSpace_of_isStop stops).symm
    simp only [Prune.behindWord?, ne, if_false]
    exact .none

theorem Alike.afterWord? {word : String} (h : Alike xs ys) (chars : ∀ c ∈ word.toList, isTypeChar c = true) :
    Option.Rel Alike (afterWord? word xs) (afterWord? word ys) := by
  have found := h.after? chars
  rw [afterWord?_eq, afterWord?_eq]
  generalize Text.after? word.toList xs = front, Text.after? word.toList ys = front' at found
  cases found with
  | none => exact .none
  | some rest => exact rest.behindWord?

/-- **Texts that are alike are judged alike.** -/
theorem isUsefulQuery_of_alike {a b : String} (h : Alike (collapse a).toList (collapse b).toList) :
    isUsefulQuery a = isUsefulQuery b := by
  have text : Alike (lower (collapse a)).toList (lower (collapse b)).toList := by
    rw [toList_lower, toList_lower]
    exact h.toLower
  have negated : Option.Rel Alike (Prune.afterWord? "not" _) (Prune.afterWord? "not" _) :=
    text.afterWord? (List.all_eq_true.1 (by decide))
  have only : Option.Rel Alike (Prune.afterWord? "only" _) (Prune.afterWord? "only" _) :=
    text.afterWord? (List.all_eq_true.1 (by decide))
  unfold isUsefulQuery
  generalize (lower (collapse a)).toList = xs, (lower (collapse b)).toList = ys at *
  simp only
  generalize Prune.afterWord? "not" xs = rest, Prune.afterWord? "not" ys = rest' at negated
  generalize Prune.afterWord? "only" xs = more, Prune.afterWord? "only" ys = more' at only
  cases negated with
  | some rest => exact rest.holdsOnScreen true
  | none =>
    cases only with
    | some rest => exact rest.holdsOnScreen false
    | none => exact text.holdsOnScreen false

/-! ## Collapsing -/

/-- How a token that is neither blanks nor a comment looks up to where judgement ends. -/
inductive Opens (r : List Char) : List Char → Prop where
  | nil : Opens r []
  | letter {c : Char} {xs : List Char} (letter : isLetter c = true) (more : Opens r xs) : Opens r (c :: xs)
  | stop {c : Char} {xs : List Char} (stops : isStop c = true) (apart : ¬(c = '/' ∧ (xs ++ r).head? = some '*')) :
      Opens r (c :: xs)

variable {r r' : List Char} {k : Kind} {ws : List Written}

theorem Opens.append (h : Opens (ys ++ r) xs) (h' : Opens r ys) : Opens r (xs ++ ys) := by
  induction h with
  | nil => exact h'
  | letter letter _ ih => exact .letter letter ih
  | stop stops apart =>
    rw [← List.append_assoc] at apart
    exact .stop stops apart

theorem opens_letters (letters : ∀ c ∈ xs, isLetter c = true) : Opens r xs := by
  induction xs with
  | nil => exact .nil
  | cons c xs ih =>
    rw [List.forall_mem_cons] at letters
    exact .letter letters.1 (ih letters.2)

theorem opens_name (read : nameLength 0 (xs ++ r) = xs.length) : Opens r xs := by
  induction xs with
  | nil => exact .nil
  | cons c xs ih =>
    rw [List.cons_append, nameLength] at read
    split at read
    next name => exact .letter (isLetter_of_isNameChar name) (ih (Nat.succ.inj read))
    next =>
      split at read
      next escape =>
        obtain ⟨rfl, -⟩ : c = '\\' ∧ canEscape (xs ++ r) = true := by simpa using escape
        exact .stop (by decide) (by simp)
      next => cases read

theorem opens_of_shaped (h : Shaped r xs k) : Opens r xs := by
  cases h with
  | string mark => rcases mark with rfl | rfl <;> exact .stop (by decide) (by simp)
  | marked letter read => exact .letter letter (opens_name read)
  | number whole =>
    obtain ⟨front, unit, rfl, numerals, read⟩ := exists_unit whole
    refine (opens_letters fun c mem => isLetter_of_isNumeral (numerals c mem)).append ?_
    rcases read with read | rfl | rfl
    · exact opens_name read
    · exact .stop (by decide) (by simp)
    · exact .nil
  | name names =>
    cases names with
    | ident read => exact opens_name read
    | function read => exact (opens_name read).append (.stop (by decide) (by simp))
    | url read => exact (opens_name read).append (.stop (by decide) (by simp))
  | letters letters => exact opens_letters letters
  | slash apart => exact .stop (by decide) (by simpa using apart)

/-- Behind a token the machine goes on alike if it would without the token. -/
theorem Opens.alike (h : Opens r xs) (star : r'.head? = some '*' → r.head? = some '*')
    (later : ∀ gap depth, Alike (run false ⟨.plain, gap, depth⟩ r) (run false ⟨.plain, gap, depth⟩ r')) (gap : Gap)
    (depth : Nat) : Alike (run false ⟨.plain, gap, depth⟩ (xs ++ r)) (run false ⟨.plain, gap, depth⟩ (xs ++ r')) := by
  induction h generalizing gap depth with
  | nil => exact later gap depth
  | @letter c xs letter _ ih =>
    rw [List.cons_append, List.cons_append, run_cons, run_cons, step_of_isLetter letter, step_of_isLetter letter]
    exact (ih _ _).append_left _
  | @stop c xs stops apart =>
    have apart' : ¬(c = '/' ∧ (xs ++ r').head? = some '*') := by
      rintro ⟨slash, head⟩
      cases xs with
      | nil => exact apart ⟨slash, star head⟩
      | cons d xs => exact apart ⟨slash, head⟩
    have solid : isBlank c = false := by
      refine Bool.eq_false_iff.2 fun blank => ?_
      exact Bool.false_ne_true ((not_isWhiteSpace_of_isStop stops).symm.trans (isBlank_isWhiteSpace blank))
    rw [List.cons_append, List.cons_append, run_cons, run_cons, step_solid solid apart, step_solid solid apart']
    simp only [List.append_assoc, List.singleton_append]
    exact .append_left _ (.stop stops _ _)

/-- A token, or a space if it is a comment. -/
def aired (w : Written) : Written := if w.kind.isComment then .space else w

theorem aired_of_not_isTrivia {w : Written} (solid : w.kind.isTrivia = false) : aired w = w := by
  refine if_neg fun comment => ?_
  exact Bool.false_ne_true (solid.symm.trans (Kind.isTrivia_of_isComment comment))

theorem head?_aired (stands : Stands ws) (star : (textOf (ws.map aired)).head? = some '*') :
    (textOf ws).head? = some '*' := by
  cases ws with
  | nil => exact star
  | cons w ws =>
    obtain ⟨c, xs, text, -⟩ := stands.begins
    rw [List.map_cons, textOf_cons, aired] at star
    split at star
    next => cases star
    next => simpa [text] using star

theorem alike_aired (stands : Stands ws) (sound : ∀ w ∈ ws, ∀ f, w.kind ≠ .fault f) (gap : Gap) (depth : Nat) :
    Alike (run false ⟨.plain, gap, depth⟩ (textOf ws)) (run false ⟨.plain, gap, depth⟩ (textOf (ws.map aired))) := by
  induction ws generalizing gap depth with
  | nil => exact .nil
  | cons w ws ih =>
    rw [List.forall_mem_cons] at sound
    have later := ih stands.tail sound.2
    obtain ⟨c, xs, text, reads, -⟩ := stands.begins
    rw [List.map_cons, textOf_cons, textOf_cons, text]
    cases trivia : w.kind.isTrivia with
    | true =>
      rw [run_trivia reads trivia]
      cases comment : w.kind.isComment with
      | true =>
        rw [aired, comment, if_pos rfl, run_blanks (by simp [Written.space, isBlank]) (by simp [Written.space])]
        exact later gap.widen depth
      | false =>
        have white : w.kind = .whitespace := by
          generalize w.kind = kind at trivia comment
          cases kind with
          | whitespace => rfl
          | comment => cases comment
          | _ => cases trivia
        have blank := stands.blank white
        rw [text] at blank
        rw [aired, comment, if_neg Bool.false_ne_true, text, run_blanks blank (by simp)]
        exact later gap.widen depth
    | false =>
      rw [aired_of_not_isTrivia trivia, text]
      exact (opens_of_shaped (shaped_lexeme reads trivia sound.1)).alike (head?_aired stands.tail) later gap depth

/-- **The comments of a media query may as well be spaces.** -/
theorem isUsefulQuery_aired (stands : Stands ws) (sound : ∀ w ∈ ws, ∀ f, w.kind ≠ .fault f) :
    isUsefulQuery (String.ofList (textOf (ws.map aired))) = isUsefulQuery (String.ofList (textOf ws)) := by
  refine (isUsefulQuery_of_alike ?_).symm
  simp only [collapse, String.toList_ofList]
  exact alike_aired stands sound .closed 0

end AboveFold.Prune
