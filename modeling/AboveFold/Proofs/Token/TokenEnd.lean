import AboveFold.Proofs.Token.NamedEnd

/-!
# Where tokens end

A token that ends before a text is the same token before every other that may follow it instead
(`lexeme_append`): before a calmer one, if it has no end of its own, and before any text else. So a token that
stands at the end of its text needs no more than itself to be read.
-/

namespace AboveFold.Token
open Text

variable {xs r r' : List Char} {k : Kind}

section Lexemes

/-- The extent of the digits and the fraction of a number. -/
def unsignedLength (cs : List Char) : Nat := digitsLength cs + fractionLength (cs.drop (digitsLength cs))

theorem unsignedLength_point {cs : List Char} (digit : startsDigit cs = true) :
    unsignedLength ('.' :: cs) = digitsLength cs + 1 := by
  have none : digitsLength ('.' :: cs) = 0 := rfl
  rw [unsignedLength, none, List.drop_zero, fractionLength_cons, if_pos ⟨rfl, digit⟩, Nat.zero_add]

theorem unsignedLength_pos {cs : List Char} (h : startsUnsigned cs = true) : 0 < unsignedLength cs := by
  cases cs with
  | nil => cases h
  | cons c cs =>
    rw [startsUnsigned_cons] at h
    split at h
    next point =>
      subst point
      rw [unsignedLength_point h]
      exact Nat.succ_pos _
    next =>
      have digit : startsDigit (c :: cs) = true := h
      exact Nat.add_pos_left (digitsLength_pos digit) _

theorem unsignedLength_le_numericLength (cs : List Char) :
    signLength cs + unsignedLength (cs.drop (signLength cs)) ≤ numericLength cs := by
  simp only [numericLength, unsignedLength, List.drop_drop]
  omega

theorem startsUnsigned_append (inside : unsignedLength (xs ++ r) ≤ xs.length) (h : startsUnsigned (xs ++ r) = true)
    (r' : List Char) : startsUnsigned (xs ++ r') = true := by
  cases xs with
  | nil => exact absurd inside (Nat.not_le_of_gt (unsignedLength_pos h))
  | cons c xs =>
    rw [List.cons_append, startsUnsigned_cons] at h ⊢
    split
    next point =>
      rw [if_pos point] at h
      subst point
      have more : xs ≠ [] := by
        rintro rfl
        have digit := digitsLength_pos h
        rw [List.cons_append, unsignedLength_point h] at inside
        exact absurd (Nat.le_of_succ_le_succ inside) (Nat.not_le_of_gt digit)
      rw [startsDigit_append_of_ne_nil more] at h ⊢
      exact h
    next other => rwa [if_neg other] at h

theorem startsNumber_eq (cs : List Char) : startsNumber cs = startsUnsigned (cs.drop (signLength cs)) := by
  unfold startsNumber
  split
  · rfl
  · rfl
  next plus minus =>
    cases cs with
    | nil => rfl
    | cons c cs =>
      have none : ¬(c = '+' ∨ c = '-') := fun h => h.elim (fun e => plus cs (e ▸ rfl)) fun e => minus cs (e ▸ rfl)
      simp [signLength, none]

theorem startsNumber_append (xs : List Char) (more : xs ≠ []) (whole : numericLength (xs ++ r) = xs.length)
    (number : startsNumber (xs ++ r) = true) (r' : List Char) : startsNumber (xs ++ r') = true := by
  rw [startsNumber_eq, signLength_append more, List.drop_append_of_le_length (signLength_le xs)] at number ⊢
  refine startsUnsigned_append ?_ number r'
  have inside := unsignedLength_le_numericLength (xs ++ r)
  rw [whole, signLength_append more, List.drop_append_of_le_length (signLength_le xs)] at inside
  rw [List.length_drop]
  omega

theorem goesOn_eq (cs : List Char) :
    ((cs.head?.any isNameChar) || (cs.head? = some '\\' && canEscape cs.tail)) = goesOn cs := by
  cases cs <;> simp [goesOn]

theorem stringLexeme_append {quote : Char} (whole : stringLexeme quote (xs ++ r) = (k, xs.length + 1))
    (sound : ∀ f, k ≠ .fault f) (r' : List Char) : stringLexeme quote (xs ++ r') = (k, xs.length + 1) := by
  unfold stringLexeme at whole ⊢
  split at whole
  next n scan =>
    obtain ⟨rfl, size⟩ := Prod.mk.inj whole
    obtain rfl : n = xs.length := Nat.succ.inj size
    rw [stringLength_append scan r']
    simp
  next => exact absurd (congrArg Prod.fst whole).symm (sound _)
  next => exact absurd (congrArg Prod.fst whole).symm (sound _)

theorem commentLexeme_ge (cs : List Char) : 2 ≤ (commentLexeme cs).2 := by
  unfold commentLexeme
  split <;> simp

theorem commentLexeme_append (whole : commentLexeme (xs ++ r) = (k, xs.length + 2)) (sound : ∀ f, k ≠ .fault f)
    (r' : List Char) : commentLexeme (xs ++ r') = (k, xs.length + 2) := by
  unfold commentLexeme at whole ⊢
  split at whole
  next n scan =>
    obtain ⟨rfl, size⟩ := Prod.mk.inj whole
    obtain rfl : n = xs.length := Nat.add_right_cancel size
    rw [commentLength_append scan r']
    simp
  next => exact absurd (congrArg Prod.fst whole).symm (sound _)

theorem markedLexeme_append {kind : String → Kind} (whole : markedLexeme kind (xs ++ r) = (k, xs.length + 1))
    (calmer : Calmer r r') (shut : Shut 0 xs r r') :
    markedLexeme kind (xs ++ r') = (k, xs.length + 1) := by
  obtain ⟨rfl, size⟩ := Prod.mk.inj whole
  have name : nameLength 0 (xs ++ r) = xs.length := Nat.succ.inj size
  have stop := calmer.goesOn_eq_false (goesOn_eq_false_of_whole (Nat.zero_le _) name)
  simp only [markedLexeme, name, nameLength_append (Nat.zero_le _) name stop shut, List.take_left]

theorem numericLexeme_append (xs : List Char) (whole : numericLexeme (xs ++ r) = (k, xs.length))
    (calmer : Calmer r r') (more : xs ≠ []) (shut : Shut 0 xs r r') : numericLexeme (xs ++ r') = (k, xs.length) := by
  obtain ⟨rfl, number⟩ := Prod.mk.inj whole
  simp only [numericLexeme, number, numericLength_append calmer more number shut, List.take_left]

section Marked

/-- What has one character starts no token that has more. -/
theorem delim_append {c : Char} (one : (Kind.delim c, 1) = (k, xs.length + 1)) : k = .delim c ∧ xs = [] := by
  obtain ⟨rfl, size⟩ := Prod.mk.inj one
  exact ⟨rfl, List.length_eq_zero_iff.1 (Nat.succ.inj size).symm⟩

theorem lexeme_hash (cs : List Char) :
    lexeme '#' cs = if goesOn cs then markedLexeme .hash cs else (.delim '#', 1) := by
  rw [← goesOn_eq]
  rfl

theorem hash_append (whole : lexeme '#' (xs ++ r) = (k, xs.length + 1)) (follows : Follows k ('#' :: xs) r r') :
    lexeme '#' (xs ++ r') = (k, xs.length + 1) := by
  rw [lexeme_hash] at whole ⊢
  split at whole
  next on =>
    have name : nameLength 0 (xs ++ r) = xs.length := Nat.succ.inj (congrArg Prod.snd whole)
    have more : xs ≠ [] := by
      rintro rfl
      exact Nat.ne_of_gt (nameLength_pos_of_goesOn on) name
    rw [if_pos (goesOn_append (goesOn_of_append more name on) r')]
    obtain ⟨rfl, -⟩ := Prod.mk.inj whole
    exact markedLexeme_append whole (follows.calmer rfl) (by simpa [Shut, endsOpen] using follows.shut rfl)
  next off =>
    obtain ⟨rfl, rfl⟩ := delim_append whole
    exact if_neg fun on => off ((follows.calmer rfl).name on)

/-- A sign or a point, perhaps with a number behind it. -/
theorem numberOrDelim_append {c : Char}
    (whole : (if startsNumber (c :: (xs ++ r)) then numericLexeme (c :: (xs ++ r)) else (.delim c, 1))
      = (k, xs.length + 1))
    (follows : Follows k (c :: xs) r r')
    (none : Calmer r r' → startsNumber (c :: r') = true → startsNumber (c :: r) = true) :
    (if startsNumber (c :: (xs ++ r')) then numericLexeme (c :: (xs ++ r')) else (.delim c, 1))
      = (k, xs.length + 1) := by
  split at whole
  next number =>
    have size : numericLength (c :: xs ++ r) = (c :: xs).length := congrArg Prod.snd whole
    have number' : startsNumber (c :: (xs ++ r')) = true :=
      startsNumber_append (c :: xs) (by simp) size number r'
    rw [if_pos number']
    obtain ⟨rfl, -⟩ := Prod.mk.inj whole
    exact numericLexeme_append (c :: xs) whole (follows.calmer rfl) (by simp) (follows.shut rfl)
  next other =>
    obtain ⟨rfl, rfl⟩ := delim_append whole
    exact if_neg fun number => other (none (follows.calmer rfl) number)

theorem lexeme_hyphen (cs : List Char) :
    lexeme '-' cs =
      if startsNumber ('-' :: cs) then numericLexeme ('-' :: cs)
      else if cs.take 2 = ['-', '>'] then (.cdc, 3)
      else if startsIdent ('-' :: cs) then identLexeme ('-' :: cs)
      else (.delim '-', 1) := rfl

theorem hyphen_append (whole : lexeme '-' (xs ++ r) = (k, xs.length + 1)) (follows : Follows k ('-' :: xs) r r')
    (sound : ∀ f, k ≠ .fault f) : lexeme '-' (xs ++ r') = (k, xs.length + 1) := by
  rw [lexeme_hyphen] at whole
  split at whole
  next number =>
    have size : numericLength ('-' :: xs ++ r) = ('-' :: xs).length := congrArg Prod.snd whole
    have number' : startsNumber ('-' :: (xs ++ r')) = true :=
      startsNumber_append ('-' :: xs) (by simp) size number r'
    obtain ⟨rfl, -⟩ := Prod.mk.inj whole
    rw [lexeme_hyphen, if_pos number']
    exact numericLexeme_append ('-' :: xs) whole (follows.calmer rfl) (by simp) (follows.shut rfl)
  next other =>
    split at whole
    next arrow =>
      obtain ⟨rfl, size⟩ := Prod.mk.inj whole
      obtain rfl : xs = ['-', '>'] := by rwa [List.take_left' (Nat.succ.inj size).symm] at arrow
      rfl
    next apart =>
      have behind : Calmer (xs ++ r) (xs ++ r') := by
        split at whole
        next =>
          cases on : k.mayGoOn with
          | true =>
            have shut : ¬Bare xs := fun bare => not_bare_of_mayGoOn ('-' :: xs) whole on (bare.cons (by decide))
            exact (follows.calmer on).append xs fun bare => absurd bare shut
          | false =>
            have paren := paren_mem ('-' :: xs) whole fun name e => by simp [e, Kind.mayGoOn] at on
            exact Calmer.of_mem ((List.mem_cons.1 paren).resolve_left (by decide)) rfl r r'
        next =>
          obtain ⟨rfl, rfl⟩ := delim_append whole
          exact follows.calmer rfl
      have other' : ¬startsNumber ('-' :: (xs ++ r')) = true := fun number => other (behind.unsigned number)
      rw [lexeme_hyphen, if_neg other', if_neg fun arrow => apart (behind.arrow arrow)]
      split at whole
      next ident =>
        have ident' : startsIdent ('-' :: (xs ++ r')) = true :=
          startsIdent_append_of_whole ('-' :: xs) whole (by simp) ident r'
        rw [if_pos ident']
        exact identLexeme_append ('-' :: xs) whole follows sound
      next anon =>
        obtain ⟨rfl, rfl⟩ := delim_append whole
        exact if_neg fun ident => anon ((follows.calmer rfl).hyphenated ident)

theorem less_append (whole : lexeme '<' (xs ++ r) = (k, xs.length + 1)) (follows : Follows k ('<' :: xs) r r') :
    lexeme '<' (xs ++ r') = (k, xs.length + 1) := by
  have equation (cs : List Char) :
      lexeme '<' cs = if cs.take 3 = ['!', '-', '-'] then (.cdo, 4) else (.delim '<', 1) := rfl
  rw [equation] at whole ⊢
  split at whole
  next mark =>
    obtain ⟨rfl, size⟩ := Prod.mk.inj whole
    obtain rfl : xs = ['!', '-', '-'] := by rwa [List.take_left' (Nat.succ.inj size).symm] at mark
    rfl
  next apart =>
    obtain ⟨rfl, rfl⟩ := delim_append whole
    exact if_neg fun mark => apart ((follows.calmer rfl).mark mark)

theorem at_append (whole : lexeme '@' (xs ++ r) = (k, xs.length + 1)) (follows : Follows k ('@' :: xs) r r') :
    lexeme '@' (xs ++ r') = (k, xs.length + 1) := by
  have equation (cs : List Char) :
      lexeme '@' cs = if startsIdent cs then markedLexeme .atKeyword cs else (.delim '@', 1) := rfl
  rw [equation] at whole ⊢
  split at whole
  next ident =>
    have name : nameLength 0 (xs ++ r) = xs.length := Nat.succ.inj (congrArg Prod.snd whole)
    have more : xs ≠ [] := by
      rintro rfl
      obtain ⟨c, cs, rfl⟩ : ∃ c cs, r = c :: cs := by
        cases r with
        | nil => cases ident
        | cons c cs => exact ⟨c, cs, rfl⟩
      exact Nat.ne_of_gt (nameLength_pos_of_startsIdent ident) name
    rw [if_pos (startsIdent_append (startsIdent_of_append more name ident) r')]
    obtain ⟨rfl, -⟩ := Prod.mk.inj whole
    exact markedLexeme_append whole (follows.calmer rfl) (by simpa [Shut, endsOpen] using follows.shut rfl)
  next anon =>
    obtain ⟨rfl, rfl⟩ := delim_append whole
    exact if_neg fun ident => anon ((follows.calmer rfl).ident ident)

theorem backslash_append (whole : lexeme '\\' (xs ++ r) = (k, xs.length + 1)) (follows : Follows k ('\\' :: xs) r r')
    (sound : ∀ f, k ≠ .fault f) : lexeme '\\' (xs ++ r') = (k, xs.length + 1) := by
  have equation (cs : List Char) :
      lexeme '\\' cs = if canEscape cs then identLexeme ('\\' :: cs) else (.fault .strayBackslash, 1) := rfl
  rw [equation] at whole ⊢
  split at whole
  next escapes =>
    have ident : startsIdent ('\\' :: (xs ++ r)) = true := escapes
    have ident' : startsIdent ('\\' :: (xs ++ r')) = true :=
      startsIdent_append_of_whole ('\\' :: xs) whole (by simp) ident r'
    have escapes' : canEscape (xs ++ r') = true := ident'
    rw [if_pos escapes']
    exact identLexeme_append ('\\' :: xs) whole follows sound
  next => exact absurd (congrArg Prod.fst whole).symm (sound _)

theorem slash_append (whole : lexeme '/' (xs ++ r) = (k, xs.length + 1)) (follows : Follows k ('/' :: xs) r r')
    (sound : ∀ f, k ≠ .fault f) : lexeme '/' (xs ++ r') = (k, xs.length + 1) := by
  have equation (cs : List Char) :
      lexeme '/' cs = if cs.head? = some '*' then commentLexeme cs.tail else (.delim '/', 1) := rfl
  rw [equation] at whole ⊢
  split at whole
  next star =>
    cases xs with
    | nil =>
      obtain ⟨rest, rfl⟩ : ∃ rest, r = '*' :: rest := by cases r <;> simp_all
      exact absurd (congrArg Prod.snd whole) (by have := commentLexeme_ge rest; simp; omega)
    | cons c xs =>
      obtain rfl : c = '*' := by simpa using star
      exact (if_pos rfl).trans (commentLexeme_append whole sound r')
  next other =>
    obtain ⟨rfl, rfl⟩ := delim_append whole
    exact if_neg fun star => other ((follows.calmer rfl).head '*' (by simp) star)

end Marked

/-- The characters at which more than one kind of token starts, or one that has no name. -/
def isMark (c : Char) : Bool :=
  ['\x22', '\x27', '#', '(', ')', '[', ']', '\x7b', '\x7d', ',', ':', ';', '+', '.', '-', '<', '@', '\\',
    '/'].contains c

theorem lexeme_of_not_isMark {c : Char} (solid : isBlank c = false) (other : isMark c = false) (cs : List Char) :
    lexeme c cs =
      if c.isDigit then numericLexeme (c :: cs)
      else if isNameStart c then identLexeme (c :: cs) else (.delim c, 1) := by
  unfold lexeme
  rw [solid, if_neg Bool.false_ne_true]
  split <;> first | rfl | exact absurd other (by decide)

/-- A token that ends before a text is the same token before every other that may follow it instead. -/
theorem lexeme_append {c : Char} (whole : lexeme c (xs ++ r) = (k, xs.length + 1)) (follows : Follows k (c :: xs) r r')
    (solid : k ≠ .whitespace) (sound : ∀ f, k ≠ .fault f) : lexeme c (xs ++ r') = (k, xs.length + 1) := by
  have other : isBlank c = false := by
    refine Bool.eq_false_iff.2 fun blank => solid ?_
    simpa [lexeme, blank] using (congrArg Prod.fst whole).symm
  have single {k' : Kind} (one : (k', 1) = (k, xs.length + 1)) : k' = k ∧ xs = [] := by
    simpa using one
  cases mark : isMark c with
  | false =>
    rw [lexeme_of_not_isMark other mark] at whole ⊢
    split
    next digit =>
      rw [if_pos digit] at whole
      obtain ⟨rfl, -⟩ := Prod.mk.inj whole
      exact numericLexeme_append (c :: xs) whole (follows.calmer rfl) (by simp) (follows.shut rfl)
    next digit =>
      rw [if_neg digit] at whole
      split
      next start =>
        rw [if_pos start] at whole
        exact identLexeme_append (c :: xs) whole follows sound
      next start =>
        rw [if_neg start] at whole
        obtain ⟨rfl, rfl⟩ := single whole
        rfl
  | true =>
    simp only [isMark, List.contains_eq_mem, List.mem_cons, List.not_mem_nil, or_false, decide_eq_true_eq] at mark
    rcases mark with rfl | rfl | rfl | rfl | rfl | rfl | rfl | rfl | rfl | rfl | rfl | rfl | rfl | rfl | rfl | rfl
      | rfl | rfl | rfl
    · exact stringLexeme_append whole sound r'
    · exact stringLexeme_append whole sound r'
    · exact hash_append whole follows
    iterate 9
      obtain ⟨rfl, rfl⟩ := single whole
      rfl
    · exact numberOrDelim_append whole follows Calmer.unsigned
    · exact numberOrDelim_append whole follows Calmer.digit
    · exact hyphen_append whole follows sound
    · exact less_append whole follows
    · exact at_append whole follows
    · exact backslash_append whole follows sound
    · exact slash_append whole follows sound

end Lexemes

end AboveFold.Token
