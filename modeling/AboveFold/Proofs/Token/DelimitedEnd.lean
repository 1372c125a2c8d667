import AboveFold.Proofs.Token.NumberEnd

/-!
# Where strings, comments and urls end

What is delimited ends for a reason of its own. Once its closing delimiter is there, it is the same before
whatever follows.
-/

namespace AboveFold.Token
open Text

variable {xs r : List Char}

section Delimited

/-- The characters behind a character of a string that it escapes. -/
def stringSkip (c : Char) (cs : List Char) : Nat :=
  if c = '\\' then (if cs.take 2 = ['\r', '\n'] then 2 else 1) else 0

theorem stringLength_cons (quote c : Char) (cs : List Char) :
    stringLength quote 0 (c :: cs) =
      if c = quote then (.closed, 1)
      else if isLineEnd c then (.newline, 0)
      else ((stringLength quote (stringSkip c cs) cs).1, (stringLength quote (stringSkip c cs) cs).2 + 1) := rfl

/-- A string is closed behind all that it escapes. -/
theorem stringLength_closed {quote : Char} {skip : Nat} {cs : List Char}
    (h : (stringLength quote skip cs).1 = .closed) : skip < (stringLength quote skip cs).2 := by
  induction cs generalizing skip with
  | nil => cases skip <;> cases h
  | cons c cs ih =>
    cases skip with
    | succ skip => exact Nat.succ_lt_succ (ih h)
    | zero =>
      rw [stringLength_cons] at h ⊢
      split
      · exact Nat.one_pos
      · split
        next other ends =>
          rw [if_neg other, if_pos ends] at h
          cases h
        next => exact Nat.succ_pos _

/-- A scan that goes one character further. -/
theorem eq_of_grown {ε : Type} {scan : ε × Nat} {ending : ε} {n : Nat}
    (h : (scan.1, scan.2 + 1) = (ending, n + 1)) : scan = (ending, n) := by
  obtain ⟨rfl, same⟩ := Prod.mk.inj h
  exact Prod.ext rfl (Nat.succ.inj same)

/-- A string that is closed inside of a text is closed there whatever follows. -/
theorem stringLength_append {quote : Char} {skip : Nat}
    (whole : stringLength quote skip (xs ++ r) = (.closed, xs.length)) (r' : List Char) : stringLength quote skip (xs ++ r') = (.closed, xs.length) := by
  induction xs generalizing skip with
  | nil =>
    have := stringLength_closed (congrArg Prod.fst whole)
    rw [whole] at this
    exact absurd this (Nat.not_lt_zero _)
  | cons c xs ih =>
    cases skip with
    | succ skip =>
      have inner := ih (eq_of_grown whole)
      simp only [List.cons_append, stringLength, inner]
      rfl
    | zero =>
      rw [List.cons_append, stringLength_cons] at *
      split
      next closes => rwa [if_pos closes] at whole
      next other =>
        rw [if_neg other] at whole
        split
        next ends =>
          rw [if_pos ends] at whole
          cases whole
        next inside =>
          rw [if_neg inside] at whole
          have inner := eq_of_grown whole
          have skip : stringSkip c (xs ++ r') = stringSkip c (xs ++ r) := by
            have behind := stringLength_closed (congrArg Prod.fst inner)
            rw [inner] at behind
            unfold stringSkip at behind ⊢
            split
            next backslash =>
              have two : 2 ≤ xs.length := by
                rw [if_pos backslash] at behind
                split at behind <;> simp only at behind <;> omega
              rw [List.take_append_of_le_length two, List.take_append_of_le_length two]
            next => rfl
          rw [skip, ih inner]
          rfl

theorem commentLength_ge {cs : List Char} {n : Nat} (h : commentLength cs = some n) : 2 ≤ n := by
  induction cs generalizing n with
  | nil => cases h
  | cons c cs ih =>
    unfold commentLength at h
    split at h
    next => exact Nat.le_of_eq (Option.some.inj h)
    next =>
      obtain ⟨m, rest, rfl⟩ := Option.map_eq_some_iff.1 h
      exact Nat.le_succ_of_le (ih rest)

/-- A comment that is closed inside of a text is closed there whatever follows. -/
theorem commentLength_append (whole : commentLength (xs ++ r) = some xs.length) (r' : List Char) :
    commentLength (xs ++ r') = some xs.length := by
  induction xs with
  | nil => exact absurd (commentLength_ge whole) (by simp)
  | cons c xs ih =>
    have more : xs ≠ [] := by
      rintro rfl
      exact absurd (commentLength_ge whole) (by simp)
    have head : (xs ++ r').head? = (xs ++ r).head? := by
      cases xs with
      | nil => exact absurd rfl more
      | cons => rfl
    rw [List.cons_append, commentLength] at *
    rw [head]
    split
    next ends => rwa [if_pos ends] at whole
    next inside =>
      rw [if_neg inside] at whole
      obtain ⟨m, rest, e⟩ := Option.map_eq_some_iff.1 whole
      obtain rfl : m = xs.length := Nat.succ.inj e
      rw [ih rest]
      rfl

/-- The characters behind a character of a url that it escapes. -/
def urlSkip (c : Char) (cs : List Char) : Nat :=
  if c = '\\' then escapeLength cs else 0

theorem urlLength_cons (c : Char) (cs : List Char) :
    urlLength 0 (c :: cs) =
      if c = ')' then (.closed, 0)
      else if isBlank c then
        match cs.dropWhile isBlank with
        | [] => (.inputEnd, 0)
        | d :: _ => (if d = ')' then .closed else .bad .blank, 0)
      else if c = '\x22' || c = '\x27' || c = '(' then (.bad .character, 0)
      else if isNonPrintable c then (.bad .nonPrintable, 0)
      else if c = '\\' && !canEscape cs then (.bad .escape, 0)
      else ((urlLength (urlSkip c cs) cs).1, (urlLength (urlSkip c cs) cs).2 + 1) := rfl

theorem dropWhile_blanks {blanks : List Char} (blank : ∀ c ∈ blanks, isBlank c = true) {c : Char}
    (other : isBlank c = false) (cs : List Char) : (blanks ++ c :: cs).dropWhile isBlank = c :: cs := by
  rw [List.dropWhile_append_of_pos blank, List.dropWhile_cons_of_neg (by simp [other])]

/-- At a parenthesis, perhaps behind blanks, a url is closed. -/
theorem urlLength_close {blanks : List Char} (blank : ∀ c ∈ blanks, isBlank c = true) (r : List Char) :
    urlLength 0 (blanks ++ ')' :: r) = (.closed, 0) := by
  cases blanks with
  | nil => rfl
  | cons b blanks =>
    rw [List.forall_mem_cons] at blank
    have other : b ≠ ')' := by
      rintro rfl
      cases blank.1
    rw [List.cons_append, urlLength_cons, if_neg other, if_pos blank.1, dropWhile_blanks blank.2 rfl]
    rfl

theorem canEscape_close (cs r r' : List Char) : canEscape (cs ++ ')' :: r') = canEscape (cs ++ ')' :: r) := by
  cases cs <;> rfl

/-- Whether a url goes on with a character before a text. -/
def isUrlChar (c : Char) (cs : List Char) : Bool :=
  c ≠ ')' && !isBlank c && !(['\x22', '\x27', '('].contains c) && !isNonPrintable c && (c ≠ '\\' || canEscape cs)

theorem urlLength_cons_eq_closed (c : Char) (cs : List Char) {n : Nat} :
    urlLength 0 (c :: cs) = (.closed, n + 1) ↔
      isUrlChar c cs = true ∧ urlLength (urlSkip c cs) cs = (.closed, n) := by
  rw [urlLength_cons]
  split
  next close => simp [isUrlChar, close]
  next close =>
    split
    next blank =>
      simp only [isUrlChar, blank]
      split <;> simp
    next blank =>
      split
      next mark => simp_all [isUrlChar, or_assoc]
      next mark =>
        split
        next printable => simp [isUrlChar, printable]
        next printable =>
          split
          next escape => simp_all [isUrlChar]
          next escape =>
            simp_all [isUrlChar, Prod.ext_iff]
            exact fun _ _ => Decidable.not_or_of_imp escape

theorem isUrlChar_close (c : Char) (cs r r' : List Char) :
    isUrlChar c (cs ++ ')' :: r') = isUrlChar c (cs ++ ')' :: r) := by
  unfold isUrlChar
  rw [canEscape_close cs r r']

theorem urlSkip_close (c : Char) (cs r : List Char) : urlSkip c (cs ++ ')' :: r) = urlSkip c cs := by
  unfold urlSkip
  rw [escapeLength_append_of_stop rfl fun blank => absurd blank (by simp [isBlank])]

/-- A url that is closed inside of a text is closed there whatever follows. -/
theorem urlLength_append {skip : Nat} {blanks : List Char} (blank : ∀ c ∈ blanks, isBlank c = true)
    (whole : urlLength skip (xs ++ blanks ++ ')' :: r) = (.closed, xs.length)) (r' : List Char) :
    urlLength skip (xs ++ blanks ++ ')' :: r') = (.closed, xs.length) := by
  induction xs generalizing skip with
  | nil =>
    cases skip with
    | zero => exact urlLength_close blank r'
    | succ skip =>
      cases blanks with
      | nil => cases congrArg Prod.snd whole
      | cons b blanks => cases congrArg Prod.snd whole
  | cons c xs ih =>
    cases skip with
    | succ skip =>
      have inner := ih (eq_of_grown whole)
      simp only [List.cons_append, urlLength, inner]
      rfl
    | zero =>
      obtain ⟨char, inner⟩ := (urlLength_cons_eq_closed c (xs ++ blanks ++ ')' :: r)).1 whole
      have char' : isUrlChar c (xs ++ blanks ++ ')' :: r') = true := isUrlChar_close c (xs ++ blanks) r r' ▸ char
      refine (urlLength_cons_eq_closed c (xs ++ blanks ++ ')' :: r')).2 ⟨char', ?_⟩
      rw [urlSkip_close] at inner ⊢
      exact ih inner

end Delimited

section Urls

/-- How a url stands in a text: with blanks around it, up to its parenthesis. -/
structure UrlAt (lead text trail behind : List Char) : Prop where
  leadBlank : ∀ c ∈ lead, isBlank c = true
  trailBlank : ∀ c ∈ trail, isBlank c = true
  /-- Blanks without a url are those before it. -/
  solid : text = [] → trail = []
  closed : urlLength 0 (text ++ trail ++ ')' :: behind) = (.closed, text.length)

theorem UrlAt.lexeme {lead text trail : List Char} (h : UrlAt lead text trail r) :
    urlLexeme (lead ++ (text ++ trail ++ ')' :: r)) =
      (.url (String.ofList text), lead.length + text.length + trail.length + 1) := by
  have front : (text ++ trail ++ ')' :: r).takeWhile isBlank = [] := by
    cases e : text with
    | nil => rw [h.solid e]; rfl
    | cons c cs =>
      have closed := h.closed
      rw [e, List.append_assoc, List.cons_append] at closed
      have char := ((urlLength_cons_eq_closed _ _).1 closed).1
      have solid : isBlank c = false := by simp_all [isUrlChar]
      simp [solid]
  have blanks : (lead ++ (text ++ trail ++ ')' :: r)).takeWhile isBlank = lead := by
    rw [List.takeWhile_append_of_pos h.leadBlank, front, List.append_nil]
  have behind : (trail ++ ')' :: r).takeWhile isBlank = trail := by
    rw [List.takeWhile_append_of_pos h.trailBlank]
    simp [isBlank]
  unfold urlLexeme
  rw [blanks]
  dsimp only
  rw [List.drop_left, h.closed]
  simp [List.append_assoc, behind]

theorem drop_takeWhile (p : Char → Bool) (cs : List Char) : cs.drop (cs.takeWhile p).length = cs.dropWhile p := by
  induction cs with
  | nil => rfl
  | cons c cs ih => cases h : p c <;> simp [h, ih]

theorem takeWhile_dropWhile (p : Char → Bool) (cs : List Char) : (cs.dropWhile p).takeWhile p = [] := by
  induction cs with
  | nil => rfl
  | cons c cs ih => cases h : p c <;> simp [h, ih]

theorem exists_urlAt {cs : List Char} {text : String} {n : Nat} (h : urlLexeme cs = (.url text, n)) :
    ∃ lead inner trail behind, cs = lead ++ (inner ++ trail ++ ')' :: behind) ∧ UrlAt lead inner trail behind ∧
      n = lead.length + inner.length + trail.length + 1 := by
  unfold urlLexeme at h
  dsimp only at h
  rw [drop_takeWhile] at h
  have blanks : cs.takeWhile isBlank ++ cs.dropWhile isBlank = cs := List.takeWhile_append_dropWhile
  have unled := takeWhile_dropWhile isBlank cs
  generalize cs.dropWhile isBlank = body at *
  split at h
  next ends =>
    obtain ⟨behind, close⟩ := urlLength_closed ends
    have size := urlLength_le 0 body
    generalize scan : urlLength 0 body = e at *
    obtain ⟨ending, m⟩ := e
    dsimp only at ends close size h
    subst ends
    have rest : (body.drop m).takeWhile isBlank ++ ')' :: behind = body.drop m := by
      rw [← close]
      exact List.takeWhile_append_dropWhile
    have whole : body.take m ++ (body.drop m).takeWhile isBlank ++ ')' :: behind = body := by
      rw [List.append_assoc, rest, List.take_append_drop]
    have length : (body.take m).length = m := by
      rw [List.length_take]
      omega
    refine ⟨cs.takeWhile isBlank, body.take m, (body.drop m).takeWhile isBlank, behind, ?_, ?_, ?_⟩
    · rw [whole, blanks]
    · constructor
      case leadBlank => exact List.all_eq_true.1 List.all_takeWhile
      case trailBlank => exact List.all_eq_true.1 List.all_takeWhile
      case solid =>
        intro none
        have zero : m = 0 := by rw [← length, none]; rfl
        rw [zero]
        exact unled
      case closed => rw [whole, scan, length]
    · rw [length]
      exact (congrArg Prod.snd h).symm
  next => cases congrArg Prod.fst h
  next => cases congrArg Prod.fst h

/-- A text that is a url up to its end is one whatever follows. -/
theorem urlAt_of_whole {text : String} (whole : urlLexeme (xs ++ r) = (.url text, xs.length)) :
    ∃ lead inner trail, xs = lead ++ (inner ++ trail ++ [')']) ∧ UrlAt lead inner trail r := by
  obtain ⟨lead, inner, trail, behind, split, url, size⟩ := exists_urlAt whole
  obtain ⟨rfl, rfl⟩ : xs = lead ++ (inner ++ trail ++ [')']) ∧ r = behind := by
    apply List.append_inj
    · simpa using split
    · simp [size]
      omega
  exact ⟨lead, inner, trail, rfl, url⟩

theorem UrlAt.append {lead text trail : List Char} (h : UrlAt lead text trail r) (r' : List Char) :
    UrlAt lead text trail r' :=
  { h with closed := urlLength_append h.trailBlank h.closed r' }

theorem urlLexeme_append {text : String} (whole : urlLexeme (xs ++ r) = (.url text, xs.length)) (r' : List Char) :
    urlLexeme (xs ++ r') = (.url text, xs.length) := by
  obtain ⟨lead, inner, trail, rfl, url⟩ := urlAt_of_whole whole
  have shape (r : List Char) : lead ++ (inner ++ trail ++ [')']) ++ r = lead ++ (inner ++ trail ++ ')' :: r) := by simp
  rw [shape, url.lexeme] at whole
  rw [shape, (url.append r').lexeme, whole]

theorem mem_urlLexeme {text : String} (whole : urlLexeme (xs ++ r) = (.url text, xs.length)) : ')' ∈ xs := by
  obtain ⟨lead, inner, trail, rfl, -⟩ := urlAt_of_whole whole
  simp

end Urls

end AboveFold.Token
