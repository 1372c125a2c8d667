import AboveFold.Proofs.Token.DelimitedEnd

/-!
# Where identifiers, functions and urls end

All three start with a name: nothing, a parenthesis or a whole url stands behind it (`Names`). An identifier
ends where nothing goes on with its name; the others have an end of their own.
-/

namespace AboveFold.Token
open Text

variable {xs r r' : List Char} {k : Kind}

/-- Whether a token has no end of its own: it is over where nothing goes on with it. -/
def Kind.mayGoOn : Kind → Bool
  | .ident _ | .numeric _ | .hash _ | .atKeyword _ | .delim _ => true
  | _ => false

/-- What may follow a token instead of `r`. If the token has no end of its own, that is a calmer text with no blank
for an escape at the end of the token. The name of a url stays that of a function before a quote only. -/
structure Follows (k : Kind) (text r r' : List Char) : Prop where
  calmer : k.mayGoOn = true → Calmer r r'
  shut : k.mayGoOn = true → Shut 0 text r r'
  quoted : ∀ name, k = .function name → eqIgnoreCase name "url" = true → startsQuoted r' = true

theorem identLexeme_of_paren {name rest : List Char} (h : nameLength 0 (name ++ '(' :: rest) = name.length) :
    identLexeme (name ++ '(' :: rest) =
      if eqIgnoreCase (String.ofList name) "url" && !startsQuoted rest then
        ((urlLexeme rest).1, name.length + 1 + (urlLexeme rest).2)
      else (.function (String.ofList name), name.length + 1) := by
  unfold identLexeme
  simp only [h, List.drop_left, List.take_left]

theorem identLexeme_of_other {name rest : List Char} (h : nameLength 0 (name ++ rest) = name.length)
    (other : rest.head? ≠ some '(') : identLexeme (name ++ rest) = (.ident (String.ofList name), name.length) := by
  unfold identLexeme
  simp only [h, List.drop_left, List.take_left]
  split
  next => exact absurd rfl other
  next => rfl

/-- What the first character after blanks is, the text says in which there is one. -/
theorem startsQuoted_append {c : Char} (mem : c ∈ xs) (solid : isBlank c = false) (r : List Char) :
    startsQuoted (xs ++ r) = startsQuoted xs := by
  induction xs with
  | nil => cases mem
  | cons d xs ih =>
    unfold startsQuoted at *
    cases blank : isBlank d with
    | true =>
      have inside : c ∈ xs := (List.mem_cons.1 mem).resolve_left fun e => by simp [e, blank] at solid
      simpa [blank] using ih inside
    | false => simp [blank]

theorem urlLexeme_kind (cs : List Char) :
    (∃ text, (urlLexeme cs).1 = .url text) ∨ ∃ f, (urlLexeme cs).1 = .fault f := by
  unfold urlLexeme
  dsimp only
  split
  · exact .inl ⟨_, rfl⟩
  · exact .inr ⟨_, rfl⟩
  · exact .inr ⟨_, rfl⟩

theorem nameLength_le_identLexeme (cs : List Char) : nameLength 0 cs ≤ (identLexeme cs).2 := by
  unfold identLexeme
  dsimp only
  split
  · split <;> simp only <;> omega
  · exact Nat.le_refl _

theorem goesOn_paren (cs : List Char) : goesOn ('(' :: cs) = false := by
  have name : isNameChar '(' = false := by decide
  simp [goesOn, name]

/-- A text that starts with a name, before `r`: an identifier, a function or a url. -/
inductive Names (r : List Char) : List Char → Kind → Prop where
  | ident {name : List Char} (read : nameLength 0 (name ++ r) = name.length) (other : r.head? ≠ some '(') :
      Names r name (.ident (String.ofList name))
  | function {name : List Char} (read : nameLength 0 (name ++ '(' :: r) = name.length)
      (plain : eqIgnoreCase (String.ofList name) "url" = true → startsQuoted r = true) :
      Names r (name ++ ['(']) (.function (String.ofList name))
  | url {name ys : List Char} {k : Kind} (read : nameLength 0 (name ++ '(' :: (ys ++ r)) = name.length)
      (named : eqIgnoreCase (String.ofList name) "url" = true) (bare : startsQuoted (ys ++ r) = false)
      (whole : urlLexeme (ys ++ r) = (k, ys.length)) : Names r (name ++ '(' :: ys) k

theorem Names.identLexeme_eq (h : Names r xs k) : identLexeme (xs ++ r) = (k, xs.length) := by
  cases h with
  | ident read other => exact identLexeme_of_other read other
  | @function name read plain =>
    rw [List.append_assoc, List.singleton_append, identLexeme_of_paren read, if_neg]
    · simp
    · simpa using plain
  | @url name ys k read named bare whole =>
    rw [List.append_assoc, List.cons_append, identLexeme_of_paren read, named, bare, whole]
    simp only [Bool.not_false, Bool.and_true, if_true, List.length_append, List.length_cons]
    rw [Nat.add_right_comm, Nat.add_assoc]

/-- A function is its name and a parenthesis, and with the name of a url it stands before a quote. -/
theorem Names.of_function {name : String} (h : Names r xs k) (function : k = .function name) :
    xs = name.toList ++ ['('] ∧ (eqIgnoreCase name "url" = true → startsQuoted r = true) := by
  cases h with
  | ident => cases function
  | function _ plain =>
    obtain rfl := Kind.function.inj function
    exact ⟨by simp, plain⟩
  | @url _ ys _ _ _ _ whole =>
    rcases urlLexeme_kind (ys ++ r) with ⟨text, k⟩ | ⟨f, k⟩ <;> (rw [whole, function] at k; cases k)

/-- What a name stands in front of, when it is all read. -/
theorem names_of_whole (whole : identLexeme (xs ++ r) = (k, xs.length)) : Names r xs k := by
  obtain ⟨name, ys, rfl, read⟩ : ∃ name ys, xs = name ++ ys ∧ nameLength 0 (name ++ (ys ++ r)) = name.length := by
    have inside := nameLength_le_identLexeme (xs ++ r)
    rw [whole] at inside
    refine ⟨xs.take (nameLength 0 (xs ++ r)), xs.drop (nameLength 0 (xs ++ r)), (List.take_append_drop _ xs).symm, ?_⟩
    rw [← List.append_assoc, List.take_append_drop, List.length_take_of_le inside]
  rw [List.append_assoc] at whole
  by_cases paren : (ys ++ r).head? = some '('
  · obtain ⟨rest, e⟩ : ∃ rest, ys ++ r = '(' :: rest := by
      cases h : ys ++ r with
      | nil => simp [h] at paren
      | cons c rest => exact ⟨rest, by simpa [h] using paren⟩
    rw [e] at whole read
    rw [identLexeme_of_paren read] at whole
    cases ys with
    | nil =>
      have size := congrArg Prod.snd whole
      split at size <;> (simp only [List.append_nil] at size; omega)
    | cons y ys =>
      rw [List.cons_append] at e
      obtain ⟨rfl, rfl⟩ := List.cons.inj e
      split at whole
      next url =>
        obtain ⟨rfl, size⟩ := Prod.mk.inj whole
        obtain ⟨named, bare⟩ := Bool.and_eq_true_iff.1 url
        have extent : (urlLexeme (ys ++ r)).2 = ys.length := by
          rw [List.length_append, List.length_cons] at size
          omega
        exact .url read named (by simpa using bare) (Prod.ext rfl extent)
      next plain =>
        obtain ⟨rfl, size⟩ := Prod.mk.inj whole
        obtain rfl : ys = [] := by simpa using size
        exact .function read (by simpa using plain)
  · rw [identLexeme_of_other read paren] at whole
    obtain ⟨rfl, size⟩ := Prod.mk.inj whole
    obtain rfl : ys = [] := by simpa using size
    rw [List.append_nil]
    exact .ident read paren

theorem identLexeme_append (xs : List Char) (whole : identLexeme (xs ++ r) = (k, xs.length))
    (follows : Follows k xs r r') (sound : ∀ f, k ≠ .fault f) : identLexeme (xs ++ r') = (k, xs.length) := by
  apply Names.identLexeme_eq
  cases names_of_whole whole with
  | ident read other =>
    have calmer := follows.calmer rfl
    have stop := calmer.goesOn_eq_false (goesOn_eq_false_of_whole (Nat.zero_le _) read)
    exact .ident (nameLength_append (Nat.zero_le _) read stop (follows.shut rfl))
      fun paren => other (calmer.head '(' (by simp) paren)
  | function read =>
    exact .function (nameLength_append (Nat.zero_le _) read (goesOn_paren _) (.inl (.of_head rfl))) (follows.quoted _ rfl)
  | @url name ys k read named bare whole =>
    obtain ⟨text, e⟩ := (urlLexeme_kind (ys ++ r)).resolve_right fun ⟨f, e⟩ => sound f (by rw [← e, whole])
    obtain rfl : k = .url text := by rw [← e, whole]
    have start (r : List Char) := startsQuoted_append (mem_urlLexeme whole) rfl r
    rw [start] at bare
    exact .url (nameLength_append (Nat.zero_le _) read (goesOn_paren _) (.inl (.of_head rfl))) named ((start r').trans bare)
      (urlLexeme_append whole r')

/-- A function or a url has its parenthesis. -/
theorem paren_mem (xs : List Char) (whole : identLexeme (xs ++ r) = (k, xs.length))
    (other : ∀ name, k ≠ .ident name) : '(' ∈ xs := by
  cases names_of_whole whole with
  | ident => exact absurd rfl (other _)
  | function => simp
  | url => simp

/-- An identifier does not end in a backslash that escapes what is behind it. -/
theorem not_bare_of_mayGoOn (xs : List Char) (whole : identLexeme (xs ++ r) = (k, xs.length))
    (on : k.mayGoOn = true) : ¬Bare xs := by
  cases names_of_whole whole with
  | ident read => exact not_bare_of_whole read
  | function => cases on
  | @url _ ys _ _ _ _ url =>
    have kind := urlLexeme_kind (ys ++ r)
    rw [url] at kind
    obtain ⟨_, rfl⟩ | ⟨_, rfl⟩ := kind <;> cases on

/-- What starts an identifier is inside of it. -/
theorem startsIdent_append_of_whole (xs : List Char) (whole : identLexeme (xs ++ r) = (k, xs.length)) (more : xs ≠ [])
    (ident : startsIdent (xs ++ r) = true) (r' : List Char) : startsIdent (xs ++ r') = true := by
  have inside {name rest : List Char} (read : nameLength 0 (name ++ rest) = name.length) (more : name ++ rest ≠ [])
      (ident : startsIdent (name ++ rest) = true) (rest' : List Char) : startsIdent (name ++ rest') = true := by
    have first : name ≠ [] := by
      rintro rfl
      obtain ⟨c, cs, rfl⟩ := List.exists_cons_of_ne_nil more
      exact Nat.ne_of_gt (nameLength_pos_of_startsIdent ident) read
    exact startsIdent_append (startsIdent_of_append first read ident) _
  cases names_of_whole whole with
  | ident read => exact inside read (by simp [more]) ident r'
  | function read =>
    rw [List.append_assoc] at ident ⊢
    exact inside read (by simp) ident _
  | url read =>
    rw [List.append_assoc] at ident ⊢
    exact inside read (by simp) ident _

end AboveFold.Token
