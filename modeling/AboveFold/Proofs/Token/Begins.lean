import AboveFold.Proofs.Token.TokenEnd

/-!
# What a token begins with

`Begins` lists what the token at the front of a text can be, with what its first character then is. All that
is asked of a token by its kind is read off it.
-/

namespace AboveFold.Token
open Text

namespace Kind

/-- Whether the kind is that of a comment. -/
def isComment : Kind → Bool
  | .comment _ => true
  | _ => false

/-- The character of a token that is one character and always that. -/
def sign? : Kind → Option Char
  | .comma => some ','
  | .colon => some ':'
  | .semicolon => some ';'
  | .parenOpen => some '('
  | .squareOpen => some '['
  | .curlyOpen => some '\x7b'
  | .parenClose => some ')'
  | .squareClose => some ']'
  | .curlyClose => some '\x7d'
  | _ => none

end Kind

/-- The token at the front of the text `c :: cs`, and its extent. -/
inductive Begins (c : Char) (cs : List Char) : Kind × Nat → Prop where
  | blanks (blank : isBlank c = true) : Begins c cs (.whitespace, (cs.takeWhile isBlank).length + 1)
  | string (quote : c = '\x22' ∨ c = '\x27') : Begins c cs (stringLexeme c cs)
  | hash (sign : c = '#') : Begins c cs (markedLexeme .hash cs)
  | atKeyword (sign : c = '@') : Begins c cs (markedLexeme .atKeyword cs)
  | sign {k : Kind} (sign : k.sign? = some c) : Begins c cs (k, 1)
  | number (solid : isBlank c = false) : Begins c cs (numericLexeme (c :: cs))
  | name (solid : isBlank c = false) : Begins c cs (identLexeme (c :: cs))
  | cdc (dash : c = '-') (arrow : cs.take 2 = ['-', '>']) : Begins c cs (.cdc, 3)
  | cdo (less : c = '<') (mark : cs.take 3 = ['!', '-', '-']) : Begins c cs (.cdo, 4)
  | comment (slash : c = '/') (star : cs.head? = some '*') : Begins c cs (commentLexeme cs.tail)
  | stray (backslash : c = '\\') : Begins c cs (.fault .strayBackslash, 1)
  | delim (solid : isBlank c = false) : Begins c cs (.delim c, 1)

theorem begins_lexeme (c : Char) (cs : List Char) : Begins c cs (lexeme c cs) := by
  unfold lexeme
  split
  next blank => exact .blanks blank
  next solid =>
    split
    -- quotes, `#` and the brackets and marks of one character
    · exact .string (.inl rfl)
    · exact .string (.inr rfl)
    · split
      · exact .hash rfl
      · exact .delim rfl
    iterate 9 exact .sign rfl
    -- `+`, `.` and `-`
    iterate 2
      split
      · exact .number rfl
      · exact .delim rfl
    · split
      next => exact .number rfl
      next =>
        split
        next arrow => exact .cdc rfl arrow
        next =>
          split
          · exact .name rfl
          · exact .delim rfl
    -- `<`, `@`, `\\` and `/`
    · split
      next mark => exact .cdo rfl mark
      next => exact .delim rfl
    · split
      · exact .atKeyword rfl
      · exact .delim rfl
    · split
      · exact .name rfl
      · exact .stray rfl
    · split
      next star => exact .comment rfl star
      next => exact .delim rfl
    · have solid : isBlank c = false := by simpa using solid
      split
      next => exact .number solid
      next =>
        split
        · exact .name solid
        · exact .delim solid

/-! ## What the kind says -/

theorem stringLexeme_kind (quote : Char) (cs : List Char) :
    (∃ text, (stringLexeme quote cs).1 = .quotedString text) ∨ ∃ f, (stringLexeme quote cs).1 = .fault f := by
  unfold stringLexeme
  split
  next => exact .inl ⟨_, rfl⟩
  next => exact .inr ⟨_, rfl⟩
  next => exact .inr ⟨_, rfl⟩

theorem commentLexeme_kind (cs : List Char) :
    (∃ text, (commentLexeme cs).1 = .comment text) ∨ ∃ f, (commentLexeme cs).1 = .fault f := by
  unfold commentLexeme
  split
  next => exact .inl ⟨_, rfl⟩
  next => exact .inr ⟨_, rfl⟩

theorem identLexeme_kind (cs : List Char) :
    (∃ name, (identLexeme cs).1 = .ident name) ∨ (∃ name, (identLexeme cs).1 = .function name)
      ∨ (∃ text, (identLexeme cs).1 = .url text) ∨ ∃ f, (identLexeme cs).1 = .fault f := by
  unfold identLexeme
  dsimp only
  split
  next rest _ =>
    split
    next => exact .inr (.inr (urlLexeme_kind rest))
    next => exact .inr (.inl ⟨_, rfl⟩)
  next => exact .inl ⟨_, rfl⟩

namespace Begins

variable {c : Char} {cs : List Char} {p : Kind × Nat}

/-- Blanks are all blanks that are there, and no other token starts with one. -/
theorem blanks_iff (h : Begins c cs p) : isBlank c = true ↔ p.1 = .whitespace := by
  cases h with
  | blanks blank => simp [blank]
  | string quote =>
    have solid : isBlank c = false := by rcases quote with rfl | rfl <;> rfl
    rcases stringLexeme_kind c cs with ⟨_, e⟩ | ⟨_, e⟩ <;> simp [solid, e]
  | hash sign => simp [sign, isBlank, markedLexeme]
  | atKeyword sign => simp [sign, isBlank, markedLexeme]
  | @sign k sign =>
    cases k <;> cases sign <;> simp [isBlank]
  | number solid => simp [solid, numericLexeme]
  | name solid =>
    rcases identLexeme_kind (c :: cs) with ⟨_, e⟩ | ⟨_, e⟩ | ⟨_, e⟩ | ⟨_, e⟩ <;> simp [solid, e]
  | cdc dash => simp [dash, isBlank]
  | cdo less => simp [less, isBlank]
  | comment slash =>
    rcases commentLexeme_kind cs.tail with ⟨_, e⟩ | ⟨_, e⟩ <;> simp [slash, isBlank, e]
  | stray backslash => simp [backslash, isBlank]
  | delim solid => simp [solid]

theorem slash_of_isComment (h : Begins c cs p) (comment : p.1.isComment = true) : c = '/' := by
  cases h with
  | comment slash => exact slash
  | string =>
    rcases stringLexeme_kind c cs with ⟨_, e⟩ | ⟨_, e⟩ <;> (rw [e] at comment; cases comment)
  | name =>
    rcases identLexeme_kind (c :: cs) with ⟨_, e⟩ | ⟨_, e⟩ | ⟨_, e⟩ | ⟨_, e⟩ <;> (rw [e] at comment; cases comment)
  | @sign k sign => cases k <;> first | (cases comment; done) | cases sign
  | _ => cases comment

/-- A sign is one character. -/
theorem of_sign (h : Begins c cs p) {d : Char} (sign : p.1.sign? = some d) : c = d ∧ p.2 = 1 := by
  cases h with
  | sign first => exact ⟨Option.some.inj (first.symm.trans sign), rfl⟩
  | string =>
    rcases stringLexeme_kind c cs with ⟨_, e⟩ | ⟨_, e⟩ <;> (rw [e] at sign; cases sign)
  | name =>
    rcases identLexeme_kind (c :: cs) with ⟨_, e⟩ | ⟨_, e⟩ | ⟨_, e⟩ | ⟨_, e⟩ <;> (rw [e] at sign; cases sign)
  | comment =>
    rcases commentLexeme_kind cs.tail with ⟨_, e⟩ | ⟨_, e⟩ <;> (rw [e] at sign; cases sign)
  | _ => cases sign

/-- A function is read as a name. -/
theorem of_function (h : Begins c cs p) {name : String} (function : p.1 = .function name) :
    p = identLexeme (c :: cs) := by
  cases h with
  | name => rfl
  | string =>
    rcases stringLexeme_kind c cs with ⟨_, e⟩ | ⟨_, e⟩ <;> (rw [e] at function; cases function)
  | comment =>
    rcases commentLexeme_kind cs.tail with ⟨_, e⟩ | ⟨_, e⟩ <;> (rw [e] at function; cases function)
  | @sign k sign => cases k <;> first | (cases function; done) | cases sign
  | _ => cases function

theorem isSteady_of_isBlank (blank : isBlank c = true) : isSteady c = true := by
  simp only [isBlank, Bool.or_eq_true, decide_eq_true_eq] at blank
  rcases blank with (((rfl | rfl) | rfl) | rfl) | rfl <;> rfl

/-- A token with an end of its own holds a steady character. -/
theorem exists_isSteady {xs r : List Char} {k : Kind} (h : Begins c (xs ++ r) (k, xs.length + 1))
    (sound : ∀ f, k ≠ .fault f) (ends : k.mayGoOn = false) : ∃ d ∈ c :: xs, isSteady d = true := by
  generalize e : (k, xs.length + 1) = p at h
  cases h with
  | blanks blank => exact ⟨c, List.mem_cons_self, isSteady_of_isBlank blank⟩
  | string quote => exact ⟨c, List.mem_cons_self, by rcases quote with rfl | rfl <;> rfl⟩
  | @sign k sign => exact ⟨c, List.mem_cons_self, by cases k <;> cases sign <;> rfl⟩
  | cdo less => exact ⟨c, List.mem_cons_self, by rw [less]; rfl⟩
  | comment slash => exact ⟨c, List.mem_cons_self, by rw [slash]; rfl⟩
  | name =>
    have paren := paren_mem (c :: xs) e.symm fun name ident => by simp [ident, Kind.mayGoOn] at ends
    exact ⟨'(', paren, rfl⟩
  | cdc _ arrow =>
    obtain ⟨rfl, size⟩ := Prod.mk.inj e
    rw [List.take_left' (Nat.succ.inj size)] at arrow
    exact ⟨'>', by simp [arrow], rfl⟩
  | stray => exact absurd (congrArg Prod.fst e) (sound _)
  | hash | atKeyword | number | delim =>
    obtain ⟨rfl, -⟩ := Prod.mk.inj e
    cases ends

end Begins

/-- A character by itself is no quote, no backslash and no slash that opens a comment. -/
theorem of_lexeme_eq_delim {c d : Char} {cs : List Char} {n : Nat} (reads : lexeme c cs = (.delim d, n)) :
    c ≠ '\x22' ∧ c ≠ '\x27' ∧ c ≠ '\\' ∧ ¬(c = '/' ∧ cs.head? = some '*') := by
  have kind : (lexeme c cs).1 = .delim d := congrArg Prod.fst reads
  have quote (quote : Char) (e : lexeme c cs = stringLexeme quote cs) : False := by
    rw [e] at kind
    rcases stringLexeme_kind quote cs with ⟨_, k⟩ | ⟨_, k⟩ <;> (rw [k] at kind; cases kind)
  refine ⟨?_, ?_, ?_, ?_⟩
  · rintro rfl
    exact quote '\x22' rfl
  · rintro rfl
    exact quote '\x27' rfl
  · rintro rfl
    have e : lexeme '\\' cs = if canEscape cs then identLexeme ('\\' :: cs) else (.fault .strayBackslash, 1) := rfl
    rw [e] at kind
    split at kind
    next => rcases identLexeme_kind ('\\' :: cs) with ⟨_, k⟩ | ⟨_, k⟩ | ⟨_, k⟩ | ⟨_, k⟩ <;> (rw [k] at kind; cases kind)
    next => cases kind
  · rintro ⟨rfl, star⟩
    have e : lexeme '/' cs = if cs.head? = some '*' then commentLexeme cs.tail else (.delim '/', 1) := rfl
    rw [e, if_pos star] at kind
    rcases commentLexeme_kind cs.tail with ⟨_, k⟩ | ⟨_, k⟩ <;> (rw [k] at kind; cases kind)

/-- A token with no end of its own does not end in a backslash that escapes what is behind it. -/
theorem not_bare_of_lexeme {c : Char} {xs r : List Char} {k : Kind} (reads : lexeme c (xs ++ r) = (k, xs.length + 1))
    (on : k.mayGoOn = true) : ¬Bare (c :: xs) := by
  have begins := begins_lexeme c (xs ++ r)
  generalize whole : lexeme c (xs ++ r) = p at reads begins
  subst reads
  generalize e : (k, xs.length + 1) = p at whole begins
  have marked {kind : String → Kind} (sign : c ≠ '\\') (e : (k, xs.length + 1) = markedLexeme kind (xs ++ r)) :
      ¬Bare (c :: xs) := by
    have read : nameLength 0 (xs ++ r) = xs.length := (Nat.succ.inj (congrArg Prod.snd e)).symm
    exact fun bare => not_bare_of_whole read (bare.tail sign)
  cases begins with
  | hash sign => exact marked (by rw [sign]; decide) e
  | atKeyword sign => exact marked (by rw [sign]; decide) e
  | number => exact not_bare_of_numericLength (congrArg Prod.snd e).symm
  | name => exact not_bare_of_mayGoOn (c :: xs) e.symm on
  | delim =>
    rintro ⟨front, one, -⟩
    obtain rfl : xs = [] := by simpa using congrArg Prod.snd e
    have backslash : c = '\\' := by cases front <;> simp_all
    exact (of_lexeme_eq_delim whole).2.2.1 backslash
  | string =>
    rcases stringLexeme_kind c (xs ++ r) with ⟨_, kind⟩ | ⟨_, kind⟩ <;> (rw [← e] at kind; cases kind; cases on)
  | comment =>
    rcases commentLexeme_kind (xs ++ r).tail with ⟨_, kind⟩ | ⟨_, kind⟩ <;> (rw [← e] at kind; cases kind; cases on)
  | @sign k' sign =>
    obtain ⟨rfl, -⟩ := Prod.mk.inj e
    cases k <;> first | (cases on; done) | cases sign
  | blanks | cdc | cdo | stray =>
    obtain ⟨rfl, -⟩ := Prod.mk.inj e
    cases on

/-- Blanks go on up to the first character that is none. -/
theorem lexeme_eq_blanks {c : Char} {xs r : List Char} : lexeme c (xs ++ r) = (.whitespace, xs.length + 1)
    ↔ (∀ d ∈ c :: xs, isBlank d = true) ∧ r.head?.any isBlank = false := by
  have stop : r.head?.any isBlank = false ↔ r.takeWhile isBlank = [] := by
    cases r with
    | nil => simp
    | cons d r => cases blank : isBlank d <;> simp [blank]
  rw [List.forall_mem_cons, stop]
  constructor
  · intro reads
    have blank : isBlank c = true := (begins_lexeme c (xs ++ r)).blanks_iff.2 (by rw [reads])
    have size : ((xs ++ r).takeWhile isBlank).length = xs.length := by
      unfold lexeme at reads
      rw [if_pos blank] at reads
      exact Nat.succ.inj (congrArg Prod.snd reads)
    have taken : (xs ++ r).takeWhile isBlank = xs := by
      rw [List.prefix_iff_eq_take.1 (List.takeWhile_prefix isBlank), size, List.take_left]
    have all : ∀ d ∈ xs, isBlank d = true := by
      rw [← taken]
      exact List.all_eq_true.1 List.all_takeWhile
    rw [List.takeWhile_append_of_pos all] at taken
    exact ⟨⟨blank, all⟩, List.append_cancel_left (taken.trans (List.append_nil xs).symm)⟩
  · rintro ⟨⟨blank, all⟩, none⟩
    unfold lexeme
    rw [if_pos blank, List.takeWhile_append_of_pos all, none, List.append_nil]

end AboveFold.Token
