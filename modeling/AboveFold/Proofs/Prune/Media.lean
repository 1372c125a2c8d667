import AboveFold.Proofs.Token.Collapsing
import AboveFold.Prune.Media

/-!
# Media queries on a screen

A media query that is made of a type and features, or of features alone, is taken as useful exactly if it holds on a
screen for some truth of its features (`isUsefulQuery_iff_holds`). The text of a query may have blanks and comments
around its words, and its letters may be of either case.
-/

namespace AboveFold.Prune
open Text Normalizer Token

/-! ## Queries -/

/-- What may stand before the type of a media query. -/
inductive Modifier where
  | plain
  | not
  | only
deriving DecidableEq, Repr

/-- A media query: a type, perhaps with features that must hold too, or features alone. A feature is what stands between
its parentheses. -/
inductive MediaQuery where
  | typed (modifier : Modifier) (type : List Char) (features : List (List Char))
  | untyped (feature : List Char) (features : List (List Char))
deriving DecidableEq, Repr

/-- A word of a query, or a feature in parentheses. -/
inductive MediaWord where
  | name (letters : List Char)
  | feature (text : List Char)

/-- Whether a media type takes in a kind of device. -/
def takesIn (type device : List Char) : Bool :=
  type.map Char.toLower = device || type.map Char.toLower = "all".toList

namespace MediaQuery

/-- Whether the query holds on a device, given which features do. -/
def holds (device : List Char) (truth : List Char → Bool) : MediaQuery → Bool
  | typed .not type features => !(takesIn type device && features.all truth)
  | typed _ type features => takesIn type device && features.all truth
  | untyped feature features => (feature :: features).all truth

/-- A type is a word, and none of those that mean something else before it. -/
def IsProper : MediaQuery → Prop
  | typed _ type _ => type ≠ [] ∧ (∀ c ∈ type, isTypeChar c = true)
      ∧ type.map Char.toLower ≠ "not".toList ∧ type.map Char.toLower ≠ "only".toList
  | untyped _ _ => True

instance : (q : MediaQuery) → Decidable q.IsProper
  | typed _ type _ => decidable_of_iff (type ≠ [] ∧ type.all isTypeChar = true
      ∧ type.map Char.toLower ≠ "not".toList ∧ type.map Char.toLower ≠ "only".toList) (by rw [List.all_eq_true]; rfl)
  | untyped _ _ => .isTrue trivial

end MediaQuery

/-- The word for a modifier, if it has one. -/
def Modifier.words : Modifier → List MediaWord
  | plain => []
  | not => [.name "not".toList]
  | only => [.name "only".toList]

/-- Features that must hold too. -/
def conditions (features : List (List Char)) : List MediaWord :=
  features.flatMap fun feature => [.name "and".toList, .feature feature]

/-- The words of a query. -/
def MediaQuery.words : MediaQuery → List MediaWord
  | typed modifier type features => modifier.words ++ .name type :: conditions features
  | untyped feature features => .feature feature :: conditions features

/-! ## Their text -/

/-- Blanks and comments, of which there may be none. -/
inductive Spacing : List Char → Prop where
  | nil : Spacing []
  | blank {c : Char} {cs : List Char} (blank : isBlank c = true) (more : Spacing cs) : Spacing (c :: cs)
  | comment {cs body between : List Char} (closes : splitAt? ['*', '/'] cs = some (body, between))
      (more : Spacing between) : Spacing ('/' :: '*' :: cs)

/-- A text of words, in letters of either case and with spacing around them. A name ends where the text goes on with
something else. -/
inductive Spelling : List MediaWord → List Char → Prop where
  | done {cs : List Char} (spacing : Spacing cs) : Spelling [] cs
  | name {lead cs letters rest : List Char} {ws : List MediaWord} (spacing : Spacing lead)
      (same : cs.map Char.toLower = letters.map Char.toLower) (ends : ∀ c ∈ rest.head?, isTypeChar c = false)
      (more : Spelling ws rest) : Spelling (.name letters :: ws) (lead ++ cs ++ rest)
  | feature {lead text rest : List Char} {ws : List MediaWord} (spacing : Spacing lead) (more : Spelling ws rest) :
      Spelling (.feature text :: ws) (lead ++ ('(' :: text ++ [')']) ++ rest)

variable {c : Char} {cs sp letters type tail : List Char} {modifier : Modifier} {ws : List MediaWord}
  {features : List (List Char)}

/-! ## Collapsing it -/

theorem isNameChar_of_isTypeChar (char : isTypeChar c = true) : isNameChar c = true := by
  simp only [isTypeChar, Char.isAlphanum, isNameChar, isNameStart, Bool.or_eq_true] at *
  grind

theorem isTypeChar_toLower (c : Char) : isTypeChar c.toLower = isTypeChar c := toLower_congr (by decide) c

theorem isWhiteSpace_of_isTypeChar (char : isTypeChar c = true) : isWhiteSpace c = false := by
  have ascii : isAscii c = true := by
    simp only [isTypeChar, Char.isAlphanum, Bool.or_eq_true, isAlpha_iff, decide_eq_true_eq] at char
    simp only [isAscii, decide_eq_true_eq]
    rcases char with ((letter | digit) | rfl) | rfl
    · omega
    · have bounds : 48 ≤ c.toNat ∧ c.toNat ≤ 57 := by simpa [Char.isDigit, UInt32.le_iff_toNat_le] using digit
      omega
    · decide
    · decide
  exact ascii_forall (p := fun c => isTypeChar c = true → isWhiteSpace c = false) (by decide) ascii char

theorem run_closes {body between : List Char} (closes : splitAt? ['*', '/'] cs = some (body, between)) (gap : Gap)
    (depth : Nat) (r : List Char) :
    run false ⟨.comment, gap, depth⟩ (cs ++ r) = run false ⟨.plain, gap, depth⟩ (between ++ r) := by
  induction cs generalizing body with
  | nil => simp [splitAt?, after?] at closes
  | cons c cs ih =>
    rw [List.cons_append, run_cons]
    rw [splitAt?] at closes
    split at closes
    next rest here =>
      obtain ⟨rfl, rfl⟩ : c = '*' ∧ cs = '/' :: rest := by simpa using after?_eq_some_iff.1 here
      obtain ⟨-, rfl⟩ := Prod.mk.inj (Option.some.inj closes)
      rfl
    next inside =>
      obtain ⟨⟨body, between⟩, later, e⟩ := Option.map_eq_some_iff.1 closes
      obtain ⟨rfl, rfl⟩ := Prod.mk.inj e
      have stays : ¬(c = '*' ∧ (cs ++ r).head? = some '/') := by
        rintro ⟨rfl, slash⟩
        cases cs with
        | nil => simp [splitAt?, after?] at later
        | cons d ds =>
          obtain rfl : d = '/' := by simpa using slash
          simp [after?] at inside
      simp only [step, Bool.and_eq_true, decide_eq_true_eq, stays, if_false, List.nil_append]
      exact ih later

/-- Spacing writes nothing and makes the gap wider. -/
theorem run_spacing (spacing : Spacing sp) (gap : Gap) (depth : Nat) (r : List Char) :
    run false ⟨.plain, gap, depth⟩ (sp ++ r) = run false ⟨.plain, if sp = [] then gap else gap.widen, depth⟩ r := by
  have absorbed (gap : Gap) (sp : List Char) : (if sp = [] then gap.widen else gap.widen.widen) = gap.widen := by
    rw [widen_widen, ite_self]
  induction spacing generalizing gap with
  | nil => rfl
  | @blank c sp blank _ ih =>
    rw [← List.singleton_append, List.append_assoc, run_blanks (by simpa using blank) (by simp), ih, absorbed]
    rfl
  | @comment cs body between closes _ ih =>
    have opens : run false ⟨.plain, gap, depth⟩ ('/' :: '*' :: cs ++ r)
        = run false ⟨.comment, gap.widen, depth⟩ (cs ++ r) := rfl
    rw [opens, run_closes closes, ih, absorbed]
    rfl

/-- A name is written as it stands, behind what is due. -/
theorem run_name (chars : ∀ c ∈ cs, isTypeChar c = true) (some : cs ≠ []) (gap : Gap) (depth : Nat) (r : List Char) :
    run false ⟨.plain, gap, depth⟩ (cs ++ r) = gap.text ++ cs ++ run false ⟨.plain, .joined, depth⟩ r := by
  induction cs generalizing gap with
  | nil => exact absurd rfl some
  | cons c cs ih =>
    rw [List.forall_mem_cons] at chars
    have name := isNameChar_of_isTypeChar chars.1
    rw [List.cons_append, run_cons, step_of_isLetter (isLetter_of_isNameChar name), depthAfter_of_isNameChar name]
    by_cases last : cs = []
    · simp [last]
    · simp [ih chars.2 last .joined, Gap.text]

theorem run_paren (gap : Gap) (depth : Nat) (r : List Char) :
    run false ⟨.plain, gap, depth⟩ ('(' :: r) = gap.text ++ '(' :: run false ⟨.plain, .joined, depth + 1⟩ r := by
  rw [run_cons, step_of_isLetter rfl, List.append_assoc]
  rfl

/-- What a text is written as behind a gap, in lower case. -/
def shown (gap : Gap) (cs : List Char) : List Char := (run false ⟨.plain, gap, 0⟩ cs).map Char.toLower

/-- What stands behind the type of a query: nothing, or a space and more if there are features. -/
def Behind (features : List (List Char)) (tail : List Char) : Prop :=
  features = [] ∧ tail = [] ∨ features ≠ [] ∧ ∃ c rest, tail = ' ' :: c :: rest ∧ isWhiteSpace c = false

/-- A name is shown in lower case, and right behind another name there is a space before it. -/
theorem Spelling.shown_name (h : Spelling (.name letters :: ws) cs) (some : letters ≠ [])
    (chars : ∀ c ∈ letters, isTypeChar c = true) :
    ∃ rest, (∀ c ∈ rest.head?, isTypeChar c = false) ∧ Spelling ws rest
      ∧ shown .closed cs = letters.map Char.toLower ++ shown .joined rest
      ∧ ((∀ c ∈ cs.head?, isTypeChar c = false) →
        shown .joined cs = ' ' :: letters.map Char.toLower ++ shown .joined rest) := by
  cases h with
  | @name lead name _ rest _ spacing same ends more =>
    have size := congrArg List.length same
    simp only [List.length_map] at size
    have written : name ≠ [] := by
      rintro rfl
      exact some (List.eq_nil_of_length_eq_zero size.symm)
    have nameChars : ∀ c ∈ name, isTypeChar c = true := by
      intro c mem
      have lowered : c.toLower ∈ letters.map Char.toLower := same ▸ List.mem_map_of_mem mem
      obtain ⟨d, there, e⟩ := List.mem_map.1 lowered
      rw [← isTypeChar_toLower, ← e, isTypeChar_toLower]
      exact chars d there
    have shows (gap : Gap) : shown gap (lead ++ name ++ rest)
        = (if lead = [] then gap else gap.widen).text.map Char.toLower ++ letters.map Char.toLower
          ++ shown .joined rest := by
      rw [shown, List.append_assoc, run_spacing spacing, run_name nameChars written, List.map_append,
        List.map_append, same]
      rfl
    refine ⟨rest, ends, more, ?_, fun apart => ?_⟩
    · rw [shows]
      cases lead <;> rfl
    · have space : lead ≠ [] := by
        rintro rfl
        obtain ⟨c, name, rfl⟩ := List.exists_cons_of_ne_nil written
        exact Bool.false_ne_true ((apart c rfl).symm.trans (nameChars c List.mem_cons_self))
      rw [shows, if_neg space]
      rfl

theorem Spelling.shown_conditions (h : Spelling (conditions features) cs)
    (apart : ∀ c ∈ cs.head?, isTypeChar c = false) : Behind features (shown .joined cs) := by
  cases features with
  | nil =>
    cases h with
    | done spacing =>
      have written := run_spacing spacing .joined 0 []
      rw [List.append_nil] at written
      rw [shown, written]
      exact .inl ⟨rfl, rfl⟩
  | cons feature features =>
    obtain ⟨rest, -, -, -, written⟩ := h.shown_name (by decide) (List.all_eq_true.1 (by decide))
    rw [written apart]
    exact .inr ⟨by simp, 'a', _, rfl, by decide⟩

/-! ## Judging it -/

section

variable (chars : ∀ c ∈ cs, isTypeChar c = true) (behind : Behind features tail)

include chars

theorem takeWhile_append (ends : ∀ c ∈ tail.head?, isTypeChar c = false) :
    (cs ++ tail).takeWhile isTypeChar = cs ∧ (cs ++ tail).dropWhile isTypeChar = tail := by
  rw [List.takeWhile_append_of_pos chars, List.dropWhile_append_of_pos chars]
  cases tail with
  | nil => simp
  | cons c tail => simp [ends c rfl]

theorem afterWord?_append {word : String} (wordChars : ∀ c ∈ word.toList, isTypeChar c = true)
    (space : ∀ c ∈ tail.head?, c = ' ') : afterWord? word (cs ++ tail)
      = if cs = word.toList then some (tail.dropWhile isWhiteSpace) else none := by
  have ends : ∀ c ∈ tail.head?, isTypeChar c = false := by
    intro c mem
    rw [space c mem]
    rfl
  have whole {rest : List Char} (found : after? word.toList (cs ++ tail) = some rest)
      (apart : ∀ c ∈ rest.head?, c = ' ') : cs = word.toList := by
    have same := congrArg (List.takeWhile isTypeChar) (after?_eq_some_iff.1 found)
    rw [(takeWhile_append chars ends).1, (takeWhile_append wordChars ?_).1] at same
    · exact same
    · intro c mem
      rw [apart c mem]
      rfl
  unfold afterWord?
  split
  next found =>
    obtain rfl := whole found (by simp)
    obtain rfl : tail = [] := List.append_cancel_left (after?_eq_some_iff.1 found)
    simp
  next rest found =>
    obtain rfl := whole found (by simp)
    obtain rfl : tail = ' ' :: rest := List.append_cancel_left (after?_eq_some_iff.1 found)
    rw [if_pos rfl, List.dropWhile_cons_of_pos (by decide)]
  next other space' =>
    rw [if_neg]
    rintro rfl
    have found : after? word.toList (word.toList ++ tail) = some tail := after?_eq_some_iff.2 rfl
    cases tail with
    | nil => exact other found
    | cons c tail =>
      obtain rfl := space c rfl
      exact space' tail found

/-- The blank behind a word goes with it. -/
theorem dropWhile_space (some : cs ≠ []) :
    (' ' :: (cs ++ tail)).dropWhile isWhiteSpace = cs ++ tail := by
  obtain ⟨c, cs, rfl⟩ := List.exists_cons_of_ne_nil some
  have solid : ¬isWhiteSpace c = true := by simp [isWhiteSpace_of_isTypeChar (chars c List.mem_cons_self)]
  rw [List.dropWhile_cons_of_pos (by decide), List.cons_append, List.dropWhile_cons_of_neg solid]

include behind

theorem holdsOnScreen_append (some : cs ≠ []) (negated : Bool) :
    holdsOnScreen negated (cs ++ tail) =
      if cs = "screen".toList ∨ cs = "all".toList then !negated || !features.isEmpty else negated := by
  have ends : ∀ c ∈ tail.head?, isTypeChar c = false := by
    rcases behind with ⟨-, rfl⟩ | ⟨-, c, rest, rfl, -⟩ <;> simp [isTypeChar]
  have more : tail.all isWhiteSpace = features.isEmpty := by
    rcases behind with ⟨rfl, rfl⟩ | ⟨more, c, rest, rfl, solid⟩
    · rfl
    · simp [solid, more]
  obtain ⟨type, rest⟩ := takeWhile_append chars ends
  unfold holdsOnScreen
  rw [type, rest, more]
  obtain ⟨c, cs, rfl⟩ := List.exists_cons_of_ne_nil some
  simp only [Bool.or_eq_true, decide_eq_true_eq]

end

theorem Behind.space (behind : Behind features tail) : ∀ c ∈ tail.head?, c = ' ' := by
  rcases behind with ⟨-, rfl⟩ | ⟨-, c, rest, rfl, -⟩ <;> simp [eq_comm]

/-- A query with a type holds for some truth of its features, unless its type rules it out. -/
theorem exists_holds_typed (modifier : Modifier) (device type : List Char) (features : List (List Char)) :
    (∃ truth, (MediaQuery.typed modifier type features).holds device truth = true)
      ↔ if takesIn type device then modifier = .not → features ≠ [] else modifier = .not := by
  cases modifier with
  | not =>
    constructor
    · rintro ⟨truth, holds⟩
      split
      next takes =>
        rintro - rfl
        simp [MediaQuery.holds, takes] at holds
      next => rfl
    · intro rest
      -- features that do not hold make the negation hold
      refine ⟨fun _ => false, ?_⟩
      cases takes : takesIn type device with
      | false => simp [MediaQuery.holds, takes]
      | true =>
        obtain ⟨feature, features, rfl⟩ := List.exists_cons_of_ne_nil (by simpa [takes] using rest)
        simp [MediaQuery.holds]
  | plain | only =>
    constructor
    · rintro ⟨truth, holds⟩
      have takes := (Bool.and_eq_true_iff.1 holds).1
      simp [takes]
    · intro rest
      refine ⟨fun _ => true, ?_⟩
      cases takes : takesIn type device with
      | false => simp [takes] at rest
      | true => simp [MediaQuery.holds, takes]

/-- What is decided of a type and what stands behind it is whether the query can hold on a screen. -/
theorem holdsOnScreen_typed (proper : (MediaQuery.typed modifier type features).IsProper)
    (behind : Behind features tail) :
    holdsOnScreen (modifier = .not) (type.map Char.toLower ++ tail) = true
      ↔ ∃ truth, (MediaQuery.typed modifier type features).holds "screen".toList truth = true := by
  obtain ⟨some, chars, -⟩ := proper
  have lowerChars : ∀ c ∈ type.map Char.toLower, isTypeChar c = true := by
    rw [List.forall_mem_map]
    exact fun c mem => (isTypeChar_toLower c).trans (chars c mem)
  have takes : (type.map Char.toLower = "screen".toList ∨ type.map Char.toLower = "all".toList)
      ↔ takesIn type "screen".toList = true := by
    rw [takesIn, Bool.or_eq_true, decide_eq_true_eq, decide_eq_true_eq]
  rw [holdsOnScreen_append lowerChars behind (by simpa using some), exists_holds_typed]
  simp only [takes]
  split
  next => cases features <;> simp
  next => exact decide_eq_true_iff

/-- **A media query is useful exactly if it holds on a screen** for some truth of its features, however it is spelled. -/
theorem isUsefulQuery_iff_holds {q : MediaQuery} {query : String} (proper : q.IsProper)
    (spelling : Spelling q.words query.toList) :
    isUsefulQuery query = true ↔ ∃ truth, q.holds "screen".toList truth = true := by
  have text : (lower (collapse query)).toList = shown .closed query.toList := by
    rw [toList_lower, collapse, String.toList_ofList]
    rfl
  unfold isUsefulQuery
  simp only [text]
  generalize query.toList = cs at spelling
  cases q with
  | untyped feature features =>
    cases spelling with
    | @feature lead _ rest _ spacing more =>
      have first : ∃ tail, shown .closed (lead ++ ('(' :: feature ++ [')']) ++ rest) = '(' :: tail := by
        refine ⟨(run false ⟨.plain, .joined, 1⟩ (feature ++ [')'] ++ rest)).map Char.toLower, ?_⟩
        rw [shown, List.append_assoc, run_spacing spacing]
        show (run false ⟨.plain, _, 0⟩ ('(' :: (feature ++ [')'] ++ rest))).map Char.toLower = _
        rw [run_paren, List.map_append]
        cases lead <;> rfl
      obtain ⟨tail, first⟩ := first
      rw [first]
      exact iff_of_true rfl ⟨fun _ => true, by simp [MediaQuery.holds]⟩
  | typed modifier type features =>
    obtain ⟨some, chars, notNot, notOnly⟩ := id proper
    have notChars : ∀ c ∈ "not".toList, isTypeChar c = true := List.all_eq_true.1 (by decide)
    have onlyChars : ∀ c ∈ "only".toList, isTypeChar c = true := List.all_eq_true.1 (by decide)
    have notLower : "not".toList.map Char.toLower = "not".toList := by decide
    have onlyLower : "only".toList.map Char.toLower = "only".toList := by decide
    have lowerChars : ∀ c ∈ type.map Char.toLower, isTypeChar c = true := by
      rw [List.forall_mem_map]
      exact fun c mem => (isTypeChar_toLower c).trans (chars c mem)
    cases modifier with
    | plain =>
      obtain ⟨rest, ends, more, first, -⟩ := spelling.shown_name some chars
      have behind := more.shown_conditions ends
      rw [first, afterWord?_append lowerChars notChars behind.space, if_neg notNot,
        afterWord?_append lowerChars onlyChars behind.space, if_neg notOnly]
      exact holdsOnScreen_typed proper behind
    | not =>
      obtain ⟨rest, ends, more, first, -⟩ := spelling.shown_name (by decide) notChars
      obtain ⟨rest', ends', more', -, second⟩ := more.shown_name some chars
      rw [first, second ends, notLower, List.cons_append, afterWord?_append notChars notChars (by simp), if_pos rfl,
        dropWhile_space lowerChars (by simpa using some)]
      exact holdsOnScreen_typed proper (more'.shown_conditions ends')
    | only =>
      obtain ⟨rest, ends, more, first, -⟩ := spelling.shown_name (by decide) onlyChars
      obtain ⟨rest', ends', more', -, second⟩ := more.shown_name some chars
      rw [first, second ends, onlyLower, List.cons_append, afterWord?_append onlyChars notChars (by simp),
        if_neg (by decide), afterWord?_append onlyChars onlyChars (by simp), if_pos rfl,
        dropWhile_space lowerChars (by simpa using some)]
      exact holdsOnScreen_typed proper (more'.shown_conditions ends')

/-- A negated query may hold on a screen if it has a feature, with comments between its words or without blanks. -/
theorem isUsefulQuery_iff_holds_negated :
    let q := MediaQuery.typed .not "Screen".toList ["color".toList]
    let query := "NOT/**/screen /*x*/ And(color)"
    q.IsProper ∧ Spelling q.words query.toList
      ∧ (isUsefulQuery query = true ↔ ∃ truth, q.holds "screen".toList truth = true) := by
  have proper : (MediaQuery.typed .not "Screen".toList ["color".toList]).IsProper := by decide
  have spelling : Spelling (MediaQuery.typed .not "Screen".toList ["color".toList]).words
      "NOT/**/screen /*x*/ And(color)".toList := by
    have last : Spelling [.feature "color".toList] "(color)".toList := .feature .nil (.done .nil)
    have joined : Spelling (conditions ["color".toList]) " /*x*/ And(color)".toList :=
      @Spelling.name " /*x*/ ".toList "And".toList _ _ _ (.blank rfl (.comment rfl (.blank rfl .nil))) rfl
        (by rintro c ⟨⟩; rfl) last
    have type : Spelling (.name "Screen".toList :: conditions ["color".toList]) "/**/screen /*x*/ And(color)".toList :=
      @Spelling.name "/**/".toList "screen".toList _ _ _ (.comment rfl .nil) rfl (by rintro c ⟨⟩; rfl) joined
    exact @Spelling.name [] "NOT".toList _ _ _ .nil rfl (by rintro c ⟨⟩; rfl) type
  exact ⟨proper, spelling, isUsefulQuery_iff_holds proper spelling⟩

end AboveFold.Prune
