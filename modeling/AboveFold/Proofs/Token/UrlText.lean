import AboveFold.Proofs.Token.Written
import AboveFold.Tree.Render

/-!
# Urls that can be written back

A url is written between parentheses, and between quotes there if it had some or needs some. Not every text
survives that. `fitsQuotes` and `fitsBare` say which texts are read to their end, in quotes and without
(`stringLength_eq_closed`, `urlLength_eq_closed`), and what is written for a url that fits reads as the tokens
of one url (`written_url`).
-/

namespace AboveFold.Token
open Text

/-- Whether a text is read to its end between two quotes: it holds the quote and ends of lines only where a
backslash escapes them, and no backslash at its end. `escaped` says that a backslash stands before the text. -/
def fitsQuotes (quote : Char) : (escaped : Bool) → List Char → Bool
  | escaped, [] => !escaped
  | true, '\r' :: '\n' :: cs => fitsQuotes quote false cs
  | true, _ :: cs => fitsQuotes quote false cs
  | false, c :: cs => c ≠ quote && !isLineEnd c && fitsQuotes quote (c = '\\') cs

/-- Whether a text without blanks, quotes and parentheses is read to its end as a url: what no backslash escapes
is printable, and no backslash stands at its end. `escaped` says that a backslash stands before the text. -/
def fitsBare : (escaped : Bool) → List Char → Bool
  | escaped, [] => !escaped
  | true, _ :: cs => fitsBare false cs
  | false, c :: cs => !isNonPrintable c && fitsBare (c = '\\') cs

section Strings

variable {quote c : Char} {xs cs r : List Char}

theorem grown_iff {ε : Type} {scan : ε × Nat} {ending : ε} {n : Nat} :
    (scan.1, scan.2 + 1) = (ending, n + 1) ↔ scan = (ending, n) :=
  ⟨eq_of_grown, fun h => by rw [h]⟩

/-- A scan that passes over a character. -/
theorem stringLength_skip (quote : Char) (skip : Nat) (c : Char) (cs : List Char) {n : Nat} :
    stringLength quote (skip + 1) (c :: cs) = (.closed, n + 1) ↔ stringLength quote skip cs = (.closed, n) :=
  grown_iff

theorem stringSkip_of_other (other : ∀ cs', c = '\r' → cs = '\n' :: cs' → False) (quoted : quote ≠ '\n') :
    stringSkip '\\' (c :: (cs ++ quote :: r)) = 1 := by
  unfold stringSkip
  rw [if_pos rfl, if_neg]
  intro pair
  cases cs with
  | nil => simp_all
  | cons d cs => exact other cs (by simp_all) (by simp_all)

/-- **A text between quotes is read to its end** exactly if it fits there. -/
theorem stringLength_eq_closed (isQuote : quote = '\x22' ∨ quote = '\x27') (r xs : List Char) :
    stringLength quote 0 (xs ++ quote :: r) = (.closed, xs.length + 1) ↔ fitsQuotes quote false xs = true := by
  have apart : quote ≠ '\n' ∧ quote ≠ '\r' ∧ quote ≠ '\\' := by
    rcases isQuote with rfl | rfl <;> decide
  -- behind a backslash the scan passes over what that escapes
  suffices all : ∀ escaped, stringLength quote (if escaped then stringSkip '\\' (xs ++ quote :: r) else 0)
      (xs ++ quote :: r) = (.closed, xs.length + 1) ↔ fitsQuotes quote escaped xs = true from all false
  intro escaped
  fun_induction fitsQuotes quote escaped xs with
  | case1 escaped =>
    cases escaped with
    | false => simp [stringLength_cons]
    | true =>
      have skip : stringSkip '\\' (quote :: r) = 1 := by simp [stringSkip, apart]
      rw [if_pos rfl, List.nil_append, skip, List.length_nil, stringLength_skip]
      refine iff_of_false (fun closed => ?_) (by simp)
      have := stringLength_closed (congrArg Prod.fst closed)
      rw [closed] at this
      exact absurd this (Nat.lt_irrefl 0)
  | case2 cs ih =>
    have skip : stringSkip '\\' ('\r' :: '\n' :: cs ++ quote :: r) = 2 := rfl
    rw [if_pos rfl, skip, ← ih]
    exact (stringLength_skip quote 1 '\r' _).trans (stringLength_skip quote 0 '\n' _)
  | case3 c cs other ih =>
    rw [if_pos rfl, List.cons_append, stringSkip_of_other other apart.1, ← ih]
    exact stringLength_skip quote 0 c _
  | case4 c cs ih =>
    simp only [Bool.false_eq_true, if_false, List.cons_append, stringLength_cons]
    by_cases closes : c = quote
    · simp [closes]
    by_cases ends : isLineEnd c = true
    · simp [closes, ends]
    · rw [if_neg closes, if_neg ends, List.length_cons, grown_iff]
      simpa [closes, ends, stringSkip] using ih

end Strings

section Bare

variable {c : Char} {xs cs r : List Char}

/-- A character that needs no quotes around it. -/
def isPlain (c : Char) : Bool :=
  c ≠ ')' && !isBlank c && !(['\x22', '\x27', '('].contains c)

theorem isUrlChar_eq (c : Char) (cs : List Char) :
    isUrlChar c cs = (isPlain c && !isNonPrintable c && (c ≠ '\\' || canEscape cs)) := rfl

theorem isHexDigit_bounds (h : isHexDigit c = true) :
    48 ≤ c.toNat ∧ c.toNat ≤ 70 ∨ 97 ≤ c.toNat ∧ c.toNat ≤ 102 := by
  simp only [isHexDigit, Char.isDigit, Bool.or_eq_true, Bool.and_eq_true, decide_eq_true_eq, Char.le_def,
    UInt32.le_iff_toNat_le, ge_iff_le] at h
  change (48 ≤ c.toNat ∧ c.toNat ≤ 57 ∨ 97 ≤ c.toNat ∧ c.toNat ≤ 102) ∨ 65 ≤ c.toNat ∧ c.toNat ≤ 70 at h
  omega

/-- Digits in a url are nothing special. -/
theorem urlLength_of_isHexDigit (h : isHexDigit c = true) (cs : List Char) :
    urlLength 0 (c :: cs) = ((urlLength 0 cs).1, (urlLength 0 cs).2 + 1) := by
  have bounds := isHexDigit_bounds h
  have other (d : Char) (out : d.toNat < 48 ∨ 70 < d.toNat ∧ d.toNat < 97) : c ≠ d := by
    rintro rfl
    omega
  have solid : isBlank c = false := by simp [isBlank, other]
  have printable : isNonPrintable c = false := by
    simp only [isNonPrintable, Bool.or_eq_false_iff, Bool.and_eq_false_iff, decide_eq_false_iff_not]
    omega
  rw [urlLength_cons]
  simp [other, solid, printable, urlSkip]

/-- The digits of an escape can as well be read one by one. -/
theorem urlLength_of_digits (digits : ∀ c ∈ xs, isHexDigit c = true) (r : List Char) :
    urlLength xs.length (xs ++ r) = urlLength 0 (xs ++ r) := by
  induction xs with
  | nil => rfl
  | cons c xs ih =>
    rw [List.forall_mem_cons] at digits
    rw [List.cons_append, urlLength_of_isHexDigit digits.1, ← ih digits.2]
    rfl

theorem isHexDigit_of_mem_take (cs : List Char) : ∀ c ∈ cs.take (hexLength cs), isHexDigit c = true := by
  have front : (cs.take 6).takeWhile isHexDigit = cs.take (hexLength cs) :=
    List.prefix_iff_eq_take.1 ((List.takeWhile_prefix _).trans (List.take_prefix 6 cs))
  rw [← front]
  exact List.all_eq_true.1 List.all_takeWhile

theorem escapeEnd_eq_zero (solid : ∀ c ∈ cs, isBlank c = false) : escapeEnd cs = 0 := by
  cases cs with
  | nil => rfl
  | cons c cs =>
    have head := solid c List.mem_cons_self
    have other : c ≠ '\r' := by
      rintro rfl
      cases head
    rw [escapeEnd_cons]
    simp [other, head]

/-- What a backslash escapes in a text without blanks is its first character; what follows can be read as if
nothing were escaped. -/
theorem urlLength_of_escape (solid : ∀ d ∈ c :: cs, isBlank d = false) (r : List Char) :
    urlLength (escapeLength (c :: cs ++ ')' :: r)) (c :: cs ++ ')' :: r)
      = ((urlLength 0 (cs ++ ')' :: r)).1, (urlLength 0 (cs ++ ')' :: r)).2 + 1) := by
  obtain ⟨k, extent, inside, digits⟩ : ∃ k, escapeLength (c :: cs) = k + 1 ∧ k ≤ cs.length
      ∧ ∀ d ∈ cs.take k, isHexDigit d = true := by
    have unended := escapeEnd_eq_zero fun d mem => solid d (List.mem_of_mem_drop (i := hexLength (c :: cs)) mem)
    cases size : hexLength (c :: cs) with
    | zero => exact ⟨0, by rw [escapeLength_eq, if_pos size], Nat.zero_le _, by simp⟩
    | succ k =>
      have inside := hexLength_le (c :: cs)
      have digits := isHexDigit_of_mem_take (c :: cs)
      rw [size] at unended inside digits
      refine ⟨k, ?_, Nat.le_of_succ_le_succ inside, fun d mem => digits d (List.mem_cons_of_mem c mem)⟩
      rw [escapeLength_eq, size, unended]
      rfl
  have whole : escapeLength (c :: cs ++ ')' :: r) = k + 1 := by
    rw [escapeLength_append_of_stop rfl fun blank => absurd blank (by simp [isBlank]), extent]
  have later := urlLength_of_digits digits (cs.drop k ++ ')' :: r)
  rw [List.length_take_of_le inside, ← List.append_assoc, List.take_append_drop] at later
  rw [whole, ← later]
  rfl

/-- **A text without quotes is read to its end** as a url exactly if it fits there. -/
theorem urlLength_eq_closed (plain : ∀ c ∈ xs, isPlain c = true) (r : List Char) :
    urlLength 0 (xs ++ ')' :: r) = (.closed, xs.length) ↔ fitsBare false xs = true := by
  suffices all : ∀ escaped, urlLength (if escaped then escapeLength (xs ++ ')' :: r) else 0) (xs ++ ')' :: r)
      = (.closed, xs.length) ↔ fitsBare escaped xs = true from all false
  intro escaped
  fun_induction fitsBare escaped xs with
  | case1 escaped =>
    cases escaped with
    | false => simp [urlLength_cons]
    | true =>
      have one : escapeLength (')' :: r) = 1 := rfl
      rw [if_pos rfl, List.nil_append, one]
      exact iff_of_false (fun closed => absurd (congrArg Prod.snd closed) (Nat.succ_ne_zero _)) (by simp)
  | case2 c cs ih =>
    have solid : ∀ d ∈ c :: cs, isBlank d = false := by
      intro d mem
      have := plain d mem
      simp_all [isPlain]
    rw [if_pos rfl, urlLength_of_escape solid, List.length_cons, grown_iff]
    exact ih (List.forall_mem_cons.1 plain).2
  | case3 c cs ih =>
    rw [List.forall_mem_cons] at plain
    -- what stands behind a backslash does not end a line
    have escapes : canEscape (cs ++ ')' :: r) = true := by
      cases cs with
      | nil => rfl
      | cons d cs =>
        have solid : isBlank d = false := by simp_all [isPlain]
        have goesOn : isLineEnd d = false :=
          Bool.eq_false_iff.2 fun ends => by simp [isBlank_of_isLineEnd ends] at solid
        simp [canEscape, goesOn]
    have here : isUrlChar c (cs ++ ')' :: r) = !isNonPrintable c := by simp [isUrlChar_eq, plain.1, escapes]
    have inner := ih plain.2
    rw [List.cons_append, List.length_cons, if_neg Bool.false_ne_true, urlLength_cons_eq_closed, here,
      Bool.and_eq_true]
    refine and_congr_right fun _ => ?_
    simpa [urlSkip] using inner

end Bare

/-! ## Tokens -/

/-- How a url is written between its parentheses: its text, and the quote at both ends if there is one. -/
def spelling (url : String) (quote : Option Char) : String × Option Char :=
  match quote with
  | some q => (url, some q)
  | none => if needsQuotes url then (escapeQuotes url, some '\x22') else (url, none)

/-- Whether a url that is written with these quotes, or none, is read to its end. -/
def fitsUrl (url : String) (quote : Option Char) : Bool :=
  match spelling url quote with
  | (text, some q) => fitsQuotes q false text.toList
  | (text, none) => fitsBare false text.toList

section Harmless

variable {quote c : Char} {xs : List Char} {url : String}

theorem fitsQuotes_cons (other : c ≠ quote) (inside : isLineEnd c = false) (plain : c ≠ '\\') :
    fitsQuotes quote false (c :: xs) = fitsQuotes quote false xs := by
  simp [fitsQuotes, other, inside, plain]

theorem fitsQuotes_of_harmless (harmless : ∀ c ∈ xs, c ≠ '\\' ∧ isLineEnd c = false) :
    fitsQuotes quote false xs = true ↔ quote ∉ xs := by
  induction xs with
  | nil => simp [fitsQuotes]
  | cons c xs ih =>
    rw [List.forall_mem_cons] at harmless
    obtain ⟨⟨plain, inside⟩, later⟩ := harmless
    by_cases closes : c = quote
    · simp [fitsQuotes, closes]
    · rw [fitsQuotes_cons closes inside plain, ih later, List.mem_cons, not_or]
      exact ⟨fun unquoted => ⟨fun same => closes same.symm, unquoted⟩, And.right⟩

/-- Double quotes that were escaped do no harm between double quotes. -/
theorem fitsQuotes_escapeQuotes (harmless : ∀ c ∈ url.toList, c ≠ '\\' ∧ isLineEnd c = false) :
    fitsQuotes '\x22' false (escapeQuotes url).toList = true := by
  unfold escapeQuotes
  rw [String.toList_ofList]
  generalize url.toList = xs at harmless ⊢
  induction xs with
  | nil => rfl
  | cons c xs ih =>
    rw [List.forall_mem_cons] at harmless
    obtain ⟨⟨plain, inside⟩, later⟩ := harmless
    rw [List.flatMap_cons]
    by_cases mark : c = '\x22'
    · simpa [mark, fitsQuotes, isLineEnd] using ih later
    · rw [if_neg mark, List.singleton_append, fitsQuotes_cons mark inside plain, ih later]

theorem fitsBare_of_harmless (harmless : ∀ c ∈ xs, c ≠ '\\' ∧ isNonPrintable c = false) : fitsBare false xs = true := by
  induction xs with
  | nil => rfl
  | cons c xs ih =>
    rw [List.forall_mem_cons] at harmless
    obtain ⟨⟨plain, printable⟩, later⟩ := harmless
    simpa [fitsBare, plain, printable] using ih later

/-- **A url without backslashes, ends of lines and control characters fits**, unless it holds the quote that it was
written with. -/
theorem fitsUrl_of_harmless {quote : Option Char}
    (harmless : ∀ c ∈ url.toList, c ≠ '\\' ∧ isLineEnd c = false ∧ isNonPrintable c = false) :
    fitsUrl url quote = true ↔ ∀ q ∈ quote, q ∉ url.toList := by
  have calm : ∀ c ∈ url.toList, c ≠ '\\' ∧ isLineEnd c = false :=
    fun c mem => ⟨(harmless c mem).1, (harmless c mem).2.1⟩
  unfold fitsUrl spelling
  cases quote with
  | some q => simpa using fitsQuotes_of_harmless calm
  | none =>
    simp only [Option.mem_def, reduceCtorEq, false_implies, implies_true, iff_true]
    cases needsQuotes url with
    | true => exact fitsQuotes_escapeQuotes calm
    | false => exact fitsBare_of_harmless fun c mem => ⟨(harmless c mem).1, (harmless c mem).2.2⟩

example : fitsUrl "a \"b\".png" none = true := by decide +kernel
example : fitsUrl "a\\" none = false := by decide +kernel

end Harmless

/-- The tokens that a url is written in. -/
def urlWords (url : String) (quote : Option Char) : List Written :=
  match spelling url quote with
  | (text, some q) =>
    [⟨.function "url", "url(".toList⟩,
      ⟨.quotedString (String.ofList (q :: (text.toList ++ [q]))), q :: (text.toList ++ [q])⟩, ⟨.parenClose, [')']⟩]
  | (text, none) => [⟨.url text, "url(".toList ++ (text.toList ++ [')'])⟩]

section Tokens

variable {url : String} {quote : Char} {xs r : List Char}

theorem lexeme_quote (isQuote : quote = '\x22' ∨ quote = '\x27') (cs : List Char) :
    lexeme quote cs = stringLexeme quote cs := by
  rcases isQuote with rfl | rfl <;> rfl

theorem eq_length_of_take {n : Nat} {xs behind : List Char} (inside : n ≤ (xs ++ behind).length)
    (same : (xs ++ behind).take n = xs) : n = xs.length := by
  have := congrArg List.length same
  rwa [List.length_take_of_le inside] at this

/-- A string that fits between its quotes is one token. -/
theorem lexeme_quoted (isQuote : quote = '\x22' ∨ quote = '\x27') (fits : fitsQuotes quote false xs = true)
    (r : List Char) : lexeme quote (xs ++ [quote] ++ r)
      = (.quotedString (String.ofList (quote :: (xs ++ [quote]))), (xs ++ [quote]).length + 1) := by
  have closed := (stringLength_eq_closed isQuote r xs).2 fits
  rw [← List.singleton_append, ← List.append_assoc] at closed
  have taken : (xs ++ [quote] ++ r).take (xs.length + 1) = xs ++ [quote] := List.take_left' (by simp)
  rw [lexeme_quote isQuote, stringLexeme, closed]
  simp only [taken, List.length_append, List.length_singleton]

theorem fitsQuotes_of_lexeme (isQuote : quote = '\x22' ∨ quote = '\x27')
    (whole : (lexeme quote (xs ++ [quote] ++ r)).1 = .quotedString (String.ofList (quote :: (xs ++ [quote])))) :
    fitsQuotes quote false xs = true := by
  have inside := stringLength_le quote 0 (xs ++ [quote] ++ r)
  rw [lexeme_quote isQuote, stringLexeme] at whole
  split at whole
  next n closed =>
    rw [closed] at inside
    have taken : (xs ++ [quote] ++ r).take n = xs ++ [quote] :=
      (List.cons.inj (String.ofList_inj.1 (Kind.quotedString.inj whole))).2
    have extent : n = (xs ++ [quote]).length := eq_length_of_take inside taken
    refine (stringLength_eq_closed isQuote r xs).1 ?_
    rw [← List.singleton_append, ← List.append_assoc, closed, extent, List.length_append, List.length_singleton]
  next => cases whole
  next => cases whole

theorem startsQuoted_of_isPlain (plain : ∀ c ∈ xs, isPlain c = true) (r : List Char) :
    startsQuoted (xs ++ ')' :: r) = false := by
  cases xs with
  | nil => rfl
  | cons c xs =>
    have here := plain c List.mem_cons_self
    have solid : isBlank c = false := by simp_all [isPlain]
    simp_all [isPlain, startsQuoted]

theorem lexeme_url (bare : startsQuoted xs = false) :
    lexeme 'u' (['r', 'l', '('] ++ xs) = ((urlLexeme xs).1, (urlLexeme xs).2 + 4) := by
  have named : identLexeme (['u', 'r', 'l'] ++ '(' :: xs) = ((urlLexeme xs).1, (urlLexeme xs).2 + 4) := by
    rw [identLexeme_of_paren rfl, bare, if_pos (by decide)]
    exact Prod.ext rfl (Nat.add_comm 4 _)
  rw [lexeme_of_not_isMark rfl rfl, if_neg (by decide), if_pos (by decide)]
  exact named

/-- A url that fits without quotes is one token. -/
theorem lexeme_bare (plain : ∀ c ∈ xs, isPlain c = true) (fits : fitsBare false xs = true) (r : List Char) :
    lexeme 'u' (['r', 'l', '('] ++ (xs ++ [')']) ++ r)
      = (.url (String.ofList xs), (['r', 'l', '('] ++ (xs ++ [')'])).length + 1) := by
  have url : UrlAt [] xs [] r :=
    ⟨by simp, by simp, fun _ => rfl, by simpa using (urlLength_eq_closed plain r).2 fits⟩
  have reads : urlLexeme (xs ++ ')' :: r) = (.url (String.ofList xs), xs.length + 1) := by
    simpa using url.lexeme
  have named := lexeme_url (startsQuoted_of_isPlain plain r)
  rw [reads] at named
  simpa using named

theorem fitsBare_of_lexeme (plain : ∀ c ∈ xs, isPlain c = true)
    (whole : (lexeme 'u' (['r', 'l', '('] ++ (xs ++ [')']) ++ r)).1 = .url (String.ofList xs)) :
    fitsBare false xs = true := by
  have shape : ['r', 'l', '('] ++ (xs ++ [')']) ++ r = ['r', 'l', '('] ++ (xs ++ ')' :: r) := by simp
  have unled : (xs ++ ')' :: r).takeWhile isBlank = [] := by
    cases xs with
    | nil => rfl
    | cons c xs =>
      have solid : isBlank c = false := by simp_all [isPlain]
      simp [solid]
  have inside := urlLength_le 0 (xs ++ ')' :: r)
  rw [shape, lexeme_url (startsQuoted_of_isPlain plain r), urlLexeme, unled] at whole
  simp only [List.length_nil, List.drop_zero] at whole
  refine (urlLength_eq_closed plain r).1 ?_
  generalize urlLength 0 (xs ++ ')' :: r) = e at whole inside ⊢
  obtain ⟨ending, n⟩ := e
  cases ending with
  | closed =>
    have taken : (xs ++ ')' :: r).take n = xs := String.ofList_inj.1 (Kind.url.inj whole)
    have extent : n = xs.length := eq_length_of_take inside taken
    rw [extent]
  | inputEnd => cases whole
  | bad => cases whole

/-- Before a quote the name of a url is that of a function. -/
theorem lexeme_quotedUrl (isQuote : quote = '\x22' ∨ quote = '\x27') (r : List Char) :
    lexeme 'u' (['r', 'l', '('] ++ quote :: r) = (.function "url", ['r', 'l', '('].length + 1) := by
  have quoted : startsQuoted (quote :: r) = true := by
    rcases isQuote with rfl | rfl <;> rfl
  have named : identLexeme (['u', 'r', 'l'] ++ '(' :: quote :: r) = (.function "url", 4) := by
    rw [identLexeme_of_paren rfl, quoted]
    rfl
  rw [lexeme_of_not_isMark rfl rfl, if_neg (by decide), if_pos (by decide)]
  exact named

theorem isPlain_of_needsQuotes (bare : needsQuotes url = false) : ∀ c ∈ url.toList, isPlain c = true := by
  intro c mem
  have other := List.any_eq_false.1 bare c mem
  have solid : isBlank c = false := Bool.eq_false_iff.2 fun blank => other (by simp [isBlank_isWhiteSpace blank])
  simp_all [isPlain]

/-- The text of a url between its parentheses. -/
theorem toList_urlText (url : String) (quote : Option Char) :
    (urlText url quote).toList = match spelling url quote with
      | (text, some q) => q :: (text.toList ++ [q])
      | (text, none) => text.toList := by
  cases quote with
  | some q => simp [urlText, spelling]
  | none => cases needs : needsQuotes url <;> simp [urlText, spelling, needs]

theorem isPlain_of_spelling {quote : Option Char} {text : String} (bare : spelling url quote = (text, none)) :
    ∀ c ∈ text.toList, isPlain c = true := by
  cases quote with
  | some q => cases bare
  | none =>
    cases needs : needsQuotes url with
    | true => simp [spelling, needs] at bare
    | false =>
      obtain rfl : url = text := by simpa [spelling, needs] using bare
      exact isPlain_of_needsQuotes needs

theorem isQuote_of_spelling {quote : Option Char} {text : String} {q : Char}
    (isQuote : ∀ q ∈ quote, q = '\x22' ∨ q = '\x27') (quoted : spelling url quote = (text, some q)) :
    q = '\x22' ∨ q = '\x27' := by
  cases quote with
  | some q' =>
    obtain ⟨-, rfl⟩ : url = text ∧ q' = q := by simpa [spelling] using quoted
    exact isQuote q' rfl
  | none =>
    cases needs : needsQuotes url with
    | true =>
      obtain ⟨-, rfl⟩ : escapeQuotes url = text ∧ '\x22' = q := by simpa [spelling, needs] using quoted
      exact .inl rfl
    | false => simp [spelling, needs] at quoted

/-- **What is written for a url reads as the tokens of one url** exactly if the url fits, whatever follows. -/
theorem written_url {quote : Option Char} (isQuote : ∀ q ∈ quote, q = '\x22' ∨ q = '\x27') (r : List Char) :
    written (("url(" ++ urlText url quote ++ ")").toList ++ r) = urlWords url quote ++ written r
      ↔ fitsUrl url quote = true := by
  have shape : ("url(" ++ urlText url quote ++ ")").toList ++ r
      = 'u' :: (['r', 'l', '('] ++ ((urlText url quote).toList ++ ')' :: r)) := by simp
  rw [shape, toList_urlText]
  unfold fitsUrl urlWords
  rcases spelled : spelling url quote with ⟨text, _ | q⟩
  case none =>
    have plain := isPlain_of_spelling spelled
    have whole : ['r', 'l', '('] ++ (text.toList ++ ')' :: r) = ['r', 'l', '('] ++ (text.toList ++ [')']) ++ r := by
      simp
    dsimp only
    rw [whole]
    constructor
    · intro reads
      rw [written] at reads
      have kind := congrArg Written.kind (List.cons.inj reads).1
      exact fitsBare_of_lexeme plain (by simpa using kind)
    · intro fits
      have reads := written_of_lexeme (lexeme_bare plain fits r)
      simpa using reads
  case some =>
    have mark := isQuote_of_spelling isQuote spelled
    have opening := written_of_lexeme (lexeme_quotedUrl mark (text.toList ++ [q] ++ ')' :: r))
    have paren : written (')' :: r) = ⟨.parenClose, [')']⟩ :: written r :=
      @written_of_lexeme ')' [] r .parenClose rfl
    change written ('u' :: (['r', 'l', '('] ++ q :: (text.toList ++ [q] ++ ')' :: r))) = _ ↔ _
    rw [opening]
    constructor
    · intro reads
      have string := (List.cons.inj reads).2
      rw [written] at string
      have kind := congrArg Written.kind (List.cons.inj string).1
      exact fitsQuotes_of_lexeme mark kind
    · intro fits
      rw [written_of_lexeme (lexeme_quoted mark fits (')' :: r)), paren]
      rfl

end Tokens

end AboveFold.Token
