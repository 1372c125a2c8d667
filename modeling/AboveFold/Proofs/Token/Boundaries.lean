import AboveFold.Proofs.Text.NormalForm
import AboveFold.Proofs.Token.Begins

/-!
# Where tokens end for collapsed text

The machine that collapses a text is a second reader beside the lexer, with its own idea of where strings, escapes
and comments end. Both draw the same boundaries: when the machine has gone over a token, it goes on behind it as in
plain text (`lands_lexeme`). The one exception is a url without quotes in which the machine sees a comment.

The scans of the lexer carry the number of characters that an escape still takes. Each mode of the machine answers to
such a number (`Scans`, `Quotes`), and with that every scan is followed character by character.
-/

namespace AboveFold.Token
open Text Normalizer

/-! ## Going over a text -/

/-- Over `xs` the machine writes `out` and comes to the state `s'`, whatever stands behind. -/
inductive Crosses : (s : Normalizer) → (xs out : List Char) → (s' : Normalizer) → Prop where
  | nil {s : Normalizer} : Crosses s [] [] s
  | cons {s s' s'' : Normalizer} {c : Char} {xs out outs : List Char}
      (reads : ∀ r, s.step false c (xs ++ r).head? = (out, s')) (rest : Crosses s' xs outs s'') :
      Crosses s (c :: xs) (out ++ outs) s''

section

variable {s s' s'' : Normalizer} {c : Char} {xs ys r out outs : List Char} {mode mode' : Mode} {gap : Gap}
  {depth skip : Nat} {next : Option Char}

theorem Crosses.of_step (reads : ∀ next, s.step false c next = (out, s')) : Crosses s [c] out s' := by
  have one : Crosses s [c] (out ++ []) s' := .cons (fun _ => reads _) .nil
  rwa [List.append_nil] at one

theorem Crosses.append (h : Crosses s xs out s') (h' : Crosses s' ys outs s'') :
    Crosses s (xs ++ ys) (out ++ outs) s'' := by
  induction h with
  | nil => exact h'
  | @cons s s₁ s' c xs out₁ out reads rest ih =>
    rw [List.append_assoc]
    refine .cons (fun r => ?_) (ih h')
    show s.step false c (xs ++ ys ++ r).head? = _
    rw [List.append_assoc]
    exact reads (ys ++ r)

theorem Crosses.run_append (h : Crosses s xs out s') (r : List Char) :
    s.run false (xs ++ r) = out ++ s'.run false r := by
  induction h with
  | nil => rfl
  | cons reads rest ih => rw [List.cons_append, run_cons, reads r, ih, List.append_assoc]

/-- What the machine writes, and where it comes to, is settled by what it goes over. -/
theorem Crosses.unique (h : Crosses s xs out s') (h' : Crosses s xs outs s'') : out = outs ∧ s' = s'' := by
  induction h generalizing outs with
  | nil =>
    cases h'
    exact ⟨rfl, rfl⟩
  | cons reads rest ih =>
    cases h' with
    | cons reads' rest' =>
      obtain ⟨rfl, rfl⟩ := Prod.mk.inj ((reads []).symm.trans (reads' []))
      obtain ⟨rfl, rfl⟩ := ih rest'
      exact ⟨rfl, rfl⟩

/-- A text that is written as it stands comes out as it is, and no space is due behind it. -/
theorem Crosses.settled (h : Crosses s xs out s') (settled : Settled false s xs) :
    out = s.gap.text ++ xs ∧ s'.gap.text = [] := by
  induction h with
  | @nil s =>
    have none : s.gap.text = [] := settled
    exact ⟨by rw [none]; rfl, none⟩
  | @cons s s₁ s' c xs out outs reads rest ih =>
    obtain ⟨keeps, later⟩ := settled
    have here := reads []
    rw [List.append_nil] at here
    rw [Keeps, here] at keeps
    rw [here] at later
    obtain ⟨rfl, none⟩ := ih later
    refine ⟨?_, none⟩
    rw [← List.append_assoc, keeps, List.append_assoc]
    rfl

/-- Where the machine meets no comment, it meets none in what is left. -/
theorem Crosses.meetsComment (h : Crosses s xs out s') (none : s.meetsComment false (xs ++ ys) = false) :
    s'.meetsComment false ys = false := by
  induction h with
  | nil => exact none
  | cons reads rest ih =>
    apply ih
    rw [List.cons_append, Normalizer.meetsComment, Bool.or_eq_false_iff, reads ys] at none
    exact none.2

/-- Once something was written, a space may be due. -/
theorem gap_step (more : s.gap ≠ .closed) (c : Char) (next : Option Char) :
    (s.step false c next).2.gap ≠ .closed := by
  obtain ⟨mode, gap, depth⟩ := s
  have widened : gap.widen ≠ .closed := by
    cases gap with
    | closed => exact absurd rfl more
    | _ => simp [Gap.widen]
  have plainly (mode : Mode) : (stepPlain false ⟨mode, gap, depth⟩ c next).2.gap ≠ .closed := by
    rw [stepPlain_eq]
    split
    next => exact widened
    split
    next => exact widened
    next => simp [isCombinator, put]
  cases mode with
  | plain => exact plainly .plain
  | hex more' =>
    simp only [step]
    split
    next => exact more
    split
    next => exact more
    next => exact plainly (.hex more')
  | _ => exact more

theorem Crosses.gap_ne (h : Crosses s xs out s') (more : s.gap ≠ .closed) : s'.gap ≠ .closed := by
  induction h with
  | nil => exact more
  | @cons s s₁ s' c xs out outs reads rest ih =>
    apply ih
    have later := gap_step more c (xs ++ []).head?
    rwa [reads []] at later

/-- The number of open brackets does not matter where there are no combinators. -/
theorem exists_step (mode : Mode) (gap : Gap) (c : Char) (next : Option Char) :
    ∃ out mode' gap', ∀ depth, ∃ depth', step false ⟨mode, gap, depth⟩ c next = (out, ⟨mode', gap', depth'⟩) := by
  have plainly (mode : Mode) : ∃ out mode' gap', ∀ depth, ∃ depth',
      stepPlain false ⟨mode, gap, depth⟩ c next = (out, ⟨mode', gap', depth'⟩) := by
    by_cases comment : (c = '/' && next = some '*') = true
    · exact ⟨[], .commentStar, gap.widen, fun depth => ⟨depth, by simp [stepPlain_eq, comment]⟩⟩
    · cases blank : isBlank c with
      | true => exact ⟨[], .plain, gap.widen, fun depth => ⟨depth, by simp [stepPlain_eq, comment, blank]⟩⟩
      | false =>
        refine ⟨gap.text ++ [c], modeAfter c, .joined, fun depth => ⟨depthAfter depth c, ?_⟩⟩
        simp [stepPlain_eq, comment, blank, isCombinator, put]
  cases mode with
  | plain => exact plainly .plain
  | hex more =>
    simp only [step]
    split
    next => exact ⟨_, _, _, fun depth => ⟨depth, rfl⟩⟩
    split
    next => exact ⟨_, _, _, fun depth => ⟨depth, rfl⟩⟩
    next => exact plainly (.hex more)
  | _ => exact ⟨_, _, _, fun depth => ⟨depth, rfl⟩⟩

theorem settled_depth (settled : Settled false ⟨mode, gap, depth⟩ xs) (depth' : Nat) :
    Settled false ⟨mode, gap, depth'⟩ xs := by
  induction xs generalizing mode gap depth depth' with
  | nil => exact settled
  | cons c xs ih =>
    obtain ⟨out, mode₁, gap₁, reads⟩ := exists_step mode gap c xs.head?
    obtain ⟨d, here⟩ := reads depth
    obtain ⟨d', there⟩ := reads depth'
    rw [Settled, Keeps, here] at settled
    rw [Settled, Keeps, there]
    exact ⟨settled.1, ih settled.2 d'⟩

/-- In which mode the machine goes on depends on neither the space that is due nor the brackets that are open. -/
theorem step_mode (mode : Mode) (gap gap' : Gap) (depth depth' : Nat) (c : Char) (next : Option Char) :
    (step false ⟨mode, gap, depth⟩ c next).2.mode = (step false ⟨mode, gap', depth'⟩ c next).2.mode := by
  have plainly (mode : Mode) : (stepPlain false ⟨mode, gap, depth⟩ c next).2.mode
      = (stepPlain false ⟨mode, gap', depth'⟩ c next).2.mode := by
    rw [stepPlain_eq, stepPlain_eq]
    by_cases comment : (c = '/' && next = some '*') = true
    · rw [if_pos comment, if_pos comment]
    · rw [if_neg comment, if_neg comment]
      cases isBlank c <;> rfl
  cases mode with
  | plain => exact plainly .plain
  | hex more =>
    simp only [step]
    split
    next => rfl
    split
    next => rfl
    next => exact plainly (.hex more)
  | _ => rfl

theorem meetsComment_congr (mode : Mode) (gap gap' : Gap) (depth depth' : Nat) (xs : List Char) :
    meetsComment false ⟨mode, gap, depth⟩ xs = meetsComment false ⟨mode, gap', depth'⟩ xs := by
  induction xs generalizing mode gap gap' depth depth' with
  | nil => rfl
  | cons c xs ih =>
    have same := step_mode mode gap gap' depth depth' c xs.head?
    rw [meetsComment, meetsComment, same]
    congr 1
    generalize step false ⟨mode, gap, depth⟩ c xs.head? = p at same ⊢
    generalize step false ⟨mode, gap', depth'⟩ c xs.head? = q at same ⊢
    obtain ⟨_, m, g, d⟩ := p
    obtain ⟨_, m', g', d'⟩ := q
    obtain rfl : m = m' := same
    exact ih m g g' d d'

/-! ## Names -/

/-- The number of hexadecimal digits at the front, up to `more`. -/
def hexDigits (more : Nat) (cs : List Char) : Nat := ((cs.take more).takeWhile isHexDigit).length

theorem hexDigits_cons (more : Nat) (c : Char) (cs : List Char) :
    hexDigits more (c :: cs) = if isHexDigit c && more ≠ 0 then hexDigits (more - 1) cs + 1 else 0 := by
  unfold hexDigits
  cases more with
  | zero => simp
  | succ more => cases digit : isHexDigit c <;> simp [digit]

/-- The machine is where a scan of names is that still has `skip` characters of an escape to pass. A line feed that
ends an escape behind a carriage return is a blank like others to the machine. -/
inductive Scans : Mode → (skip : Nat) → List Char → Prop where
  | plain {cs : List Char} : Scans .plain 0 cs
  | escape {cs : List Char} : Scans .escape (escapeLength cs) cs
  | hex {more : Nat} {cs : List Char} :
      Scans (.hex more) (hexDigits more cs + escapeEnd (cs.drop (hexDigits more cs))) cs
  | feed {cs : List Char} : Scans .plain 1 ('\n' :: cs)

/-- Inside of an escape the machine stays with the scan. -/
theorem Scans.step {cs : List Char} (h : Scans mode (skip + 1) (c :: cs)) (gap : Gap) (depth : Nat) :
    ∃ out mode' gap', (∀ next, Normalizer.step false ⟨mode, gap, depth⟩ c next = (out, ⟨mode', gap', depth⟩))
      ∧ Scans mode' skip cs := by
  generalize size : skip + 1 = n at h
  generalize text : c :: cs = whole at h
  cases h with
  | plain => cases size
  | feed =>
    obtain ⟨rfl, rfl⟩ := List.cons.inj text
    obtain rfl : skip = 0 := Nat.succ.inj size
    exact ⟨[], .plain, gap.widen, fun _ => rfl, .plain⟩
  | escape =>
    subst text
    refine ⟨[c], if isHexDigit c then .hex 5 else .plain, gap, fun _ => rfl, ?_⟩
    have digits : hexLength (c :: cs) = if isHexDigit c then hexDigits 5 cs + 1 else 0 := by
      show hexDigits 6 (c :: cs) = _
      simpa using hexDigits_cons 6 c cs
    rw [escapeLength_eq, digits] at size
    cases digit : isHexDigit c with
    | true =>
      have same : skip = hexDigits 5 cs + escapeEnd (cs.drop (hexDigits 5 cs)) := by
        simp [digit] at size
        omega
      rw [same]
      exact .hex
    | false =>
      obtain rfl : skip = 0 := by simpa [digit] using size
      exact .plain
  | @hex more =>
    subst text
    rw [hexDigits_cons] at size
    by_cases digit : (isHexDigit c && more ≠ 0) = true
    · refine ⟨[c], .hex (more - 1), gap, fun _ => by simp only [Normalizer.step, digit, if_true], ?_⟩
      have same : skip = hexDigits (more - 1) cs + escapeEnd (cs.drop (hexDigits (more - 1) cs)) := by
        rw [if_pos digit] at size
        simp at size
        omega
      rw [same]
      exact .hex
    · -- the blank that ends the escape, which is written as a space
      rw [if_neg digit, Nat.zero_add, List.drop_zero, escapeEnd_cons] at size
      have blank : isBlank c = true := by
        refine Bool.not_eq_false _ ▸ fun solid => ?_
        have other : c ≠ '\r' := by rintro rfl; cases solid
        simp [other, solid] at size
      have reads (next : Option Char) :
          Normalizer.step false ⟨.hex more, gap, depth⟩ c next = ([' '], ⟨.plain, gap, depth⟩) := by
        simp only [Normalizer.step]
        rw [if_neg digit, if_pos blank]
      refine ⟨[' '], .plain, gap, reads, ?_⟩
      by_cases line : c = '\r' ∧ cs.head? = some '\n'
      · obtain ⟨d, cs, rfl⟩ : ∃ d ds, cs = d :: ds := by
          cases cs with
          | nil => cases line.2
          | cons d ds => exact ⟨d, ds, rfl⟩
        obtain rfl : d = '\n' := by simpa using line.2
        rw [if_pos line] at size
        obtain rfl : skip = 1 := Nat.succ.inj size
        exact .feed
      · rw [if_neg line, if_pos blank] at size
        obtain rfl : skip = 0 := Nat.succ.inj size
        exact .plain

/-- Outside of escapes the machine is as in plain text. -/
theorem Scans.step_eq {cs : List Char} (h : Scans mode 0 (c :: cs)) (gap : Gap) (depth : Nat) (next : Option Char) :
    Normalizer.step false ⟨mode, gap, depth⟩ c next = Normalizer.step false ⟨.plain, gap, depth⟩ c next := by
  generalize none : 0 = n at h
  cases h with
  | plain => rfl
  | feed => cases none
  | escape => exact absurd (escapeLength_pos (c :: cs)) (by omega)
  | @hex more =>
    have digits : hexDigits more (c :: cs) = 0 := by omega
    have solid : isBlank c = false := by
      have shut : escapeEnd (c :: cs) = 0 := by
        rw [digits, List.drop_zero] at none
        omega
      refine Bool.eq_false_iff.2 fun blank => ?_
      rw [escapeEnd_cons, if_pos blank] at shut
      split at shut <;> cases shut
    have digit : ¬(isHexDigit c && more ≠ 0) = true := fun digit => by
      rw [hexDigits_cons, if_pos digit] at digits
      cases digits
    simp only [Normalizer.step]
    rw [if_neg digit, solid, if_neg Bool.false_ne_true, stepPlain_eq, stepPlain_eq]
    rfl

theorem Scans.run_eq (h : Scans mode 0 r) (gap : Gap) (depth : Nat) :
    Normalizer.run false ⟨mode, gap, depth⟩ r = Normalizer.run false ⟨.plain, gap, depth⟩ r := by
  cases r with
  | nil => rfl
  | cons c r => rw [run_cons, run_cons, h.step_eq]

theorem Crosses.of_plain (h : Crosses ⟨.plain, gap, depth⟩ xs out s') (scans : Scans mode 0 (xs ++ r))
    (more : xs ≠ []) : Crosses ⟨mode, gap, depth⟩ xs out s' := by
  cases h with
  | nil => exact absurd rfl more
  | cons reads rest => exact .cons (fun r' => (scans.step_eq gap depth _).trans (reads r')) rest

/-- Over `xs` the machine writes `out`, and before `r` it goes on as in plain text. -/
def Lands (r : List Char) (s : Normalizer) (xs out : List Char) : Prop :=
  ∃ mode gap depth, Crosses s xs out ⟨mode, gap, depth⟩ ∧ Scans mode 0 r

theorem Crosses.lands (h : Crosses s xs out ⟨.plain, gap, depth⟩) (r : List Char) : Lands r s xs out :=
  ⟨.plain, gap, depth, h, .plain⟩

theorem Crosses.append_lands (h : Crosses s xs out s') (h' : Lands r s' ys outs) :
    Lands r s (xs ++ ys) (out ++ outs) := by
  obtain ⟨mode, gap, depth, crosses, scans⟩ := h'
  exact ⟨mode, gap, depth, h.append crosses, scans⟩

theorem Lands.of_plain (h : Lands r ⟨.plain, gap, depth⟩ xs out) (scans : Scans mode 0 (xs ++ r)) (more : xs ≠ []) :
    Lands r ⟨mode, gap, depth⟩ xs out := by
  obtain ⟨mode', gap', depth', crosses, scans'⟩ := h
  exact ⟨mode', gap', depth', crosses.of_plain scans more, scans'⟩

/-- A character that plain text shows as it is and goes on behind. -/
def isLetter (c : Char) : Bool := !isBlank c && !(['/', '\x22', '\x27', '\\'].contains c)

/-- A character of plain text that is neither a blank nor opens a comment is written behind what is due. -/
theorem step_solid (solid : isBlank c = false) (comment : ¬(c = '/' ∧ next = some '*')) (gap : Gap) (depth : Nat) :
    step false ⟨.plain, gap, depth⟩ c next = (gap.text ++ [c], ⟨modeAfter c, .joined, depthAfter depth c⟩) := by
  rw [step_plain, if_neg (by simpa using comment), solid]
  rfl

theorem step_of_isLetter (letter : isLetter c = true) (gap : Gap) (depth : Nat) (next : Option Char) :
    step false ⟨.plain, gap, depth⟩ c next = (gap.text ++ [c], ⟨.plain, .joined, depthAfter depth c⟩) := by
  simp only [isLetter, Bool.and_eq_true, Bool.not_eq_true', List.contains_eq_mem, List.mem_cons, List.not_mem_nil,
    or_false, decide_eq_false_iff_not, not_or] at letter
  rw [step_solid letter.1 fun comment => letter.2.1 comment.1]
  simp [letter, modeAfter]

theorem ne_of_isNameChar {d : Char} (name : isNameChar c = true) (other : isNameChar d = false) : c ≠ d := by
  rintro rfl
  rw [other] at name
  cases name

theorem isLetter_of_isNameChar (name : isNameChar c = true) : isLetter c = true := by
  have solid : isBlank c = false := by
    refine Bool.eq_false_iff.2 fun blank => ?_
    have stop := isBreak_of_isBlank blank
    simp [isBreak, name] at stop
  have ne {d : Char} := ne_of_isNameChar (d := d) name
  simp [isLetter, solid, ne (d := '/') (by decide), ne (d := '\x22') (by decide), ne (d := '\x27') (by decide),
    ne (d := '\\') (by decide)]

theorem depthAfter_of_isNameChar (name : isNameChar c = true) (depth : Nat) : depthAfter depth c = depth := by
  have ne {d : Char} := ne_of_isNameChar (d := d) name
  simp [depthAfter, ne (d := '(') (by decide), ne (d := '[') (by decide), ne (d := ')') (by decide),
    ne (d := ']') (by decide)]

theorem step_backslash (gap : Gap) (depth : Nat) (next : Option Char) :
    step false ⟨.plain, gap, depth⟩ '\\' next = (gap.text ++ ['\\'], ⟨.escape, .joined, depth⟩) := by
  rw [step_solid rfl (by simp)]
  rfl

theorem crosses_letter (letter : isLetter c = true) (gap : Gap) (depth : Nat) :
    Crosses ⟨.plain, gap, depth⟩ [c] (gap.text ++ [c]) ⟨.plain, .joined, depthAfter depth c⟩ :=
  .of_step (step_of_isLetter letter gap depth)

/-- The machine goes over a name as the lexer does. -/
theorem Scans.lands_name (scans : Scans mode skip (xs ++ r)) (inside : skip ≤ xs.length)
    (whole : nameLength skip (xs ++ r) = xs.length) (gap : Gap) (depth : Nat) :
    ∃ out, Lands r ⟨mode, gap, depth⟩ xs out := by
  induction xs generalizing mode skip gap depth with
  | nil =>
    obtain rfl : skip = 0 := Nat.le_zero.1 inside
    exact ⟨[], mode, gap, depth, .nil, scans⟩
  | cons c xs ih =>
    cases skip with
    | succ skip =>
      obtain ⟨out, mode', gap', reads, scans'⟩ := scans.step gap depth
      obtain ⟨outs, later⟩ := ih scans' (Nat.le_of_succ_le_succ inside) (Nat.succ.inj whole) gap' depth
      exact ⟨_, (Crosses.of_step reads).append_lands later⟩
    | zero =>
      rw [List.cons_append, nameLength] at whole
      by_cases name : isNameChar c = true
      · rw [if_pos name] at whole
        have reads := crosses_letter (isLetter_of_isNameChar name) gap depth
        obtain ⟨outs, later⟩ := ih .plain (Nat.zero_le _) (Nat.succ.inj whole) .joined (depthAfter depth c)
        exact ⟨_, (reads.append_lands later).of_plain scans (by simp)⟩
      · rw [if_neg name] at whole
        split at whole
        next escape =>
          obtain ⟨rfl, escapes⟩ : c = '\\' ∧ canEscape (xs ++ r) = true := by simpa using escape
          obtain ⟨-, reaches⟩ := escape_inside escapes (Nat.succ.inj whole)
          have reads := Crosses.of_step (step_backslash gap depth)
          obtain ⟨outs, later⟩ := ih .escape reaches (Nat.succ.inj whole) .joined depth
          exact ⟨_, (reads.append_lands later).of_plain scans (by simp)⟩
        next => cases whole

theorem lands_whole (read : nameLength 0 (xs ++ r) = xs.length) (gap : Gap) (depth : Nat) :
    ∃ out, Lands r ⟨.plain, gap, depth⟩ xs out :=
  Scans.lands_name .plain (Nat.zero_le _) read gap depth

/-- A parenthesis behind a name is written last. -/
theorem crosses_paren (read : nameLength 0 (xs ++ '(' :: r) = xs.length) (gap : Gap) (depth : Nat) :
    ∃ out depth', Crosses ⟨.plain, gap, depth⟩ (xs ++ ['(']) (out ++ ['(']) ⟨.plain, .joined, depth'⟩ := by
  obtain ⟨out, mode, gap', depth', crosses, scans⟩ := lands_whole read gap depth
  have paren := (crosses_letter rfl gap' depth').of_plain (r := r) scans (by simp)
  refine ⟨out ++ gap'.text, depthAfter depth' '(', ?_⟩
  rw [List.append_assoc]
  exact crosses.append paren

/-! ## Strings and numbers -/

theorem crosses_letters (letters : ∀ c ∈ xs, isLetter c = true) (gap : Gap) (depth : Nat) :
    ∃ out gap' depth', Crosses ⟨.plain, gap, depth⟩ xs out ⟨.plain, gap', depth'⟩ := by
  induction xs generalizing gap depth with
  | nil => exact ⟨[], gap, depth, .nil⟩
  | cons c xs ih =>
    rw [List.forall_mem_cons] at letters
    obtain ⟨outs, gap', depth', later⟩ := ih letters.2 .joined (depthAfter depth c)
    exact ⟨_, gap', depth', (crosses_letter letters.1 gap depth).append later⟩

/-- The machine is where a scan of a string is that still has `skip` characters to pass. A line feed behind a carriage
return is to the machine like any other character. -/
inductive Quotes (quote : Char) : Mode → (skip : Nat) → List Char → Prop where
  | body {cs : List Char} : Quotes quote (.string quote) 0 cs
  | escape {cs : List Char} : Quotes quote (.stringEscape quote) 1 cs
  | line {cs : List Char} : Quotes quote (.stringEscape quote) 2 ('\r' :: '\n' :: cs)
  | feed {cs : List Char} : Quotes quote (.string quote) 1 ('\n' :: cs)

/-- The machine goes over a string as the lexer does. -/
theorem Quotes.crosses {quote : Char} (h : Quotes quote mode skip (xs ++ r))
    (mark : quote = '\x22' ∨ quote = '\x27')
    (whole : stringLength quote skip (xs ++ r) = (.closed, xs.length)) (gap : Gap) (depth : Nat) :
    Crosses ⟨mode, gap, depth⟩ xs xs ⟨.plain, gap, depth⟩ := by
  have apart : quote ≠ '\\' ∧ quote ≠ '\n' := by rcases mark with rfl | rfl <;> decide
  induction xs generalizing mode skip with
  | nil =>
    have behind := stringLength_closed (congrArg Prod.fst whole)
    rw [whole] at behind
    exact absurd behind (Nat.not_lt_zero _)
  | cons c xs ih =>
    have onward {mode' : Mode} {skip' : Nat}
        (reads : ∀ next, step false ⟨mode, gap, depth⟩ c next = ([c], ⟨mode', gap, depth⟩))
        (h' : Quotes quote mode' skip' (xs ++ r))
        (inner : stringLength quote skip' (xs ++ r) = (.closed, xs.length)) :
        Crosses ⟨mode, gap, depth⟩ (c :: xs) (c :: xs) ⟨.plain, gap, depth⟩ :=
      .cons (fun _ => reads _) (ih h' inner)
    cases skip with
    | succ skip =>
      have inner := eq_of_grown whole
      generalize e : c :: xs ++ r = cs at h
      cases h with
      | escape => exact onward (fun _ => rfl) .body inner
      | line =>
        obtain ⟨rfl, rest⟩ := List.cons.inj e
        have feed : Quotes quote (.string quote) 1 (xs ++ r) := by
          rw [show xs ++ r = _ from rest]
          exact .feed
        exact onward (fun _ => rfl) feed inner
      | feed =>
        obtain ⟨rfl, -⟩ := List.cons.inj e
        exact onward (fun _ => by simp [step, apart.2.symm]) .body inner
    | zero =>
      cases h
      rw [List.cons_append, stringLength_cons] at whole
      by_cases closes : c = quote
      · subst closes
        rw [if_pos rfl] at whole
        obtain rfl : xs = [] := by simpa using (congrArg Prod.snd whole).symm
        exact .of_step fun next => by simp [step, apart.1]
      · rw [if_neg closes] at whole
        split at whole
        next => cases congrArg Prod.fst whole
        next =>
          have inner := eq_of_grown whole
          by_cases backslash : c = '\\'
          · subst backslash
            have reads (next : Option Char) : step false ⟨.string quote, gap, depth⟩ '\\' next
                = (['\\'], ⟨.stringEscape quote, gap, depth⟩) := rfl
            rw [stringSkip, if_pos rfl] at inner
            split at inner
            next line =>
              refine onward reads ?_ inner
              obtain ⟨rest, e⟩ : ∃ rest, xs ++ r = '\r' :: '\n' :: rest :=
                ⟨_, by rw [← List.take_append_drop 2 (xs ++ r), line]; rfl⟩
              rw [e]
              exact .line
            next => exact onward reads .escape inner
          · rw [stringSkip, if_neg backslash] at inner
            exact onward (fun _ => by simp [step, backslash, closes]) .body inner

theorem isLetter_of_isNumeral (numeral : isNumeral c = true) : isLetter c = true := by
  simp only [isNumeral, Bool.or_eq_true, List.contains_eq_mem, decide_eq_true_eq, List.mem_cons, List.not_mem_nil,
    or_false] at numeral
  rcases numeral with digit | rfl | rfl | rfl | rfl | rfl
  · exact isLetter_of_isNameChar (by simp [isNameChar, digit])
  all_goals rfl

/-- The machine goes over a number as the lexer does. -/
theorem lands_number (whole : numericLength (xs ++ r) = xs.length) (gap : Gap) (depth : Nat) :
    ∃ out, Lands r ⟨.plain, gap, depth⟩ xs out := by
  obtain ⟨front, unit, rfl, numerals, read⟩ := exists_unit whole
  obtain ⟨out, gap', depth', first⟩ :=
    crosses_letters (fun c mem => isLetter_of_isNumeral (numerals c mem)) gap depth
  rcases read with read | rfl | rfl
  · obtain ⟨outs, later⟩ := lands_whole read gap' depth'
    exact ⟨_, first.append_lands later⟩
  · exact ⟨_, (first.append (crosses_letter rfl gap' depth')).lands r⟩
  · refine ⟨out, ?_⟩
    rw [List.append_nil]
    exact first.lands r

/-! ## Urls -/

/-- Over blanks the machine writes nothing. -/
theorem crosses_blanks (blank : ∀ c ∈ xs, isBlank c = true) (gap : Gap) (depth : Nat) :
    ∃ gap', Crosses ⟨.plain, gap, depth⟩ xs [] ⟨.plain, gap', depth⟩ := by
  induction xs generalizing gap with
  | nil => exact ⟨gap, .nil⟩
  | cons c xs ih =>
    rw [List.forall_mem_cons] at blank
    have other : c ≠ '/' := by rintro rfl; cases blank.1
    have reads (next : Option Char) : step false ⟨.plain, gap, depth⟩ c next = ([], ⟨.plain, gap.widen, depth⟩) := by
      simp [step_plain, other, blank.1]
    obtain ⟨gap', later⟩ := ih blank.2 gap.widen
    exact ⟨gap', (Crosses.of_step reads).append later⟩

theorem step_slash (apart : next ≠ some '*') (gap : Gap) (depth : Nat) :
    step false ⟨.plain, gap, depth⟩ '/' next = (gap.text ++ ['/'], ⟨.plain, .joined, depth⟩) := by
  rw [step_solid rfl fun comment => apart comment.2]
  rfl

/-- The machine goes over the text of a url as the lexer does if it meets no comment there. -/
theorem Scans.lands_url {zs : List Char} (scans : Scans mode skip (xs ++ (zs ++ r))) (more : zs ≠ [])
    (later : ∀ gap depth, ∃ out, Lands r ⟨.plain, gap, depth⟩ zs out)
    (whole : urlLength skip (xs ++ (zs ++ r)) = (.closed, xs.length)) (gap : Gap) (depth : Nat)
    (none : meetsComment false ⟨mode, gap, depth⟩ (xs ++ zs) = false) :
    ∃ out, Lands r ⟨mode, gap, depth⟩ (xs ++ zs) out := by
  induction xs generalizing mode skip gap depth with
  | nil =>
    cases skip with
    | zero =>
      obtain ⟨out, lands⟩ := later gap depth
      exact ⟨out, lands.of_plain scans more⟩
    | succ skip =>
      obtain ⟨z, zs, rfl⟩ := List.exists_cons_of_ne_nil more
      cases congrArg Prod.snd whole
  | cons c xs ih =>
    rw [List.cons_append, meetsComment, Bool.or_eq_false_iff] at none
    cases skip with
    | succ skip =>
      obtain ⟨out, mode', gap', reads, scans'⟩ := scans.step gap depth
      rw [reads] at none
      obtain ⟨outs, rest⟩ := ih scans' (eq_of_grown whole) gap' depth none.2
      exact ⟨_, (Crosses.of_step reads).append_lands rest⟩
    | zero =>
      rw [scans.step_eq] at none
      have onward {mode' : Mode} {skip' depth' : Nat} {out : List Char}
          (reads : ∀ r', Normalizer.step false ⟨.plain, gap, depth⟩ c ((xs ++ zs) ++ r').head?
            = (out, ⟨mode', .joined, depth'⟩))
          (scans' : Scans mode' skip' (xs ++ (zs ++ r)))
          (inner : urlLength skip' (xs ++ (zs ++ r)) = (.closed, xs.length)) :
          ∃ out, Lands r ⟨mode, gap, depth⟩ (c :: xs ++ zs) out := by
        have here := reads []
        rw [List.append_nil] at here
        rw [here] at none
        obtain ⟨outs, mode₁, gap₁, depth₁, rest, scans₁⟩ := ih scans' inner .joined depth' none.2
        have lands : Lands r ⟨.plain, gap, depth⟩ (c :: xs ++ zs) _ :=
          ⟨mode₁, gap₁, depth₁, .cons reads rest, scans₁⟩
        exact ⟨_, lands.of_plain (by simpa using scans) (by simp)⟩
      obtain ⟨char, inner⟩ := (urlLength_cons_eq_closed c (xs ++ (zs ++ r))).1 whole
      by_cases backslash : c = '\\'
      · subst backslash
        exact onward (fun _ => step_backslash gap depth _) .escape inner
      · rw [urlSkip, if_neg backslash] at inner
        by_cases slash : c = '/'
        · subst slash
          obtain ⟨d, ds, e⟩ := List.exists_cons_of_ne_nil (List.append_ne_nil_of_right_ne_nil xs more)
          have apart : some d ≠ some '*' := by
            rintro star
            rw [e, List.head?_cons, star] at none
            cases none.1
          have reads (r' : List Char) : Normalizer.step false ⟨.plain, gap, depth⟩ '/' ((xs ++ zs) ++ r').head?
              = (gap.text ++ ['/'], ⟨.plain, .joined, depth⟩) := by
            rw [e]
            exact step_slash apart gap depth
          exact onward reads .plain inner
        · have letter : isLetter c = true := by simp_all [isUrlChar, isLetter]
          exact onward (fun _ => step_of_isLetter letter gap depth _) .plain inner

/-- The machine goes over a url, from behind its opening parenthesis, if it meets no comment there. -/
theorem UrlAt.lands {lead text trail : List Char} (h : UrlAt lead text trail r) (gap : Gap) (depth : Nat)
    (none : meetsComment false ⟨.plain, gap, depth⟩ (lead ++ (text ++ trail ++ [')'])) = false) :
    ∃ out, Lands r ⟨.plain, gap, depth⟩ (lead ++ (text ++ trail ++ [')'])) out := by
  rw [List.append_assoc text] at none ⊢
  have closed : urlLength 0 (text ++ (trail ++ [')'] ++ r)) = (.closed, text.length) := by simpa using h.closed
  have behind (gap : Gap) (depth : Nat) : ∃ out, Lands r ⟨.plain, gap, depth⟩ (trail ++ [')']) out := by
    obtain ⟨gap', blanks⟩ := crosses_blanks h.trailBlank gap depth
    exact ⟨_, blanks.append_lands ((crosses_letter rfl gap' depth).lands r)⟩
  obtain ⟨gap', blanks⟩ := crosses_blanks h.leadBlank gap depth
  obtain ⟨out, lands⟩ := Scans.lands_url .plain (by simp) behind closed gap' depth (blanks.meetsComment none)
  exact ⟨_, blanks.append_lands lands⟩

/-! ## Tokens -/

/-- What a token is made of that is neither a blank nor a comment, before `r`. -/
inductive Shaped (r : List Char) : List Char → Kind → Prop where
  | string {quote : Char} {xs : List Char} {k : Kind} (mark : quote = '\x22' ∨ quote = '\x27')
      (closed : stringLength quote 0 (xs ++ r) = (.closed, xs.length)) : Shaped r (quote :: xs) k
  | marked {c : Char} {xs : List Char} {k : Kind} (letter : isLetter c = true)
      (read : nameLength 0 (xs ++ r) = xs.length) : Shaped r (c :: xs) k
  | number {xs : List Char} {k : Kind} (whole : numericLength (xs ++ r) = xs.length) : Shaped r xs k
  | name {xs : List Char} {k : Kind} (names : Names r xs k) : Shaped r xs k
  | letters {xs : List Char} {k : Kind} (letters : ∀ c ∈ xs, isLetter c = true) : Shaped r xs k
  | slash {k : Kind} (apart : r.head? ≠ some '*') : Shaped r ['/'] k

/-- A character that is a token by itself. -/
theorem shaped_delim (reads : lexeme c r = (.delim c, 1)) : Shaped r [c] (.delim c) := by
  obtain ⟨double, single, backslash, comment⟩ := of_lexeme_eq_delim reads
  by_cases slash : c = '/'
  · subst slash
    exact .slash fun star => comment ⟨rfl, star⟩
  · have solid : isBlank c = false := by
      refine Bool.eq_false_iff.2 fun blank => ?_
      have white := (begins_lexeme c r).blanks_iff.1 blank
      rw [reads] at white
      cases white
    exact .letters (by simp [isLetter, solid, slash, double, single, backslash])

theorem shaped_lexeme {k : Kind} (reads : lexeme c (xs ++ r) = (k, xs.length + 1)) (solid : k.isTrivia = false)
    (sound : ∀ f, k ≠ .fault f) : Shaped r (c :: xs) k := by
  have begins := begins_lexeme c (xs ++ r)
  generalize whole : lexeme c (xs ++ r) = p at reads begins
  subst reads
  generalize e : (k, xs.length + 1) = p at whole begins
  have name {kind : String → Kind} (e : (k, xs.length + 1) = markedLexeme kind (xs ++ r)) :
      nameLength 0 (xs ++ r) = xs.length := (Nat.succ.inj (congrArg Prod.snd e)).symm
  cases begins with
  | blanks =>
    obtain rfl : k = .whitespace := congrArg Prod.fst e
    cases solid
  | comment =>
    have kind := commentLexeme_kind (xs ++ r).tail
    rw [← e] at kind
    obtain ⟨text, rfl⟩ := kind.resolve_right fun ⟨f, fault⟩ => sound f fault
    cases solid
  | string quote =>
    refine .string quote ?_
    unfold stringLexeme at e
    split at e
    next scan => rw [scan, Nat.succ.inj (congrArg Prod.snd e)]
    next => exact absurd (congrArg Prod.fst e) (sound _)
    next => exact absurd (congrArg Prod.fst e) (sound _)
  | hash sign => exact .marked (by rw [sign]; rfl) (name e)
  | atKeyword sign => exact .marked (by rw [sign]; rfl) (name e)
  | @sign k' sign =>
    obtain rfl : xs = [] := by simpa using congrArg Prod.snd e
    have letter : isLetter c = true := by cases k' <;> cases sign <;> rfl
    exact .letters (by simpa using letter)
  | number => exact .number (congrArg Prod.snd e).symm
  | name => exact .name (names_of_whole e.symm)
  | cdc dash arrow =>
    rw [List.take_left' (Nat.succ.inj (congrArg Prod.snd e))] at arrow
    subst arrow
    exact .letters (by simp [dash, isLetter, isBlank])
  | cdo less mark =>
    rw [List.take_left' (Nat.succ.inj (congrArg Prod.snd e))] at mark
    subst mark
    exact .letters (by simp [less, isLetter, isBlank])
  | stray => exact absurd (congrArg Prod.fst e) (sound _)
  | delim =>
    obtain rfl : xs = [] := by simpa using congrArg Prod.snd e
    obtain rfl : k = .delim c := congrArg Prod.fst e
    exact shaped_delim whole

/-- The machine goes over what starts with a name. -/
theorem Names.lands {k : Kind} (h : Names r xs k) (sound : ∀ f, k ≠ .fault f) (gap : Gap) (depth : Nat)
    (none : (∃ text, k = .url text) → meetsComment false ⟨.plain, gap, depth⟩ xs = false) :
    ∃ out, Lands r ⟨.plain, gap, depth⟩ xs out := by
  cases h with
  | ident read => exact lands_whole read gap depth
  | function read =>
    obtain ⟨out, depth', crosses⟩ := crosses_paren read gap depth
    exact ⟨_, crosses.lands r⟩
  | @url name ys k read named bare whole =>
    obtain ⟨text, e⟩ := (urlLexeme_kind (ys ++ r)).resolve_right fun ⟨f, e⟩ => sound f (by rw [← e, whole])
    obtain rfl : k = .url text := by rw [← e, whole]
    obtain ⟨out, depth', crosses⟩ := crosses_paren (r := ys ++ r) read gap depth
    obtain ⟨lead, inner, trail, rfl, url⟩ := urlAt_of_whole whole
    have front : name ++ '(' :: (lead ++ (inner ++ trail ++ [')']))
        = name ++ ['('] ++ (lead ++ (inner ++ trail ++ [')'])) := by simp
    rw [front] at none ⊢
    obtain ⟨outs, lands⟩ := url.lands .joined depth' (crosses.meetsComment (none ⟨text, rfl⟩))
    exact ⟨_, crosses.append_lands lands⟩

theorem step_quote (quote : c = '\x22' ∨ c = '\x27') (gap : Gap) (depth : Nat) (next : Option Char) :
    step false ⟨.plain, gap, depth⟩ c next = (gap.text ++ [c], ⟨.string c, .joined, depth⟩) := by
  rcases quote with rfl | rfl <;> (rw [step_solid rfl (by simp)]; rfl)

/-- **Both readers draw the same boundaries.** Behind a token the machine goes on as in plain text, unless the token
is a url in which it meets a comment. A slash alone is a case apart, since what it writes hangs on what follows. -/
theorem lands_lexeme {k : Kind} (reads : lexeme c (xs ++ r) = (k, xs.length + 1)) (solid : k.isTrivia = false)
    (sound : ∀ f, k ≠ .fault f) (gap : Gap) (depth : Nat)
    (none : (∃ text, k = .url text) → meetsComment false ⟨.plain, gap, depth⟩ (c :: xs) = false) :
    (c :: xs = ['/'] ∧ r.head? ≠ some '*') ∨ ∃ out, Lands r ⟨.plain, gap, depth⟩ (c :: xs) out := by
  cases shaped_lexeme reads solid sound with
  | string mark closed =>
    have body := Quotes.crosses .body mark closed .joined depth
    exact .inr ⟨_, ((Crosses.of_step (step_quote mark gap depth)).append body).lands r⟩
  | marked letter read =>
    obtain ⟨outs, lands⟩ := lands_whole read .joined (depthAfter depth c)
    exact .inr ⟨_, (crosses_letter letter gap depth).append_lands lands⟩
  | number whole => exact .inr (lands_number whole gap depth)
  | name names => exact .inr (names.lands sound gap depth none)
  | letters letters =>
    obtain ⟨out, gap', depth', crosses⟩ := crosses_letters letters gap depth
    exact .inr ⟨out, crosses.lands r⟩
  | slash apart => exact .inl ⟨rfl, apart⟩

end

end AboveFold.Token
