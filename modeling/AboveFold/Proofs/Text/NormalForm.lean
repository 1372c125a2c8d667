import AboveFold.Text.Normalize
import AboveFold.Text.Search

/-!
# Normal forms stay as they are

Text that was collapsed is left alone when it is collapsed again (`collapse_collapse`). Of the normal form of a
selector this holds exactly if it holds no comment (`normalizeSelector_again_iff`). A comment goes without a trace
there, so one that stood between a slash and a star leaves the two side by side, and they open another; nothing
else can do that (`normalizeSelector_again`).

All of this compares two machines, one that reads a text and one that reads what the first writes
(`Normalizer.Trails`). The second has nothing left to do: it writes each character as it stands
(`Normalizer.Settled`), up to a comment that it meets.
-/

namespace AboveFold.Text

namespace Mode

/-- Whether characters stand for themselves here, outside of strings and escapes and comments. The end of a
hexadecimal escape shows only by what comes next. -/
def isOpen : Mode → Bool
  | plain | hex _ => true
  | _ => false

/-- Whether nothing was begun that the next character must finish or go on with, but perhaps a comment. -/
def isOutside : Mode → Bool
  | plain | commentStar | comment | commentSlash => true
  | _ => false

end Mode

/-! ## Comments between a slash and a star -/

/-- What follows the comments at the front of a text, of which there may be none. -/
inductive AfterComments : (cs rest : List Char) → Prop where
  | none {cs : List Char} : AfterComments cs cs
  | comment {cs body between rest : List Char} (closes : splitAt? ['*', '/'] cs = some (body, between))
      (more : AfterComments between rest) : AfterComments ('/' :: '*' :: cs) rest

/-- Whether there is a place in a text where nothing but comments stands between a slash and a star. -/
def Torn (cs : List Char) : Prop :=
  ∃ before behind after, cs = before ++ '/' :: '/' :: behind ∧ AfterComments ('/' :: behind) ('*' :: after)

theorem Torn.cons {cs : List Char} (h : Torn cs) (c : Char) : Torn (c :: cs) := by
  obtain ⟨before, behind, after, rfl, comments⟩ := h
  exact ⟨c :: before, behind, after, rfl, comments⟩

/-! ## The machine -/

/-- The mode in which the machine goes on after a character that stands for itself. -/
def modeAfter (c : Char) : Mode :=
  if c = '\x22' || c = '\x27' then .string c else if c = '\\' then .escape else .plain

/-- The number of open brackets after a character that stands for itself. -/
def depthAfter (depth : Nat) (c : Char) : Nat :=
  if c = '(' || c = '[' then depth + 1 else if c = ')' || c = ']' then depth - 1 else depth

/-- Whether a character is a combinator, which only selectors have, and only outside of brackets. -/
def isCombinator (selector : Bool) (depth : Nat) (c : Char) : Bool :=
  selector && depth = 0 && (c = '>' || c = '+' || c = '~')

namespace Normalizer

variable {selector : Bool} {s t : Normalizer} {c : Char} {cs : List Char} {next : Option Char}

theorem stepPlain_eq (selector : Bool) (s : Normalizer) (c : Char) (next : Option Char) :
    s.stepPlain selector c next =
      if c = '/' && next = some '*' then
        ([], { s with mode := .commentStar, gap := if selector then s.gap else s.gap.widen })
      else if isBlank c then ([], { s with mode := .plain, gap := s.gap.widen })
      else if isCombinator selector s.depth c then ([c], ⟨.plain, .closed, s.depth⟩)
      else s.put (modeAfter c) (depthAfter s.depth c) c := by
  unfold stepPlain isCombinator modeAfter depthAfter
  grind

/-! ## Texts that are written as they stand -/

/-- The step writes what it reads, and puts a space off at most until the next step. -/
def Keeps (selector : Bool) (s : Normalizer) (c : Char) (next : Option Char) : Prop :=
  (s.step selector c next).1 ++ (s.step selector c next).2.gap.text = s.gap.text ++ [c]

/-- The machine writes a text as it stands. -/
def Settled (selector : Bool) : Normalizer → List Char → Prop
  | s, [] => s.gap.text = []
  | s, c :: cs => Keeps selector s c cs.head? ∧ Settled selector (s.step selector c cs.head?).2 cs

/-- Whether the machine meets a comment in a text. -/
def meetsComment (selector : Bool) : Normalizer → List Char → Bool
  | _, [] => false
  | s, c :: cs =>
    (s.step selector c cs.head?).2.mode = .commentStar || meetsComment selector (s.step selector c cs.head?).2 cs

theorem run_cons (selector : Bool) (s : Normalizer) (c : Char) (cs : List Char) :
    s.run selector (c :: cs)
      = (s.step selector c cs.head?).1 ++ (s.step selector c cs.head?).2.run selector cs := rfl

theorem Settled.run_eq (h : Settled selector s cs) : s.run selector cs = s.gap.text ++ cs := by
  induction cs generalizing s with
  | nil =>
    rw [Settled] at h
    rw [h]
    rfl
  | cons c cs ih =>
    obtain ⟨keeps, later⟩ := h
    rw [run_cons, ih later, ← List.append_assoc, keeps, List.append_assoc]
    rfl

theorem step_plain (selector : Bool) (gap : Gap) (depth : Nat) (c : Char) (next : Option Char) :
    step selector ⟨.plain, gap, depth⟩ c next =
      if c = '/' && next = some '*' then ([], ⟨.commentStar, if selector then gap else gap.widen, depth⟩)
      else if isBlank c then ([], ⟨.plain, gap.widen, depth⟩)
      else if isCombinator selector depth c then ([c], ⟨.plain, .closed, depth⟩)
      else (gap.text ++ [c], ⟨modeAfter c, .joined, depthAfter depth c⟩) :=
  stepPlain_eq selector ⟨.plain, gap, depth⟩ c next

theorem ne_star_of_isCombinator {depth : Nat} (h : isCombinator selector depth c = true) : c ≠ '*' := by
  rintro rfl
  simp [isCombinator] at h

/-- Where a space is due, no star is written next. -/
theorem head?_run_of_spaced (outside : s.mode.isOutside = true) (spaced : s.gap = .spaced) :
    (s.run selector cs).head? ≠ some '*' := by
  induction cs generalizing s with
  | nil => simp [run]
  | cons c cs ih =>
    obtain ⟨mode, gap, depth⟩ := s
    obtain rfl : gap = .spaced := spaced
    rw [run_cons]
    cases mode with
    | plain =>
      rw [step_plain]
      split
      next => exact ih (s := ⟨.commentStar, _, depth⟩) rfl (by cases selector <;> rfl)
      split
      next => exact ih (s := ⟨.plain, .spaced, depth⟩) rfl rfl
      split
      next combines => simpa using ne_star_of_isCombinator combines
      next => simp [Gap.text]
    | commentStar => exact ih (s := ⟨.comment, .spaced, depth⟩) rfl rfl
    | comment =>
      refine ih (s := ⟨if c = '*' && cs.head? = some '/' then .commentSlash else .comment, .spaced, depth⟩) ?_ rfl
      dsimp only
      split <;> rfl
    | commentSlash => exact ih (s := ⟨.plain, .spaced, depth⟩) rfl rfl
    | _ => cases outside

/-- Where in a text the comment ends in which the machine is, if it is in one. -/
def Ends : Mode → (cs rest : List Char) → Prop
  | .plain, cs, rest => cs = rest
  | .commentStar, cs, rest => ∃ c tail body, cs = c :: tail ∧ splitAt? ['*', '/'] tail = some (body, rest)
  | .comment, cs, rest => ∃ body, splitAt? ['*', '/'] cs = some (body, rest)
  | .commentSlash, cs, rest => ∃ c, cs = c :: rest
  | _, _, _ => False

theorem splitAt?_here (rest : List Char) : splitAt? ['*', '/'] ('*' :: '/' :: rest) = some ([], rest) := by
  simp [splitAt?, after?]

theorem splitAt?_later {body rest : List Char} (inside : ¬(c = '*' ∧ cs.head? = some '/'))
    (h : splitAt? ['*', '/'] cs = some (body, rest)) : splitAt? ['*', '/'] (c :: cs) = some (c :: body, rest) := by
  have none : after? ['*', '/'] (c :: cs) = none := by
    cases cs with
    | nil => simp [after?]
    | cons d ds => simp_all [after?, eq_comm]
  simp [splitAt?, none, h]

/-- If a star is written next to what was written, it stands behind comments. -/
theorem exists_of_head?_run (outside : s.mode.isOutside = true) (joined : s.gap = .joined)
    (star : (s.run true cs).head? = some '*') :
    ∃ rest after, Ends s.mode cs rest ∧ AfterComments rest ('*' :: after) := by
  induction cs generalizing s with
  | nil => simp [run] at star
  | cons c cs ih =>
    obtain ⟨mode, gap, depth⟩ := s
    obtain rfl : gap = .joined := joined
    rw [run_cons] at star
    cases mode with
    | plain =>
      rw [step_plain] at star
      split at star
      next opens =>
        simp only [Bool.and_eq_true, decide_eq_true_eq] at opens
        obtain ⟨rfl, next⟩ := opens
        obtain ⟨between, after, ⟨d, tail, body, rfl, closes⟩, more⟩ := ih (s := ⟨.commentStar, .joined, depth⟩) rfl rfl star
        obtain rfl : d = '*' := by simpa using next
        exact ⟨_, after, rfl, .comment closes more⟩
      split at star
      next => exact absurd star (head?_run_of_spaced (s := ⟨.plain, .spaced, depth⟩) rfl rfl)
      split at star
      next combines => exact absurd (by simpa using star) (ne_star_of_isCombinator combines)
      next =>
        obtain rfl : c = '*' := by simpa [Gap.text] using star
        exact ⟨_, cs, rfl, .none⟩
    | commentStar =>
      obtain ⟨rest, after, ⟨body, closes⟩, more⟩ := ih (s := ⟨.comment, .joined, depth⟩) rfl rfl star
      exact ⟨rest, after, ⟨c, cs, body, rfl, closes⟩, more⟩
    | comment =>
      by_cases closes : c = '*' ∧ cs.head? = some '/'
      · have ends : step true ⟨.comment, .joined, depth⟩ c cs.head? = ([], ⟨.commentSlash, .joined, depth⟩) := by
          simp [step, closes]
        rw [ends] at star
        obtain ⟨rest, after, ⟨d, rfl⟩, more⟩ := ih rfl rfl star
        obtain ⟨rfl, slash⟩ := closes
        obtain rfl : d = '/' := by simpa using slash
        exact ⟨rest, after, ⟨[], splitAt?_here rest⟩, more⟩
      · have stays : step true ⟨.comment, .joined, depth⟩ c cs.head? = ([], ⟨.comment, .joined, depth⟩) := by
          simpa [step] using closes
        rw [stays] at star
        obtain ⟨rest, after, ⟨body, found⟩, more⟩ := ih rfl rfl star
        exact ⟨rest, after, ⟨c :: body, splitAt?_later closes found⟩, more⟩
    | commentSlash =>
      obtain ⟨rest, after, rfl, more⟩ := ih (s := ⟨.plain, .joined, depth⟩) rfl rfl star
      exact ⟨_, after, ⟨c, rfl⟩, more⟩
    | _ => cases outside

/-! ## The machine behind the machine -/

/-- A machine that read what another wrote, before the other writes on: after the gap `gap`, and with `depth` brackets
open. -/
inductive Waits : (gap : Gap) → (depth : Nat) → Normalizer → Prop where
  | closed {depth : Nat} : Waits .closed depth ⟨.plain, .closed, depth⟩
  | apart {gap : Gap} {depth : Nat} {mode : Mode} (more : gap ≠ .closed) (isOpen : mode.isOpen = true) :
      Waits gap depth ⟨mode, .joined, depth⟩

theorem Waits.widen {gap : Gap} {depth : Nat} (h : Waits gap depth t) : Waits gap.widen depth t := by
  cases h with
  | closed => exact .closed
  | apart more isOpen => exact .apart (by cases gap <;> simp_all [Gap.widen]) isOpen

/-- The machine `t` reads what `s` writes, and has read all that `s` has written. -/
inductive Trails : (s t : Normalizer) → Prop where
  | inside {mode : Mode} {depth : Nat} (inside : mode.isOutside = false) :
      Trails ⟨mode, .joined, depth⟩ ⟨mode, .joined, depth⟩
  | outside {mode : Mode} {gap : Gap} {depth : Nat} {t : Normalizer} (outside : mode.isOutside = true)
      (waits : Waits gap depth t) : Trails ⟨mode, gap, depth⟩ t

/-- The machine `t` writes a text as it stands, or it meets a comment there, because the text is the normal form of
a selector that is torn. -/
def SettledOr (selector : Bool) (source : List Char) (t : Normalizer) (text : List Char) : Prop :=
  Settled selector t text ∨ meetsComment selector t text = true ∧ selector = true ∧ Torn source

theorem SettledOr.cons {source text : List Char} (keeps : Keeps selector t c text.head?)
    (h : SettledOr selector source (t.step selector c text.head?).2 text) :
    SettledOr selector source t (c :: text) := by
  rcases h with settled | ⟨meets, torn⟩
  · exact .inl ⟨keeps, settled⟩
  · exact .inr ⟨by simp [meetsComment, meets], torn⟩

theorem SettledOr.mono {source text : List Char} (h : SettledOr selector source t text) (d : Char) :
    SettledOr selector (d :: source) t text :=
  h.imp_right fun ⟨meets, sel, torn⟩ => ⟨meets, sel, torn.cons d⟩

theorem after_of_isHexDigit (digit : isHexDigit c = true) (depth : Nat) :
    modeAfter c = .plain ∧ depthAfter depth c = depth := by
  have other {d : Char} (no : isHexDigit d = false) : c ≠ d := by
    rintro rfl
    exact absurd digit (by simp [no])
  simp [modeAfter, depthAfter, other (d := '\x22') rfl, other (d := '\x27') rfl, other (d := '\\') rfl,
    other (d := '(') rfl, other (d := '[') rfl, other (d := ')') rfl, other (d := ']') rfl]

/-- A character that stands for itself is written as it is. -/
theorem keeps_of_letter {mode : Mode} {gap : Gap} {depth : Nat} (isOpen : mode.isOpen = true)
    (place : mode = .plain ∨ gap = .joined) (comment : ¬(c = '/' ∧ next = some '*')) (blank : isBlank c = false)
    (combines : isCombinator selector depth c = false) :
    Keeps selector ⟨mode, gap, depth⟩ c next ∧ ∃ mode',
      (step selector ⟨mode, gap, depth⟩ c next).2 = ⟨mode', .joined, depthAfter depth c⟩
        ∧ (mode' = modeAfter c ∨ modeAfter c = .plain ∧ mode'.isOpen = true) := by
  have plainly : stepPlain selector ⟨mode, gap, depth⟩ c next
      = (gap.text ++ [c], ⟨modeAfter c, .joined, depthAfter depth c⟩) := by
    rw [stepPlain_eq, if_neg (by simpa using comment), blank, combines]
    rfl
  cases mode with
  | plain => exact ⟨by simp [Keeps, step, plainly, Gap.text], _, by rw [step, plainly], .inl rfl⟩
  | hex more =>
    obtain rfl : gap = .joined := place.resolve_left (by simp)
    by_cases digit : isHexDigit c = true ∧ more ≠ 0
    · obtain ⟨mode, depth'⟩ := after_of_isHexDigit digit.1 depth
      have reads : step selector ⟨.hex more, .joined, depth⟩ c next = ([c], ⟨.hex (more - 1), .joined, depth⟩) := by
        simp [step, digit]
      exact ⟨by simp [Keeps, reads, Gap.text], _, by rw [reads, depth'], .inr ⟨mode, rfl⟩⟩
    · have reads : step selector ⟨.hex more, .joined, depth⟩ c next
          = ([c], ⟨modeAfter c, .joined, depthAfter depth c⟩) := by
        simp only [step]
        rw [if_neg (by simpa using digit), blank, if_neg Bool.false_ne_true, plainly]
        rfl
      exact ⟨by simp [Keeps, reads, Gap.text], _, by rw [reads], .inl rfl⟩
  | _ => cases isOpen

/-- A space is read as the one that is due. -/
theorem keeps_of_space {mode : Mode} {depth : Nat} (isOpen : mode.isOpen = true) :
    Keeps selector ⟨mode, .joined, depth⟩ ' ' next ∧ ∃ gap,
      (step selector ⟨mode, .joined, depth⟩ ' ' next).2 = ⟨.plain, gap, depth⟩ := by
  cases mode with
  | plain => exact ⟨by rw [Keeps, step_plain]; rfl, _, by rw [step_plain]; rfl⟩
  | hex more =>
    have reads : step selector ⟨.hex more, .joined, depth⟩ ' ' next = ([' '], ⟨.plain, .joined, depth⟩) := by
      simp [step, isBlank, isHexDigit]
    exact ⟨by simp [Keeps, reads, Gap.text], _, by rw [reads]⟩
  | _ => cases isOpen

theorem keeps_of_combinator {mode : Mode} {gap : Gap} {depth : Nat} (isOpen : mode.isOpen = true) (tight : gap ≠ .spaced)
    (combines : isCombinator selector depth c = true) :
    Keeps selector ⟨mode, gap, depth⟩ c next
      ∧ (step selector ⟨mode, gap, depth⟩ c next).2 = ⟨.plain, .closed, depth⟩ := by
  have mark : c = '>' ∨ c = '+' ∨ c = '~' := by
    simpa [or_assoc] using (Bool.and_eq_true_iff.1 combines).2
  have letter : ¬(c = '/' ∧ next = some '*') ∧ isBlank c = false ∧ isHexDigit c = false := by
    rcases mark with rfl | rfl | rfl <;> exact ⟨by simp, rfl, rfl⟩
  have reads : step selector ⟨mode, gap, depth⟩ c next = ([c], ⟨.plain, .closed, depth⟩) := by
    have plainly : stepPlain selector ⟨mode, gap, depth⟩ c next = ([c], ⟨.plain, .closed, depth⟩) := by
      rw [stepPlain_eq, if_neg (by simpa using letter.1), letter.2.1, combines]
      rfl
    cases mode with
    | plain => exact plainly
    | hex more =>
      simp only [step, letter]
      exact plainly
    | _ => cases isOpen
  have none : gap.text = [] := by
    cases gap with
    | spaced => exact absurd rfl tight
    | _ => rfl
  exact ⟨by rw [Keeps, reads, none]; rfl, by rw [reads]⟩

/-- Where comments separate words, a star comes right behind a slash only if it stood there. -/
theorem head?_of_head?_run {depth : Nat} (star : (run false ⟨.plain, .joined, depth⟩ cs).head? = some '*') :
    cs.head? = some '*' := by
  cases cs with
  | nil => cases star
  | cons c cs =>
    rw [run_cons, step_plain] at star
    split at star
    next => exact absurd star (head?_run_of_spaced (s := ⟨.commentStar, .spaced, depth⟩) rfl rfl)
    split at star
    next => exact absurd star (head?_run_of_spaced (s := ⟨.plain, .spaced, depth⟩) rfl rfl)
    split at star
    next combines => simp [isCombinator] at combines
    next => simpa [Gap.text] using star

/-- A slash that was written before a star stood before comments, and these before the star. -/
theorem torn_of_head?_run {depth : Nat} (apart : cs.head? ≠ some '*')
    (star : (run selector ⟨.plain, .joined, depth⟩ cs).head? = some '*') : selector = true ∧ Torn ('/' :: cs) := by
  cases selector with
  | false => exact absurd (head?_of_head?_run star) apart
  | true =>
    obtain ⟨rest, after, rfl, comments⟩ := exists_of_head?_run rfl rfl star
    cases comments with
    | none => exact absurd rfl apart
    | comment closes more => exact ⟨rfl, [], _, after, rfl, .comment closes more⟩

/-- Outside of comments both machines can be at the same place. -/
theorem trails_same {mode : Mode} (h : mode.isOutside = true → mode.isOpen = true) (depth : Nat) :
    Trails ⟨mode, .joined, depth⟩ ⟨mode, .joined, depth⟩ := by
  cases outside : mode.isOutside with
  | true => exact .outside outside (.apart (by simp) (h outside))
  | false => exact .inside outside

/-- Behind a character both machines go on together. -/
theorem trails_modeAfter {mode : Mode} {depth : Nat} (c : Char)
    (goes : mode = modeAfter c ∨ modeAfter c = .plain ∧ mode.isOpen = true) :
    Trails ⟨modeAfter c, .joined, depth⟩ ⟨mode, .joined, depth⟩ := by
  rcases goes with rfl | ⟨plain, isOpen⟩
  · refine trails_same ?_ depth
    unfold modeAfter
    split
    next => simp [Mode.isOutside]
    next => split <;> simp [Mode.isOutside, Mode.isOpen]
  · rw [plain]
    exact .outside rfl (.apart (by simp) isOpen)

section Run

variable {gap : Gap} {depth : Nat}
variable (ih : ∀ s t : Normalizer, Trails s t → SettledOr selector cs t (s.run selector cs))
include ih

theorem settledOr_letter {mode : Mode} (isOpen : mode.isOpen = true)
    (place : mode = .plain ∨ gap = .joined) (comment : ¬(c = '/' ∧ cs.head? = some '*')) (blank : isBlank c = false)
    (combines : isCombinator selector depth c = false) :
    SettledOr selector (c :: cs) ⟨mode, gap, depth⟩
      (c :: run selector ⟨modeAfter c, .joined, depthAfter depth c⟩ cs) := by
  generalize e : run selector ⟨modeAfter c, .joined, depthAfter depth c⟩ cs = text
  by_cases opens : c = '/' ∧ text.head? = some '*'
  · obtain ⟨rfl, star⟩ := opens
    have meets : (step selector ⟨mode, gap, depth⟩ '/' text.head?).2.mode = .commentStar := by
      rw [star]
      cases mode with
      | plain => rfl
      | hex more => rfl
      | _ => cases isOpen
    exact .inr ⟨by simp [meetsComment, meets], torn_of_head?_run (fun stood => comment ⟨rfl, stood⟩) (e ▸ star)⟩
  · obtain ⟨keeps, mode', reads, goes⟩ := keeps_of_letter isOpen place opens blank combines
    refine .cons keeps ?_
    rw [reads, ← e]
    exact (ih _ _ (trails_modeAfter c goes)).mono c

/-- What one machine writes for a character outside of strings and escapes, the other writes as it stands. -/
theorem Waits.settledOr (waits : Waits gap depth t) :
    SettledOr selector (c :: cs) t ((stepPlain selector ⟨.plain, gap, depth⟩ c cs.head?).1
      ++ (stepPlain selector ⟨.plain, gap, depth⟩ c cs.head?).2.run selector cs) := by
  rw [stepPlain_eq]
  split
  next =>
    refine (ih _ _ (.outside rfl ?_)).mono c
    cases selector
    · exact waits.widen
    · exact waits
  next comment =>
    rw [Bool.and_eq_true, decide_eq_true_eq, decide_eq_true_eq] at comment
    split
    next => exact (ih _ _ (.outside rfl waits.widen)).mono c
    next blank =>
      rw [Bool.not_eq_true] at blank
      split
      next combines =>
        have tightens {mode : Mode} {gap' : Gap} (isOpen : mode.isOpen = true) (tight : gap' ≠ .spaced) :
            SettledOr selector (c :: cs) ⟨mode, gap', depth⟩ (c :: run selector ⟨.plain, .closed, depth⟩ cs) := by
          obtain ⟨keeps, reads⟩ := keeps_of_combinator isOpen tight combines
          refine .cons keeps ?_
          rw [reads]
          exact (ih _ _ (.outside rfl .closed)).mono c
        cases waits with
        | closed => exact tightens rfl (by simp)
        | apart more isOpen => exact tightens isOpen (by simp)
      next combines =>
        rw [Bool.not_eq_true] at combines
        cases waits with
        | closed => exact settledOr_letter ih rfl (.inl rfl) comment blank combines
        | apart more isOpen =>
          cases gap with
          | closed => exact absurd rfl more
          | joined => exact settledOr_letter ih isOpen (.inr rfl) comment blank combines
          | spaced =>
            obtain ⟨keeps, gap, reads⟩ := keeps_of_space isOpen
            refine .cons keeps ?_
            rw [reads]
            exact settledOr_letter ih rfl (.inl rfl) comment blank combines

end Run

theorem Trails.settledOr (h : Trails s t) : SettledOr selector cs t (s.run selector cs) := by
  induction cs generalizing s t with
  | nil =>
    refine .inl ?_
    cases h with
    | inside => rfl
    | outside _ waits => cases waits <;> rfl
  | cons c cs ih =>
    have ih : ∀ s t, Trails s t → SettledOr selector cs t (s.run selector cs) := fun _ _ => ih
    rw [run_cons]
    cases h with
    | @outside mode gap depth t outside waits =>
      cases mode with
      | plain => exact waits.settledOr ih
      | commentStar => exact (ih ⟨.comment, gap, depth⟩ t (.outside rfl waits)).mono c
      | comment =>
        refine (ih ⟨if c = '*' && cs.head? = some '/' then .commentSlash else .comment, gap, depth⟩ t
          (.outside ?_ waits)).mono c
        split <;> rfl
      | commentSlash => exact (ih ⟨.plain, gap, depth⟩ t (.outside rfl waits)).mono c
      | _ => cases outside
    | @inside mode depth inside =>
      have both {d : Char} {mode' : Mode}
          (reads : ∀ next, step selector ⟨mode, .joined, depth⟩ d next = ([d], ⟨mode', .joined, depth⟩))
          (goes : mode'.isOutside = true → mode'.isOpen = true) :
          SettledOr selector (c :: cs) ⟨mode, .joined, depth⟩ ([d] ++ run selector ⟨mode', .joined, depth⟩ cs) := by
        refine .cons (by simp [Keeps, reads, Gap.text]) ?_
        rw [reads]
        exact (ih _ _ (trails_same goes depth)).mono c
      cases mode with
      | string quote =>
        refine both (fun _ => rfl) ?_
        split
        next => simp [Mode.isOutside]
        next => split <;> simp [Mode.isOutside, Mode.isOpen]
      | stringEscape quote => exact both (fun _ => rfl) (by simp [Mode.isOutside])
      | escape => exact both (fun _ => rfl) (by split <;> simp [Mode.isOpen])
      | hex more =>
        simp only [step]
        split
        next digit => exact both (fun _ => by simp only [step, digit, if_true]) (by simp [Mode.isOpen])
        split
        next => exact both (fun _ => by simp [step, isHexDigit, isBlank]) (by simp [Mode.isOpen])
        next =>
          have waits : Waits .joined depth ⟨.hex more, .joined, depth⟩ := .apart (by simp) rfl
          exact waits.settledOr ih
      | _ => cases inside

/-- The normal form of a text is written as it stands, or a comment is met in it. -/
theorem settledOr_start (selector : Bool) (cs : List Char) :
    SettledOr selector cs start (start.run selector cs) :=
  Trails.settledOr (.outside rfl .closed)

/-! ## Comments make a text shorter -/

theorem modeAfter_ne_commentStar (c : Char) : modeAfter c ≠ .commentStar := by
  unfold modeAfter
  split
  next => simp
  next => split <;> simp

/-- What a step writes and leaves due is no longer than what it reads, and shorter where a comment opens in a selector. -/
theorem length_step (selector : Bool) (s : Normalizer) (c : Char) (next : Option Char) :
    (s.step selector c next).1.length + (s.step selector c next).2.gap.text.length
      + (if selector ∧ (s.step selector c next).2.mode = .commentStar then 1 else 0) ≤ s.gap.text.length + 1 := by
  obtain ⟨mode, gap, depth⟩ := s
  have widened : gap.widen.text.length ≤ gap.text.length + 1 := by cases gap <;> simp [Gap.widen, Gap.text]
  have plainly : (stepPlain selector ⟨mode, gap, depth⟩ c next).1.length
      + (stepPlain selector ⟨mode, gap, depth⟩ c next).2.gap.text.length
      + (if selector ∧ (stepPlain selector ⟨mode, gap, depth⟩ c next).2.mode = .commentStar then 1 else 0)
        ≤ gap.text.length + 1 := by
    rw [stepPlain_eq]
    split
    next =>
      cases selector with
      | true => simp
      | false => simpa using widened
    split
    next => simpa using widened
    split
    next => simp [Gap.text]
    next => simp [put, modeAfter_ne_commentStar, Gap.text]
  cases mode with
  | plain => exact plainly
  | hex more =>
    simp only [step]
    split
    next => simp; omega
    split
    next => simp; omega
    next => exact plainly
  | commentStar | commentSlash => simp [step]
  | comment => simp only [step]; split <;> simp
  | escape => simp only [step]; split <;> simp <;> omega
  | stringEscape quote => simp [step]; omega
  | string quote =>
    simp only [step]
    split
    next => simp; omega
    next => split <;> simp <;> omega

/-- What is written for a text is no longer than the text. -/
theorem length_run_le (selector : Bool) (s : Normalizer) (cs : List Char) :
    (s.run selector cs).length + (if selector ∧ s.meetsComment selector cs then 1 else 0)
      ≤ s.gap.text.length + cs.length := by
  induction cs generalizing s with
  | nil => simp [run, meetsComment]
  | cons c cs ih =>
    have here := length_step selector s c cs.head?
    have later := ih (s.step selector c cs.head?).2
    rw [run_cons, List.length_append, List.length_cons, meetsComment]
    by_cases opens : (s.step selector c cs.head?).2.mode = .commentStar
    · simp only [opens, decide_true, Bool.true_or, and_true] at here ⊢
      omega
    · simp only [opens, decide_false, Bool.false_or, and_false, if_false] at here ⊢
      omega

/-- A step that opens a comment does not write the slash that it reads. -/
theorem mode_of_keeps (keeps : Keeps selector s c next) : (s.step selector c next).2.mode ≠ .commentStar := by
  obtain ⟨mode, gap, depth⟩ := s
  -- no gap is written as a slash
  have apart (gap' : Gap) : [] ++ gap'.text ≠ gap.text ++ ['/'] := by
    cases gap' <;> cases gap <;> simp [Gap.text]
  have plainly (same : step selector ⟨mode, gap, depth⟩ c next = stepPlain selector ⟨mode, gap, depth⟩ c next) :
      (step selector ⟨mode, gap, depth⟩ c next).2.mode ≠ .commentStar := by
    rw [Keeps, same, stepPlain_eq] at keeps
    rw [same, stepPlain_eq]
    by_cases comment : (c = '/' && next = some '*') = true
    · rw [if_pos comment] at keeps
      obtain rfl : c = '/' := by simpa using (Bool.and_eq_true_iff.1 comment).1
      exact absurd keeps (apart _)
    · rw [if_neg comment]
      split
      next => simp
      split
      next => simp
      next => exact modeAfter_ne_commentStar c
  cases mode with
  | plain => exact plainly rfl
  | hex more =>
    by_cases digit : (isHexDigit c && more ≠ 0) = true
    · simp only [step]
      rw [if_pos digit]
      simp
    · cases blank : isBlank c with
      | true =>
        simp only [step]
        rw [if_neg digit, if_pos blank]
        simp
      | false =>
        apply plainly
        simp only [step]
        rw [if_neg digit, blank, if_neg Bool.false_ne_true]
  | string quote =>
    simp only [step]
    split
    next => simp
    next => split <;> simp
  | comment => simp only [step]; split <;> simp
  | escape => simp only [step]; split <;> simp
  | _ => simp [step]

theorem Settled.meetsComment (h : Settled selector s cs) : s.meetsComment selector cs = false := by
  induction cs generalizing s with
  | nil => rfl
  | cons c cs ih =>
    obtain ⟨keeps, later⟩ := h
    rw [Normalizer.meetsComment, ih later, Bool.or_false]
    exact decide_eq_false (mode_of_keeps keeps)

end Normalizer

open Normalizer

/-! ## Normalizing twice -/

theorem settled_collapse (s : String) : Settled false start (collapse s).toList := by
  rcases settledOr_start false s.toList with settled | ⟨-, e, -⟩
  · rw [collapse, String.toList_ofList]
    exact settled
  · cases e

/-- Text that is written as it stands is collapsed. -/
theorem collapse_eq_self {s : String} (settled : Settled false start s.toList) : collapse s = s := by
  rw [collapse, settled.run_eq]
  exact String.ofList_toList

/-- **Collapsing twice is collapsing once.** -/
theorem collapse_collapse (s : String) : collapse (collapse s) = collapse s := collapse_eq_self (settled_collapse s)

/-- Whether there is a comment in a selector, be it closed or not. -/
def holdsComment (selector : String) : Bool := start.meetsComment true selector.toList

/-- **Normalizing a selector twice is normalizing it once, exactly if no comment is left in its normal form.** -/
theorem normalizeSelector_again_iff (s : String) :
    normalizeSelector (normalizeSelector s) = normalizeSelector s ↔ holdsComment (normalizeSelector s) = false := by
  constructor
  · intro again
    refine Bool.eq_false_iff.2 fun holds => ?_
    have size := length_run_le true start (normalizeSelector s).toList
    rw [if_pos ⟨rfl, holds⟩] at size
    have same : (start.run true (normalizeSelector s).toList).length = (normalizeSelector s).toList.length := by
      rw [← String.toList_ofList (l := start.run true _)]
      exact congrArg (fun t => t.toList.length) again
    rw [same] at size
    have none : start.gap.text.length = 0 := rfl
    omega
  · intro free
    rw [holdsComment, normalizeSelector, String.toList_ofList] at free
    rcases settledOr_start true s.toList with settled | ⟨meets, -⟩
    · rw [normalizeSelector, normalizeSelector, String.toList_ofList, settled.run_eq]
      rfl
    · rw [free] at meets
      cases meets

/-- **What leaves a comment**: a selector whose normal form holds one is torn. -/
theorem torn_of_holdsComment {s : String} (holds : holdsComment (normalizeSelector s) = true) : Torn s.toList := by
  rw [holdsComment, normalizeSelector, String.toList_ofList] at holds
  rcases settledOr_start true s.toList with settled | ⟨-, -, torn⟩
  · rw [settled.meetsComment] at holds
    cases holds
  · exact torn

/-- A selector with no comment between a slash and a star is normalized once and for all. -/
theorem normalizeSelector_again {s : String} (whole : ¬Torn s.toList) :
    normalizeSelector (normalizeSelector s) = normalizeSelector s :=
  (normalizeSelector_again_iff s).2 (Bool.eq_false_iff.2 fun holds => whole (torn_of_holdsComment holds))

/-- A comment that stood between the two leaves them side by side, and all behind them in another comment. -/
example : normalizeSelector "a//**/*b" = "a/*b" ∧ normalizeSelector "a/*b" = "a" := by decide +kernel

end AboveFold.Text
