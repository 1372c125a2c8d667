import AboveFold.Proofs.Text.NormalForm

/-!
# Normal forms in any case

The machine that normalizes texts goes through the same states whatever the case of the letters: all that it looks for
are blanks, marks and digits, and no letter in lower case is one that was none before. What it writes is thus in lower
case what it writes of the text in lower case (`Normalizer.run_toLower`), and it does not matter whether a text is
collapsed first or put into lower case first (`collapse_lower`).
-/

namespace AboveFold.Text

/-! ## Characters -/

theorem isAlpha_toLower (c : Char) : c.toLower.isAlpha = c.isAlpha := toLower_congr (by decide) c

/-- Only letters change, and into letters. -/
theorem toLower_eq_iff {c d : Char} (other : d.isAlpha = false) : c.toLower = d ↔ c = d := by
  cases letter : c.isAlpha with
  | true =>
    have ne {e : Char} (letter : e.isAlpha = true) : e ≠ d := by
      rintro rfl
      rw [letter] at other
      cases other
    exact iff_of_false (ne ((isAlpha_toLower c).trans letter)) (ne letter)
  | false =>
    have same : (if c.toLower.isAlpha then none else some c.toLower) = if c.isAlpha then none else some c :=
      toLower_congr (f := fun c => if c.isAlpha then none else some c) (by decide) c
    rw [isAlpha_toLower, letter] at same
    rw [Option.some.inj same]

theorem map_toLower_eq_some_iff {next : Option Char} {d : Char} (other : d.isAlpha = false) :
    next.map Char.toLower = some d ↔ next = some d := by
  cases next with
  | none => rfl
  | some c => simp [toLower_eq_iff other]

theorem isBlank_toLower (c : Char) : isBlank c.toLower = isBlank c := toLower_congr (by decide) c

theorem isHexDigit_toLower (c : Char) : isHexDigit c.toLower = isHexDigit c := toLower_congr (by decide) c

theorem modeAfter_toLower (c : Char) : modeAfter c.toLower = modeAfter c := toLower_congr (by decide) c

theorem depthAfter_toLower (depth : Nat) (c : Char) : depthAfter depth c.toLower = depthAfter depth c := by
  simp (disch := decide) only [depthAfter, toLower_eq_iff]

theorem isCombinator_toLower (selector : Bool) (depth : Nat) (c : Char) :
    isCombinator selector depth c.toLower = isCombinator selector depth c := by
  simp (disch := decide) only [isCombinator, toLower_eq_iff]

@[simp] theorem Gap.map_text (gap : Gap) : gap.text.map Char.toLower = gap.text := by
  cases gap <;> rfl

/-! ## The machine -/

/-- No string ends at a letter. -/
def Mode.IsQuoted : Mode → Prop
  | .string quote | .stringEscape quote => quote.isAlpha = false
  | _ => True

theorem isQuoted_modeAfter (c : Char) : (modeAfter c).IsQuoted := by
  unfold modeAfter
  split
  next quote =>
    rcases (by simpa using quote : c = '\x22' ∨ c = '\x27') with rfl | rfl <;> rfl
  next => split <;> trivial

namespace Normalizer

variable {selector : Bool} {s : Normalizer} {c : Char} {cs : List Char} {next : Option Char}

theorem isQuoted_stepPlain (selector : Bool) (s : Normalizer) (c : Char) (next : Option Char) :
    (s.stepPlain selector c next).2.mode.IsQuoted := by
  rw [stepPlain_eq]
  split
  next => trivial
  split
  next => trivial
  split
  next => trivial
  next => exact isQuoted_modeAfter c

theorem isQuoted_step (quoted : s.mode.IsQuoted) : (s.step selector c next).2.mode.IsQuoted := by
  obtain ⟨mode, gap, depth⟩ := s
  cases mode with
  | plain => exact isQuoted_stepPlain ..
  | hex more =>
    simp only [step]
    split
    next => trivial
    split
    next => trivial
    next => exact isQuoted_stepPlain ..
  | string quote =>
    simp only [step]
    split
    next => exact quoted
    next => split <;> first | exact quoted | trivial
  | stringEscape quote => exact quoted
  | comment | escape =>
    simp only [step]
    split <;> trivial
  | commentStar | commentSlash => trivial

theorem stepPlain_toLower (selector : Bool) (s : Normalizer) (c : Char) (next : Option Char) :
    s.stepPlain selector c.toLower (next.map Char.toLower)
      = ((s.stepPlain selector c next).1.map Char.toLower, (s.stepPlain selector c next).2) := by
  simp (disch := decide) only [stepPlain_eq, toLower_eq_iff, map_toLower_eq_some_iff, isBlank_toLower,
    isCombinator_toLower, modeAfter_toLower, depthAfter_toLower, put]
  split
  next => rfl
  split
  next => rfl
  split
  next => rfl
  next => simp

/-- A step over a character in lower case writes in lower case what it writes, and leads to the same state. -/
theorem step_toLower (quoted : s.mode.IsQuoted) :
    s.step selector c.toLower (next.map Char.toLower)
      = ((s.step selector c next).1.map Char.toLower, (s.step selector c next).2) := by
  obtain ⟨mode, gap, depth⟩ := s
  cases mode with
  | plain => exact stepPlain_toLower ..
  | hex more =>
    simp only [step, isHexDigit_toLower, isBlank_toLower, stepPlain_toLower]
    split
    next => rfl
    split <;> rfl
  | string quote =>
    have ends : c.toLower = quote ↔ c = quote := toLower_eq_iff quoted
    simp (disch := decide) only [step, ends, toLower_eq_iff, List.map_cons, List.map_nil]
  | comment =>
    simp (disch := decide) only [step, toLower_eq_iff, map_toLower_eq_some_iff, List.map_nil]
  | escape => simp only [step, isHexDigit_toLower, List.map_cons, List.map_nil]
  | stringEscape quote | commentStar | commentSlash => rfl

/-- What the machine writes for a text in lower case. -/
theorem run_toLower (quoted : s.mode.IsQuoted) (cs : List Char) :
    s.run selector (cs.map Char.toLower) = (s.run selector cs).map Char.toLower := by
  induction cs generalizing s with
  | nil => rfl
  | cons c cs ih =>
    rw [List.map_cons, run_cons, run_cons, List.head?_map, step_toLower quoted, ih (isQuoted_step quoted),
      List.map_append]

end Normalizer

/-- **Text is collapsed the same way in any case.** -/
theorem collapse_lower (s : String) : collapse (lower s) = lower (collapse s) := by
  simp only [collapse, lower, Normalizer.run_toLower (s := .start) trivial, String.toList_ofList]

/-- And so are selectors brought into normal form. -/
theorem normalizeSelector_lower (s : String) : normalizeSelector (lower s) = lower (normalizeSelector s) := by
  simp only [normalizeSelector, lower, Normalizer.run_toLower (s := .start) trivial, String.toList_ofList]

end AboveFold.Text
