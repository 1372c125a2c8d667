import AboveFold.Proofs.Text.NormalForm
import AboveFold.Text.Lowercase

/-!
# Lower case leaves normal forms normal

A text in lower case stays as it is in lower case (`lowercase_lowercase`), and collapsed text stays collapsed
(`collapse_lowercase_collapse`). No letter has a lower case with a meaning of its own in the syntax of stylesheets,
and a digit of an escape stays one, so the machine that collapses texts goes through the same states.
-/

namespace AboveFold.Text

/-! ## The table of lower case -/

namespace Mapping

variable {m m' : Mapping} {n : Nat}

/-- Whether no image of a row of the first mapping is in a row of the second. Where two rows overlap, they have every
other code point, by turns. -/
def avoids (m m' : Mapping) : Bool :=
  m.all fun (lo, hi, step, image) => m'.all fun row =>
    Nat.blt (image + (hi - lo)) row.1 || Nat.blt row.2.1 image
      || (lo == hi || step == 2) && row.2.2.1 == 2 && image % 2 != row.1 % 2

/-- What a mapping does to a code point. -/
theorem apply_cases (m : Mapping) (n : Nat) : m.apply n = n
    ∨ ∃ lo hi step image, (lo, hi, step, image) ∈ m ∧ lo ≤ n ∧ n ≤ hi ∧ (n - lo) % step = 0
      ∧ m.apply n = n - lo + image := by
  unfold apply
  split
  next lo hi step image found =>
    have inside := List.find?_some found
    simp only [Bool.and_eq_true, decide_eq_true_eq, beq_iff_eq] at inside
    exact .inr ⟨lo, hi, step, image, List.mem_of_find?_eq_some found, inside.1.1, inside.1.2, inside.2, rfl⟩
  next => exact .inl rfl

/-- What is in no row stays. -/
theorem apply_eq_self (outside : ∀ lo hi step image, (lo, hi, step, image) ∈ m → ¬(lo ≤ n ∧ n ≤ hi ∧ (n - lo) % step = 0)) :
    m.apply n = n := by
  rcases m.apply_cases n with same | ⟨lo, hi, step, image, row, low, high, steps, -⟩
  · exact same
  · exact absurd ⟨low, high, steps⟩ (outside lo hi step image row)

theorem apply_cons_of_mem {lo hi step image : Nat} (low : lo ≤ n) (high : n ≤ hi) (steps : (n - lo) % step = 0) :
    apply ((lo, hi, step, image) :: m) n = n - lo + image := by
  rw [apply, List.find?_cons_of_pos (by simp [low, high, steps])]

theorem not_mem_of_avoids (avoids : m.avoids m' = true) {lo hi step image lo' hi' step' image' : Nat}
    (row : (lo, hi, step, image) ∈ m) (row' : (lo', hi', step', image') ∈ m') (low : lo ≤ n) (high : n ≤ hi)
    (steps : (n - lo) % step = 0) :
    ¬(lo' ≤ n - lo + image ∧ n - lo + image ≤ hi' ∧ (n - lo + image - lo') % step' = 0) := by
  have apart := List.all_eq_true.1 (List.all_eq_true.1 avoids _ row) _ row'
  simp only [Bool.or_eq_true, Bool.and_eq_true, Nat.blt_eq, beq_iff_eq, bne_iff_ne] at apart
  rintro ⟨low', high', steps'⟩
  rcases apart with (before | behind) | ⟨⟨rfl | rfl, rfl⟩, turns⟩ <;> omega

/-- A mapping that avoids its own rows maps a code point once and for all. -/
theorem apply_apply (avoids : m.avoids m = true) (n : Nat) : m.apply (m.apply n) = m.apply n := by
  rcases m.apply_cases n with same | ⟨lo, hi, step, image, row, low, high, steps, mapped⟩
  · rw [same, same]
  · rw [mapped]
    exact apply_eq_self fun _ _ _ _ row' => not_mem_of_avoids avoids row row' low high steps

end Mapping

/-- A capital letter I with a dot is in no row, but no letter is mapped to it either. -/
theorem avoids_lowerTable : lowerTable.avoids ((304, 304, 1, 105) :: lowerTable) = true := by decide +kernel

theorem image_lowerTable : lowerTable.all (fun (_, hi, _, image) => hi < 128 || 102 < image) = true := by
  decide +kernel

/-! ## The lower case of a letter -/

/-- Whether a character is its own lower case. -/
def IsLower (c : Char) : Prop := c ≠ '\u03a3' ∧ lowerChar c = [c]

instance (c : Char) : Decidable (IsLower c) := inferInstanceAs (Decidable (_ ∧ _))

/-- The characters that mean something to the machine that collapses texts, blanks apart. -/
def isMark (c : Char) : Bool := ['/', '*', '\x22', '\x27', '\\', '(', ')', '[', ']'].contains c

/-- Whether a character stands for itself, wherever it is in a text. -/
def isOrdinary (c : Char) : Bool := !isBlank c && !isMark c

theorem toNat_ofNat (n : Nat) : (Char.ofNat n).toNat = n ∨ Char.ofNat n = '\x00' := by
  by_cases valid : n.isValidChar
  · rw [Char.ofNat, dif_pos valid]
    exact .inl rfl
  · rw [Char.ofNat, dif_neg valid]
    exact .inr rfl

theorem isLower_ofNat {n : Nat} (lower : lowerTable.apply n = n) (other : n ≠ 304) : IsLower (Char.ofNat n) := by
  rcases toNat_ofNat n with valid | zero
  · have ne {c : Char} (h : n ≠ c.toNat) : Char.ofNat n ≠ c := by
      rintro rfl
      exact h valid.symm
    refine ⟨ne ?_, ?_⟩
    · rintro rfl
      exact absurd lower (by decide +kernel)
    · rw [lowerChar, if_neg (ne (c := '\u0130') other), valid, lower]
  · rw [zero]
    decide +kernel

/-- A capital letter I with a dot is no lower case. -/
theorem apply_lowerTable_ne (n : Nat) (other : n ≠ 304) : lowerTable.apply n ≠ 304 := by
  rcases lowerTable.apply_cases n with same | ⟨lo, hi, step, image, row, low, high, steps, mapped⟩
  · rwa [same]
  · rw [mapped]
    intro e
    refine Mapping.not_mem_of_avoids avoids_lowerTable row (List.mem_cons_self ..) low high steps ?_
    rw [e]
    exact ⟨Nat.le_refl _, Nat.le_refl _, rfl⟩

theorem avoids_self : lowerTable.avoids lowerTable = true := by
  have all := avoids_lowerTable
  simp only [Mapping.avoids, List.all_cons, List.all_eq_true, Bool.and_eq_true] at all ⊢
  exact fun row mem => (all row mem).2

/-- The lower case of a character is in lower case. -/
theorem isLower_of_mem_lowerChar {c d : Char} (mem : d ∈ lowerChar c) : IsLower d := by
  unfold lowerChar at mem
  split at mem
  next =>
    simp only [List.mem_cons, List.not_mem_nil, or_false] at mem
    rcases mem with rfl | rfl <;> decide +kernel
  next dotted =>
    obtain rfl := List.mem_singleton.1 mem
    refine isLower_ofNat (Mapping.apply_apply avoids_self _) (apply_lowerTable_ne _ ?_)
    intro e
    exact dotted (Char.toNat_inj.1 e)

theorem isLower_of_mem_lowerFrom {before cs : List Char} {d : Char} (mem : d ∈ lowerFrom before cs) : IsLower d := by
  induction cs generalizing before with
  | nil => cases mem
  | cons c cs ih =>
    rw [lowerFrom] at mem
    rcases List.mem_append.1 mem with here | later
    · split at here
      next =>
        obtain rfl := List.mem_singleton.1 here
        split <;> decide +kernel
      next => exact isLower_of_mem_lowerChar here
    · exact ih later

theorem lowerFrom_eq_self {before cs : List Char} (lower : ∀ c ∈ cs, IsLower c) : lowerFrom before cs = cs := by
  induction cs generalizing before with
  | nil => rfl
  | cons c cs ih =>
    simp only [List.mem_cons, forall_eq_or_imp] at lower
    obtain ⟨⟨other, here⟩, later⟩ := lower
    rw [lowerFrom, if_neg other, here, ih later]
    rfl

/-- **The lower case of a text is in lower case.** -/
theorem lowercase_lowercase (s : String) : lowercase (lowercase s) = lowercase s := by
  rw [lowercase, lowercase, String.toList_ofList, lowerFrom_eq_self fun _ mem => isLower_of_mem_lowerFrom mem]

/-! ## Lower case and the machine -/

/-- A character that stands for itself, and that no machine can tell from another that does. -/
def Alike (c d : Char) : Prop := isOrdinary d = true ∧ isHexDigit d = isHexDigit c

instance (c d : Char) : Decidable (Alike c d) := inferInstanceAs (Decidable (_ ∧ _))

theorem isOrdinary_of_lt {c : Char} (big : 102 < c.toNat) : isOrdinary c = true ∧ isHexDigit c = false := by
  constructor
  · rw [← Bool.not_eq_false]
    intro means
    simp only [isOrdinary, isBlank, isMark, Bool.and_eq_false_iff, Bool.not_eq_false', Bool.or_eq_true,
      decide_eq_true_eq, List.contains_eq_mem, List.mem_cons, List.not_mem_nil, or_false, or_assoc] at means
    rcases means with rfl | rfl | rfl | rfl | rfl | rfl | rfl | rfl | rfl | rfl | rfl | rfl | rfl | rfl <;>
      exact absurd big (by decide)
  · have big : 102 < c.val.toNat := big
    simp only [isHexDigit, Char.isDigit, Bool.or_eq_false_iff, Bool.and_eq_false_iff, decide_eq_false_iff_not,
      Char.le_def, UInt32.le_iff_toNat_le, ge_iff_le]
    refine ⟨⟨.inr ?_, .inr ?_⟩, .inr ?_⟩ <;> simp <;> omega

/-- In ASCII the table maps the capital letters. -/
theorem lowerTable_of_isAscii {c : Char} (ascii : isAscii c = true) :
    Char.ofNat (lowerTable.apply c.toNat) = c.toLower := by
  have small : c.toNat < 128 := by simpa [isAscii] using ascii
  by_cases capital : 65 ≤ c.toNat ∧ c.toNat ≤ 90
  · have first : lowerTable.apply c.toNat = c.toNat - 65 + 97 :=
      Mapping.apply_cons_of_mem capital.1 capital.2 (Nat.mod_one _)
    rw [first]
    exact ascii_forall (p := fun c => 65 ≤ c.toNat ∧ c.toNat ≤ 90 → Char.ofNat (c.toNat - 65 + 97) = c.toLower)
      (by decide +kernel) ascii capital
  · have rows : ∀ row ∈ lowerTable, row.1 = 65 ∧ row.2.1 = 90 ∨ 128 ≤ row.1 := by decide +kernel
    have same : lowerTable.apply c.toNat = c.toNat := by
      refine Mapping.apply_eq_self fun lo hi step image row => ?_
      rintro ⟨low, high, -⟩
      rcases rows _ row with ⟨rfl, rfl⟩ | wide
      · exact capital ⟨low, high⟩
      · exact absurd (Nat.lt_of_lt_of_le small wide) (Nat.not_lt.2 low)
    rw [same]
    exact ascii_forall (p := fun c => ¬(65 ≤ c.toNat ∧ c.toNat ≤ 90) → Char.ofNat c.toNat = c.toLower)
      (by decide +kernel) ascii capital

theorem alike_lowerTable {c : Char} (ordinary : isOrdinary c = true) :
    Alike c (Char.ofNat (lowerTable.apply c.toNat)) := by
  cases ascii : isAscii c with
  | true =>
    rw [lowerTable_of_isAscii ascii]
    exact ascii_forall (p := fun c => isOrdinary c = true → Alike c c.toLower) (by decide +kernel) ascii ordinary
  | false =>
    have high : 128 ≤ c.toNat := by simpa [isAscii] using ascii
    have big : 102 < lowerTable.apply c.toNat := by
      rcases lowerTable.apply_cases c.toNat with same | ⟨lo, hi, step, image, row, -, below, -, mapped⟩
      · omega
      · have image := List.all_eq_true.1 image_lowerTable _ row
        simp only [Bool.or_eq_true, decide_eq_true_eq] at image
        omega
    rw [Alike, (isOrdinary_of_lt (by omega : 102 < c.toNat)).2]
    rcases toNat_ofNat (lowerTable.apply c.toNat) with valid | zero
    · exact isOrdinary_of_lt (by omega)
    · rw [zero]
      decide

/-- What a character is in lower case, as the machine sees it. -/
inductive Replaces (c : Char) : List Char → Prop where
  | same (means : isOrdinary c = false) : Replaces c [c]
  | one {d : Char} (ordinary : isOrdinary c = true) (alike : Alike c d) : Replaces c [d]
  | two {d e : Char} (ordinary : isOrdinary c = true) (digit : isHexDigit c = false) (alike : Alike c d)
      (alike' : Alike c e) : Replaces c [d, e]

theorem replaces_lowerFrom (before : List Char) (c : Char) (cs : List Char) :
    ∃ here, lowerFrom before (c :: cs) = here ++ lowerFrom (c :: before) cs ∧ Replaces c here := by
  refine ⟨_, rfl, ?_⟩
  split
  next sigma =>
    subst sigma
    refine .one (by decide +kernel) ?_
    split <;> decide +kernel
  next =>
    unfold lowerChar
    split
    next dotted =>
      subst dotted
      exact .two (by decide +kernel) (by decide +kernel) (by decide +kernel) (by decide +kernel)
    next =>
      cases ordinary : isOrdinary c with
      | true => exact .one ordinary (alike_lowerTable ordinary)
      | false =>
        have ascii : isAscii c = true := by
          rw [← Bool.not_eq_false]
          intro wide
          have wide : 128 ≤ c.toNat := by simpa [isAscii] using wide
          rw [(isOrdinary_of_lt (by omega)).1] at ordinary
          cases ordinary
        have same : c.toLower = c :=
          ascii_forall (p := fun c => isOrdinary c = false → c.toLower = c) (by decide +kernel) ascii ordinary
        rw [lowerTable_of_isAscii ascii, same]
        exact .same ordinary

theorem head?_lowerFrom (before cs : List Char) :
    (lowerFrom before cs).head? = some '*' ↔ cs.head? = some '*' := by
  cases cs with
  | nil => rfl
  | cons c cs =>
    have ne {d : Char} (ordinary : isOrdinary d = true) : d ≠ '*' := by
      rintro rfl
      cases ordinary
    obtain ⟨here, e, replaces⟩ := replaces_lowerFrom before c cs
    rw [e]
    cases replaces with
    | same means => rfl
    | one ordinary alike | two ordinary digit alike alike' => simp [ne ordinary, ne alike.1]

namespace Normalizer

variable {s : Normalizer} {c : Char} {cs : List Char} {next next' : Option Char}

/-- The machine after a character that stands for itself; `digit` says whether it is a hexadecimal digit. -/
def past (s : Normalizer) (digit : Bool) : Normalizer :=
  match s.mode with
  | .string quote | .stringEscape quote => ⟨.string quote, .joined, s.depth⟩
  | .escape => ⟨if digit then .hex 5 else .plain, .joined, s.depth⟩
  | .hex more => ⟨if digit && more ≠ 0 then .hex (more - 1) else .plain, .joined, s.depth⟩
  | _ => ⟨.plain, .joined, s.depth⟩

/-- The machine is in no comment, and in a string or an escape no space is due. -/
def Upright (s : Normalizer) : Prop :=
  match s.mode with
  | .plain => True
  | .string quote | .stringEscape quote => s.gap = .joined ∧ isMark quote = true
  | .escape | .hex _ => s.gap = .joined
  | _ => False

theorem Upright.past (upright : s.Upright) (digit : Bool) : (s.past digit).Upright := by
  obtain ⟨mode, gap, depth⟩ := s
  cases mode with
  | string quote | stringEscape quote => exact ⟨rfl, upright.2⟩
  | escape | hex more =>
    simp only [Normalizer.past]
    split <;> first | rfl | trivial
  | _ => trivial

theorem gap_past (s : Normalizer) (digit : Bool) : (s.past digit).gap = .joined := by
  obtain ⟨mode, gap, depth⟩ := s
  cases mode <;> rfl

theorem past_past (s : Normalizer) : (s.past false).past false = s.past false := by
  obtain ⟨mode, gap, depth⟩ := s
  cases mode <;> rfl

theorem after_of_isOrdinary (ordinary : isOrdinary c = true) (depth : Nat) (next : Option Char) :
    (c = '/' && next = some '*') = false ∧ isBlank c = false ∧ modeAfter c = .plain ∧ depthAfter depth c = depth := by
  simp only [isOrdinary, isMark, Bool.and_eq_true, Bool.not_eq_true', List.contains_eq_mem, List.mem_cons,
    List.not_mem_nil, or_false, decide_eq_false_iff_not, not_or] at ordinary
  simp [modeAfter, depthAfter, ordinary]

/-- A character that stands for itself is written as it is. -/
theorem step_of_isOrdinary (upright : s.Upright) (ordinary : isOrdinary c = true) (next : Option Char) :
    step false s c next = (s.gap.text ++ [c], s.past (isHexDigit c)) := by
  obtain ⟨mode, gap, depth⟩ := s
  obtain ⟨comment, blank, mode', depth'⟩ := after_of_isOrdinary ordinary depth next
  have plainly (mode : Mode) : stepPlain false ⟨mode, gap, depth⟩ c next = (gap.text ++ [c], ⟨.plain, .joined, depth⟩) := by
    rw [stepPlain_eq, comment, blank, mode', depth']
    rfl
  have ne {d : Char} (mark : isMark d = true) : c ≠ d := by
    rintro rfl
    simp [isOrdinary, mark] at ordinary
  cases mode with
  | plain => exact plainly _
  | string quote =>
    obtain ⟨rfl, mark⟩ : gap = .joined ∧ isMark quote = true := upright
    simp [step, past, ne mark, ne (d := '\\') rfl, Gap.text]
  | stringEscape quote =>
    obtain ⟨rfl, -⟩ : gap = .joined ∧ isMark quote = true := upright
    rfl
  | escape =>
    obtain rfl : gap = .joined := upright
    rfl
  | hex more =>
    obtain rfl : gap = .joined := upright
    simp only [step, past, blank, plainly, Bool.false_eq_true, if_false]
    split <;> rfl
  | _ => cases upright

/-- No comment is begun where a text is written as it stands. -/
theorem Upright.step (upright : s.Upright) (keeps : Keeps false s c next) : (s.step false c next).2.Upright := by
  obtain ⟨mode, gap, depth⟩ := s
  have plainly {mode : Mode} (keeps : (stepPlain false ⟨mode, gap, depth⟩ c next).1
      ++ (stepPlain false ⟨mode, gap, depth⟩ c next).2.gap.text = gap.text ++ [c]) :
      (stepPlain false ⟨mode, gap, depth⟩ c next).2.Upright := by
    rw [stepPlain_eq] at keeps ⊢
    split at keeps
    next opens =>
      obtain ⟨rfl, -⟩ : c = '/' ∧ next = some '*' := by simpa using opens
      cases gap <;> simp [Gap.widen, Gap.text] at keeps
    next opens =>
      rw [if_neg opens]
      split
      next => trivial
      split
      next combines => simp [isCombinator] at combines
      next =>
        simp only [put, modeAfter]
        split
        next quote =>
          refine ⟨rfl, ?_⟩
          rcases (by simpa using quote : c = '\x22' ∨ c = '\x27') with rfl | rfl <;> rfl
        next => split <;> trivial
  cases mode with
  | plain => exact plainly keeps
  | string quote =>
    simp only [Normalizer.step]
    split
    next => exact upright
    next => split <;> first | exact upright | trivial
  | stringEscape quote => exact upright
  | escape =>
    simp only [Normalizer.step]
    split <;> first | exact upright | trivial
  | hex more =>
    simp only [Keeps, Normalizer.step] at keeps ⊢
    split
    next => exact upright
    next other =>
      rw [if_neg other] at keeps
      split
      next => trivial
      next blank =>
        rw [if_neg blank] at keeps
        exact plainly keeps
  | _ => cases upright

/-- Of what follows, the machine sees whether it is a star. -/
theorem step_next (upright : s.Upright) (same : next' = some '*' ↔ next = some '*') :
    step false s c next' = step false s c next := by
  have plainly (s : Normalizer) : stepPlain false s c next' = stepPlain false s c next := by
    rw [stepPlain_eq, stepPlain_eq]
    simp only [same]
  obtain ⟨mode, gap, depth⟩ := s
  cases mode with
  | plain => exact plainly _
  | hex more =>
    simp only [step]
    rw [plainly]
  | commentStar | comment | commentSlash => cases upright
  | _ => rfl

theorem Settled.replace {here rest : List Char} (upright : s.Upright) (replaces : Replaces c here)
    (keeps : Keeps false s c next) (same : rest.head? = some '*' ↔ next = some '*')
    (later : Settled false (s.step false c next).2 rest) : Settled false s (here ++ rest) := by
  have writes {s : Normalizer} {d : Char} {next : Option Char} (upright : s.Upright) (ordinary : isOrdinary d = true) :
      Keeps false s d next := by
    rw [Keeps, step_of_isOrdinary upright ordinary, gap_past]
    exact List.append_nil _
  cases replaces with
  | same means =>
    change Keeps false s c rest.head? ∧ Settled false (s.step false c rest.head?).2 rest
    rw [Keeps, step_next upright same]
    exact ⟨keeps, later⟩
  | one ordinary alike =>
    rw [step_of_isOrdinary upright ordinary, ← alike.2] at later
    refine ⟨writes upright alike.1, ?_⟩
    rw [step_of_isOrdinary upright alike.1]
    exact later
  | two ordinary digit alike alike' =>
    rw [step_of_isOrdinary upright ordinary, digit] at later
    refine ⟨writes upright alike.1, ?_⟩
    rw [step_of_isOrdinary upright alike.1, alike.2, digit]
    refine ⟨writes (upright.past _) alike'.1, ?_⟩
    rw [step_of_isOrdinary (upright.past _) alike'.1, alike'.2, digit, past_past]
    exact later

theorem Settled.lowerFrom (settled : Settled false s cs) (upright : s.Upright) (before : List Char) :
    Settled false s (lowerFrom before cs) := by
  induction cs generalizing s before with
  | nil => exact settled
  | cons c cs ih =>
    obtain ⟨keeps, later⟩ := settled
    obtain ⟨here, e, replaces⟩ := replaces_lowerFrom before c cs
    rw [e]
    exact .replace upright replaces keeps (head?_lowerFrom _ cs) (ih later (upright.step keeps) _)

end Normalizer

open Normalizer

/-- **Collapsed text in lower case is collapsed.** -/
theorem collapse_lowercase_collapse (s : String) : collapse (lowercase (collapse s)) = lowercase (collapse s) := by
  refine collapse_eq_self ?_
  rw [lowercase, String.toList_ofList]
  exact (settled_collapse s).lowerFrom trivial []

end AboveFold.Text
