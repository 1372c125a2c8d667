import AboveFold.Proofs.Text.LowerCase
import AboveFold.Prune.Fonts
import Mathlib.Data.List.Basic

/-!
# Names of fonts in normal form

The normal form of a family has one pair of quotes less than the family, so a normal form with quotes around it has
another. All others stay as they are (`Font.normalize_again_iff`).
-/

namespace AboveFold
open Text Normalizer

/-- Text has no quotes around it, or they are taken off. -/
theorem stripQuotes_cases (s : String) :
    stripQuotes s = s ∨ ∃ q, s.toList = q :: (stripQuotes s).toList ++ [q] := by
  unfold stripQuotes
  split
  next q inner e =>
    split
    next quoted =>
      simp only [Bool.and_eq_true, decide_eq_true_eq] at quoted
      refine .inr ⟨q, ?_⟩
      rw [e, String.toList_ofList, List.cons_append, List.dropLast_append_getLast? q quoted.2]
    next => exact .inl rfl
  next => exact .inl rfl

/-! ## What is written for a text -/

namespace Text.Normalizer

/-- A step writes the character that it reads, and spaces. -/
theorem mem_step {selector : Bool} {s : Normalizer} {c d : Char} {next : Option Char}
    (mem : d ∈ (s.step selector c next).1) : d = c ∨ d = ' ' := by
  have spaces {gap : Gap} (mem : d ∈ gap.text) : d = ' ' := by
    cases gap <;> simp [Gap.text] at mem
    exact mem
  have plainly {s : Normalizer} (mem : d ∈ (s.stepPlain selector c next).1) : d = c ∨ d = ' ' := by
    rw [stepPlain_eq] at mem
    split at mem
    next => cases mem
    split at mem
    next => cases mem
    split at mem
    next => exact .inl (List.mem_singleton.1 mem)
    next =>
      rcases List.mem_append.1 mem with gap | here
      · exact .inr (spaces gap)
      · exact .inl (List.mem_singleton.1 here)
  obtain ⟨mode, gap, depth⟩ := s
  cases mode with
  | plain => exact plainly mem
  | hex more =>
    simp only [step] at mem
    split at mem
    next => exact .inl (List.mem_singleton.1 mem)
    split at mem
    next => exact .inr (List.mem_singleton.1 mem)
    next => exact plainly mem
  | commentStar | comment | commentSlash => cases mem
  | _ => exact .inl (List.mem_singleton.1 mem)

/-- Nothing is written for a text but its characters and spaces. -/
theorem mem_run {selector : Bool} {s : Normalizer} {cs : List Char} {d : Char} (mem : d ∈ s.run selector cs) :
    d ∈ cs ∨ d = ' ' := by
  induction cs generalizing s with
  | nil => cases mem
  | cons c cs ih =>
    rw [run_cons] at mem
    rcases List.mem_append.1 mem with here | later
    · rcases mem_step here with rfl | space
      · exact .inl (List.mem_cons_self ..)
      · exact .inr space
    · exact (ih later).imp_left (List.mem_cons_of_mem _)

end Text.Normalizer

namespace Font

/-- **A family in normal form keeps its form, exactly if there are no quotes around it.** -/
theorem normalize_again_iff (family : String) :
    normalize (normalize family) = normalize family ↔ stripQuotes (normalize family) = normalize family := by
  have collapsed : collapse (normalize family) = normalize family := collapse_lowercase_collapse _
  have lower : ∀ c ∈ (normalize family).toList, IsLower c := by
    intro c mem
    rw [normalize, lowercase, String.toList_ofList] at mem
    exact isLower_of_mem_lowerFrom mem
  generalize normalize family = name at collapsed lower
  rw [normalize, collapsed]
  constructor
  · intro again
    rcases stripQuotes_cases name with bare | ⟨q, quoted⟩
    · exact bare
    · -- without the quotes it is shorter
      exfalso
      have inside : ∀ c ∈ (collapse (stripQuotes name)).toList, IsLower c := by
        intro c mem
        rw [collapse, String.toList_ofList] at mem
        rcases mem_run mem with inner | rfl
        · exact lower c (by rw [quoted]; simp [inner])
        · decide +kernel
      have same : collapse (stripQuotes name) = name := by
        rw [lowercase, lowerFrom_eq_self inside, String.ofList_toList] at again
        exact again
      have size := length_run_le false start (stripQuotes name).toList
      have size' : (start.run false (stripQuotes name).toList).length = name.toList.length := by
        rw [← String.toList_ofList (l := start.run false _)]
        exact congrArg (fun s => s.toList.length) same
      rw [size', quoted] at size
      have none : start.gap.text.length = 0 := rfl
      simp at size
      omega
  · intro bare
    rw [bare, collapsed, lowercase, lowerFrom_eq_self lower, String.ofList_toList]

/-- The second pair of quotes goes when the form is taken once more. -/
example : normalize "\"'X'\"" = "'x'" ∧ normalize "'x'" = "x" := by decide +kernel

end Font

end AboveFold
