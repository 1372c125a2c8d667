import AboveFold.Text.Ascii

/-!
# White space

The characters with the Unicode property `White_Space`, and what is left of a text without them at
its ends. Stylesheet syntax knows five of them (`isBlank_isWhiteSpace`).
-/

namespace AboveFold.Text

/-- A character with the Unicode property `White_Space`. -/
def isWhiteSpace (c : Char) : Bool :=
  let n := c.toNat
  (9 ≤ n && n ≤ 13) || n == 0x20 || n == 0x85 || n == 0xA0 || n == 0x1680
    || (0x2000 ≤ n && n ≤ 0x200A) || n == 0x2028 || n == 0x2029 || n == 0x202F || n == 0x205F
    || n == 0x3000

theorem isBlank_isWhiteSpace {c : Char} (h : isBlank c = true) : isWhiteSpace c = true := by
  simp only [isBlank, Bool.or_eq_true, decide_eq_true_eq] at h
  rcases h with (((rfl | rfl) | rfl) | rfl) | rfl <;> decide

/-- A list without the elements at its ends that satisfy `p`. -/
def trimBy {α : Type} (p : α → Bool) (l : List α) : List α :=
  ((l.dropWhile p).reverse.dropWhile p).reverse

/-- A text without white space at its ends. -/
def trim (cs : List Char) : List Char :=
  trimBy isWhiteSpace cs

end AboveFold.Text
