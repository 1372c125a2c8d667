/-!
# ASCII classes and case

The character classes that stylesheet syntax is written in. All of them are ASCII: a letter outside
ASCII is never blank, never a digit, and has no other case here.
-/

namespace AboveFold.Text

/-- A blank of stylesheet syntax: space, tab, line feed, carriage return or form feed. -/
def isBlank (c : Char) : Bool :=
  c = ' ' || c = '\t' || c = '\n' || c = '\r' || c = '\x0c'

/-- A character that ends a line: line feed, carriage return or form feed. -/
def isLineEnd (c : Char) : Bool :=
  c = '\n' || c = '\r' || c = '\x0c'

/-- A hexadecimal digit in either case. -/
def isHexDigit (c : Char) : Bool :=
  c.isDigit || ('a' ≤ c && c ≤ 'f') || ('A' ≤ c && c ≤ 'F')

/-- The value of a hexadecimal digit. -/
def hexValue (c : Char) : Nat :=
  if c.isDigit then c.toNat - 48 else c.toLower.toNat - 87

/-- The number that digits spell in a base. -/
def digitsValue (base : Nat) (cs : List Char) : Nat :=
  cs.foldl (fun n c => n * base + hexValue c) 0

/-- A character of ASCII. -/
def isAscii (c : Char) : Bool :=
  c.toNat < 128

/-- ASCII letters in lower case, all other characters as they are. -/
def lower (s : String) : String :=
  String.ofList (s.toList.map Char.toLower)

/-- Equality up to the case of ASCII letters. -/
def eqIgnoreCase (a b : String) : Bool :=
  a.toList.map Char.toLower == b.toList.map Char.toLower

@[simp] theorem toList_lower (s : String) : (lower s).toList = s.toList.map Char.toLower := by
  simp [lower]

theorem eqIgnoreCase_iff {a b : String} : eqIgnoreCase a b = true ↔ lower a = lower b := by
  simp [eqIgnoreCase, lower, String.ofList_inj]

/-- What holds of all characters of ASCII can be tried out. -/
theorem ascii_forall {p : Char → Prop} {c : Char} (all : ∀ n : Fin 128, p (Char.ofNat n)) (ascii : isAscii c = true) :
    p c := by
  have small : c.toNat < 128 := by simpa [isAscii] using ascii
  simpa using all ⟨c.toNat, small⟩

/-- What is the same for every character of ASCII in lower case is the same for all. -/
theorem toLower_congr {α : Type} {f : Char → α} (ascii : ∀ n : Fin 128, f (Char.ofNat n).toLower = f (Char.ofNat n))
    (c : Char) : f c.toLower = f c := by
  cases small : isAscii c with
  | true => exact ascii_forall (p := fun c => f c.toLower = f c) ascii small
  | false =>
    have high : 128 ≤ c.toNat := by simpa [isAscii] using small
    have same : c.toLower = c := by
      unfold Char.toLower
      rw [dif_neg]
      rintro ⟨-, low⟩
      have low : c.toNat ≤ 90 := UInt32.le_iff_toNat_le.1 low
      omega
    rw [same]

theorem isBlank_of_isLineEnd {c : Char} (h : isLineEnd c = true) : isBlank c = true := by
  simp only [isLineEnd, isBlank, Bool.or_eq_true, decide_eq_true_eq] at *
  grind

end AboveFold.Text
