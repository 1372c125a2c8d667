import AboveFold.Source.Span
import Mathlib.Data.List.DropRight

/-!
# Positions counted from the text

A cursor keeps a line, two columns and the mark of a carriage return as it goes. `Position.after`
says what they have to be at the end of a text without going over it character by character: the
number of lines that end in it, and the size of what stands behind the last line end. The cursor is
right (`walk_start`), and so is the position that is worked out for an offset (`Position.of_append`).
-/

namespace AboveFold.Source
open Text

/-- The number of lines that end in a text. A carriage return and the line feed behind it end one. -/
def lineEnds : List Char → Nat
  | [] => 0
  | '\r' :: '\n' :: cs => lineEnds cs + 1
  | c :: cs => lineEnds cs + if isLineEnd c then 1 else 0

/-- What stands behind the last line end of a text. -/
def lastLine (cs : List Char) : List Char :=
  cs.rtakeWhile (fun c => !isLineEnd c)

/-- The number of 16-bit units that a text takes. -/
def size16 : List Char → Nat
  | [] => 0
  | c :: cs => units16 c + size16 cs

/-- The position at the end of a text. -/
def Position.after (text : List Char) : Position :=
  ⟨lineEnds text, (lastLine text).length, size16 (lastLine text), byteSize text⟩

example : Position.after "a\r\nb\n\rcd".toList = ⟨3, 2, 2, 8⟩ := by decide

theorem size16_append (a b : List Char) : size16 (a ++ b) = size16 a + size16 b := by
  induction a with
  | nil => simp [size16]
  | cons c a ih => simp [size16, ih, Nat.add_assoc]

/-- One more character ends one more line if it is a line end, unless it is the line feed of a pair. -/
theorem lineEnds_concat (cs : List Char) (d : Char) :
    lineEnds (cs ++ [d]) =
      lineEnds cs + if isLineEnd d && !(d = '\n' && cs.getLast? = some '\r') then 1 else 0 := by
  fun_induction lineEnds cs with
  | case1 => simp [lineEnds]
  | case2 cs ih =>
    have last : ('\r' :: '\n' :: cs).getLast? = some '\r' ↔ cs.getLast? = some '\r' := by
      cases cs <;> simp
    simp only [List.cons_append, lineEnds, ih, last]
    omega
  | case3 c cs pair ih =>
    cases cs with
    | nil =>
      by_cases c_eq : c = '\r' <;> by_cases d_eq : d = '\n'
      · subst c_eq d_eq
        decide
      all_goals simp [lineEnds, c_eq, d_eq, Nat.add_comm]
    | cons e cs =>
      have none_first : ∀ rest, c = '\r' → e :: cs ++ [d] = '\n' :: rest → False := by
        rintro rest rfl h
        obtain ⟨rfl, -⟩ := List.cons.inj h
        exact pair _ rfl rfl
      rw [List.cons_append, lineEnds.eq_3 _ _ none_first, ih, List.getLast?_cons_cons]
      omega

theorem lastLine_concat_of_isLineEnd {c : Char} (h : isLineEnd c = true) (cs : List Char) :
    lastLine (cs ++ [c]) = [] :=
  List.rtakeWhile_concat_neg _ _ _ (by simp [h])

theorem lastLine_concat {c : Char} (h : isLineEnd c = false) (cs : List Char) :
    lastLine (cs ++ [c]) = lastLine cs ++ [c] :=
  List.rtakeWhile_concat_pos _ _ _ (by simp [h])

theorem lastLine_of_getLast? {cs : List Char} {c : Char} (last : cs.getLast? = some c)
    (h : isLineEnd c = true) : lastLine cs = [] := by
  obtain ⟨front, rfl⟩ := List.getLast?_eq_some_iff.1 last
  exact lastLine_concat_of_isLineEnd h front

/-- A cursor that went over a text stands at its end, and knows whether a carriage return came last. -/
theorem Cursor.walk_start (text : List Char) :
    Cursor.start.walk text = ⟨.after text, text.getLast? = some '\r'⟩ := by
  induction text using List.reverseRecOn with
  | nil => rfl
  | append_singleton cs c ih =>
    have bytes : byteSize (cs ++ [c]) = byteSize cs + c.utf8Size := by simp [byteSize]
    rw [Cursor.walk_append, ih, Cursor.walk_cons, Cursor.walk_nil, Cursor.step]
    split
    next pair =>
      -- the line feed of a pair: the carriage return before it has ended the line
      simp only [Bool.and_eq_true, decide_eq_true_eq] at pair
      obtain ⟨rfl, last⟩ := pair
      have empty : lastLine cs = [] := lastLine_of_getLast? last (by decide)
      simp [Position.after, lineEnds_concat, lastLine_concat_of_isLineEnd (c := '\n') (by decide), last, empty, bytes]
    next pair =>
      split
      next ends =>
        have single : ¬(c = '\n' ∧ cs.getLast? = some '\r') := by simpa using pair
        simp [Position.after, lineEnds_concat, lastLine_concat_of_isLineEnd ends, ends, single, size16, bytes]
      next inside =>
        have inside : isLineEnd c = false := by simpa using inside
        have other : c ≠ '\r' := by
          rintro rfl
          exact absurd inside (by decide)
        simp [Position.after, lineEnds_concat, lastLine_concat inside, inside, other, size16_append, size16, bytes]

end AboveFold.Source

namespace AboveFold.Text

/-- A text is what ends at or before its own size. -/
theorem floorPrefix_append (a b : List Char) : floorPrefix (a ++ b) (byteSize a) = a := by
  induction a with
  | nil =>
    cases b with
    | nil => rfl
    | cons c b =>
      have := c.utf8Size_pos
      simp only [List.nil_append, byteSize, floorPrefix]
      rw [if_neg (by omega)]
  | cons c a ih =>
    simp only [List.cons_append, byteSize, floorPrefix]
    rw [if_pos (by omega), Nat.add_sub_cancel_left, ih]

end AboveFold.Text

namespace AboveFold.Source
open Text

/-- The position worked out for an offset between two characters is the end of the text before it. -/
theorem Position.of_append {source : String} {before after : List Char}
    (split : source.toList = before ++ after) :
    Position.of source (byteSize before) = Position.after before := by
  rw [Position.of, split, floorPrefix_append, Cursor.walk_start]

/-! ## Text that starts further on -/

/-- The same place of a text that has `n` more bytes, and nothing else, in front. -/
def Position.shift (p : Position) (n : Nat) : Position :=
  { p with offset := p.offset + n }

/-- A span of a text that has `n` more bytes in front. -/
def Span.shift (s : Span) (n : Nat) : Span :=
  ⟨s.start.shift n, s.stop.shift n, s.path⟩

/-- A cursor in a text that has `n` more bytes in front. -/
def Cursor.shift (k : Cursor) (n : Nat) : Cursor :=
  ⟨k.position.shift n, k.afterReturn⟩

theorem Cursor.step_shift (k : Cursor) (c : Char) (n : Nat) : (k.shift n).step c = (k.step c).shift n := by
  have bytes : k.position.offset + n + c.utf8Size = k.position.offset + c.utf8Size + n := by omega
  simp only [Cursor.step, Cursor.shift, Position.shift, bytes]
  split
  · rfl
  · split <;> rfl

/-- What stands in front changes no line and no column. -/
theorem Cursor.walk_shift (k : Cursor) (cs : List Char) (n : Nat) : (k.shift n).walk cs = (k.walk cs).shift n := by
  induction cs generalizing k with
  | nil => rfl
  | cons c cs ih => rw [Cursor.walk_cons, Cursor.walk_cons, Cursor.step_shift, ih]

end AboveFold.Source
