/-!
# Text measured in bytes

Offsets into a stylesheet count the bytes of its UTF-8 encoding. `byteSize` measures text, `slice`
cuts it, `floorPrefix` rounds an offset down to a character, and `decode` reads bytes back as text.
A cut is made between characters or not at all: `slice` of an offset inside a character is `none`.
-/

namespace AboveFold.Text

/-- The number of bytes that `cs` takes. -/
def byteSize : List Char → Nat
  | [] => 0
  | c :: cs => c.utf8Size + byteSize cs

/-- The number of 16-bit units that a character takes. -/
def units16 (c : Char) : Nat :=
  if c.toNat < 0x10000 then 1 else 2

/-- What is left after the first `n` bytes, if a character ends there. -/
def dropBytes : List Char → Nat → Option (List Char)
  | cs, 0 => some cs
  | [], _ + 1 => none
  | c :: cs, n + 1 => if c.utf8Size ≤ n + 1 then dropBytes cs (n + 1 - c.utf8Size) else none

/-- The first `n` bytes, if a character ends there. -/
def takeBytes : List Char → Nat → Option (List Char)
  | _, 0 => some []
  | [], _ + 1 => none
  | c :: cs, n + 1 =>
    if c.utf8Size ≤ n + 1 then (takeBytes cs (n + 1 - c.utf8Size)).map (c :: ·) else none

/-- The bytes from `start` to `stop`, if both are boundaries of characters in this order. -/
def slice (cs : List Char) (start stop : Nat) : Option (List Char) :=
  if start ≤ stop then (dropBytes cs start).bind (takeBytes · (stop - start)) else none

/-- The characters that end at or before byte `n`. -/
def floorPrefix : List Char → Nat → List Char
  | [], _ => []
  | c :: cs, n => if c.utf8Size ≤ n then c :: floorPrefix cs (n - c.utf8Size) else []

@[simp] theorem byteSize_append (a b : List Char) : byteSize (a ++ b) = byteSize a + byteSize b := by
  induction a with
  | nil => simp [byteSize]
  | cons c a ih => simp [byteSize, ih, Nat.add_assoc]

theorem dropBytes_append (a b : List Char) : dropBytes (a ++ b) (byteSize a) = some b := by
  induction a with
  | nil => cases b <;> rfl
  | cons c a ih =>
    obtain ⟨k, hk⟩ : ∃ k, c.utf8Size = k + 1 := ⟨c.utf8Size - 1, by have := c.utf8Size_pos; omega⟩
    have : k + 1 + byteSize a = (k + byteSize a) + 1 := by omega
    simp only [byteSize, List.cons_append, hk, this, dropBytes]
    rw [if_pos (by omega), show k + byteSize a + 1 - (k + 1) = byteSize a by omega, ih]

theorem takeBytes_append (a b : List Char) : takeBytes (a ++ b) (byteSize a) = some a := by
  induction a with
  | nil => cases b <;> rfl
  | cons c a ih =>
    obtain ⟨k, hk⟩ : ∃ k, c.utf8Size = k + 1 := ⟨c.utf8Size - 1, by have := c.utf8Size_pos; omega⟩
    have : k + 1 + byteSize a = (k + byteSize a) + 1 := by omega
    simp only [byteSize, List.cons_append, hk, this, takeBytes]
    rw [if_pos (by omega), show k + byteSize a + 1 - (k + 1) = byteSize a by omega, ih]
    rfl

/-- A piece of text is what its own byte offsets cut out. -/
theorem slice_append (a b c : List Char) :
    slice (a ++ b ++ c) (byteSize a) (byteSize a + byteSize b) = some b := by
  unfold slice
  rw [if_pos (by omega), List.append_assoc, dropBytes_append]
  simp [takeBytes_append]

theorem dropBytes_eq_some {cs rest : List Char} {n : Nat} (h : dropBytes cs n = some rest) :
    ∃ a, cs = a ++ rest ∧ byteSize a = n := by
  fun_induction dropBytes cs n with
  | case1 cs => exact ⟨[], by simpa using h, rfl⟩
  | case2 => cases h
  | case3 c cs n le ih =>
    obtain ⟨a, rfl, size⟩ := ih h
    exact ⟨c :: a, rfl, by simp only [byteSize, size]; omega⟩
  | case4 => cases h

theorem takeBytes_eq_some {cs text : List Char} {n : Nat} (h : takeBytes cs n = some text) :
    ∃ b, cs = text ++ b ∧ byteSize text = n := by
  fun_induction takeBytes cs n generalizing text with
  | case1 cs =>
    obtain rfl : [] = text := by simpa using h
    exact ⟨cs, rfl, rfl⟩
  | case2 => cases h
  | case3 c cs n le ih =>
    obtain ⟨text, take, rfl⟩ := Option.map_eq_some_iff.1 h
    obtain ⟨b, rfl, size⟩ := ih take
    exact ⟨b, rfl, by simp only [byteSize, size]; omega⟩
  | case4 => cases h

/-- What byte offsets cut out is a piece of the text. -/
theorem slice_eq_some {cs text : List Char} {start stop : Nat} (h : slice cs start stop = some text) :
    ∃ a c, cs = a ++ text ++ c ∧ byteSize a = start ∧ start + byteSize text = stop := by
  unfold slice at h
  split at h
  next le =>
    obtain ⟨rest, drop, take⟩ := Option.bind_eq_some_iff.1 h
    obtain ⟨a, rfl, size⟩ := dropBytes_eq_some drop
    obtain ⟨c, rfl, size'⟩ := takeBytes_eq_some take
    exact ⟨a, c, by simp, size, by omega⟩
  next => cases h

/-! ## Reading bytes -/

/-- Why bytes are not text: the sequence that starts at `start` is not a character. It goes wrong
after `length` bytes, or, with no length, the bytes end too early. -/
structure DecodeError where
  start : Nat
  length : Option Nat
deriving DecidableEq, Repr

namespace DecodeError

/-- The wording of a decoding error. -/
def message (e : DecodeError) : String :=
  match e.length with
  | some n => s!"invalid utf-8 sequence of {n} bytes from index {e.start}"
  | none => s!"incomplete utf-8 byte sequence from index {e.start}"

end DecodeError

/-- The number of bytes that a leading byte announces, 0 if it announces none. -/
def announced (b : Nat) : Nat :=
  if b < 0x80 then 1
  else if b < 0xC2 then 0
  else if b < 0xE0 then 2
  else if b < 0xF0 then 3
  else if b < 0xF5 then 4
  else 0

/-- A byte that goes on with a character. -/
def isContinuation (b : Nat) : Bool :=
  0x80 ≤ b && b < 0xC0

/-- Whether `b` may follow the leading byte `lead`: beside being a continuation it must not make an
overlong form, a surrogate or a number beyond the last character. -/
def followsLead (lead b : Nat) : Bool :=
  isContinuation b && (lead != 0xE0 || 0xA0 ≤ b) && (lead != 0xED || b < 0xA0)
    && (lead != 0xF0 || 0x90 ≤ b) && (lead != 0xF4 || b < 0x90)

/-- Checks the bytes that follow `lead`; `seen` of the announced bytes were good so far, `missing`
are still to come. -/
def checkTail (lead start : Nat) : (seen missing : Nat) → List Nat → Except DecodeError Unit
  | _, 0, _ => .ok ()
  | _, _ + 1, [] => .error ⟨start, none⟩
  | seen, missing + 1, b :: bs =>
    if (if seen = 1 then followsLead lead b else isContinuation b) then
      checkTail lead start (seen + 1) missing bs
    else .error ⟨start, some seen⟩

/-- The number that a lead byte and its continuations spell. -/
def scalar (width lead : Nat) (tail : List Nat) : Nat :=
  tail.foldl (fun acc b => acc * 64 + (b - 0x80))
    (if width = 1 then lead else if width = 2 then lead - 0xC0 else if width = 3 then lead - 0xE0 else lead - 0xF0)

/-- Reads characters; `skip` bytes of the current one are still to be passed, and `index` is the
offset of the next byte. -/
def decodeFrom (skip index : Nat) : List Nat → Except DecodeError (List Char)
  | [] => .ok []
  | b :: bs =>
    match skip with
    | k + 1 => decodeFrom k (index + 1) bs
    | 0 =>
      match announced b with
      | 0 => .error ⟨index, some 1⟩
      | w + 1 =>
        match checkTail b index 1 w bs with
        | .error e => .error e
        | .ok () => (decodeFrom w (index + 1) bs).map (Char.ofNat (scalar (w + 1) b (bs.take w)) :: ·)

/-- Reads bytes as text. The error names the first sequence that is not a character. -/
def decode (bytes : List Nat) : Except DecodeError String :=
  (decodeFrom 0 0 bytes).map String.ofList

end AboveFold.Text
