/-!
# Searching text

Where a text holds another, and the parts that characters separate.
-/

namespace AboveFold.Text

/-- Whether `part` occurs somewhere in `cs`. -/
def hasInfix (part : List Char) : List Char → Bool
  | [] => part.isEmpty
  | c :: cs => part.isPrefixOf (c :: cs) || hasInfix part cs

/-- Whether `part` stands at the end of `cs`. -/
def hasSuffix (part cs : List Char) : Bool :=
  part.reverse.isPrefixOf cs.reverse

/-- What follows `part` if it stands at the front of `cs`. -/
def after? : (part cs : List Char) → Option (List Char)
  | [], cs => some cs
  | _ :: _, [] => none
  | p :: ps, c :: cs => if p = c then after? ps cs else none

/-- The text before the first `sep`, and the text after it if there is one. -/
def splitOnce (sep : Char) (cs : List Char) : List Char × Option (List Char) :=
  match cs.dropWhile (· != sep) with
  | [] => (cs, none)
  | _ :: rest => (cs.takeWhile (· != sep), some rest)

/-- The text before and after the first place where `part` stands. -/
def splitAt? (part : List Char) : List Char → Option (List Char × List Char)
  | [] => (after? part []).map ([], ·)
  | c :: cs =>
    match after? part (c :: cs) with
    | some rest => some ([], rest)
    | none => (splitAt? part cs).map fun (before, rest) => (c :: before, rest)

/-- The parts of a text between the separators. -/
def splitAll (sep : Char) : List Char → List (List Char)
  | [] => [[]]
  | c :: cs =>
    if c = sep then [] :: splitAll sep cs
    else
      match splitAll sep cs with
      | [] => [[c]]
      | part :: parts => (c :: part) :: parts

theorem after?_eq_some_iff {part cs rest : List Char} : after? part cs = some rest ↔ cs = part ++ rest := by
  induction part generalizing cs with
  | nil => simp [after?]
  | cons p ps ih =>
    cases cs with
    | nil => simp [after?]
    | cons c cs => grind [after?]

theorem eq_of_splitAt? {part cs before rest : List Char} (h : splitAt? part cs = some (before, rest)) :
    cs = before ++ part ++ rest := by
  induction cs generalizing before rest with
  | nil => simp [splitAt?, after?_eq_some_iff] at h; simp [h]
  | cons c cs ih =>
    simp only [splitAt?] at h
    split at h
    · next found =>
      obtain ⟨rfl, rfl⟩ := Option.some.inj h
      simpa using after?_eq_some_iff.1 found
    · obtain ⟨⟨b, r⟩, found, he⟩ := Option.map_eq_some_iff.1 h
      obtain ⟨rfl, rfl⟩ := he
      simp [ih found]

end AboveFold.Text
