import Mathlib
import AboveFold.Prune.Filters
import AboveFold.Proofs.Stylesheet.Meaning
import AboveFold.Proofs.Token.Tightening

/-!
# What filters are shown

A filter sees the value of a declaration without its comments, whether these were taken out or not. It sees the same
in both cases but for some spaces: in place of a comment that stands beside a comma, behind an opening bracket or
before a closing one it sees a space as long as the comment is there, and nothing afterwards
(`Stylesheet.pruneComments_shown`). A filter that takes no notice of these decides the same.
-/

namespace AboveFold
open Branch Token

namespace Filter.DeclarationView

/-- What a filter is told of a declaration whose value was read as these tokens, before and after the pass over
comments. -/
structure Tightened (ws : List Written) (before after : DeclarationView) : Prop where
  property : after.property = before.property
  value : Tightens none ws before.value.toList after.value.toList

end Filter.DeclarationView

/-- Filters that do not mind a space which stands for comments alone, next to a comma or inside of a bracket. -/
def Filters.Lenient (f : Filters) : Prop := ∀ ws (before after : Filter.DeclarationView), before.Tightened ws after →
  f.keeps (.declaration before) = f.keeps (.declaration after)

namespace Parsed

/-- What a value is shown as without its comments, and with them. -/
theorem HoldsWords.tightens {source : String} {p : Parsed} (h : HoldsWords source p) (kind : p.kind = .value) (n : Nat)
    (clear : Clear (written ((number n p).1.render (some source)).toList)) :
    Tightens none (written ((number n p).1.render (some source)).toList)
      (Text.collapse ((number n p).1.render (some source))).toList
      (Text.collapse ((number n p).1.unnumbered.stripped.render (some source))).toList := by
  rcases h (.inl kind) with ⟨prelude, -⟩ | ⟨ws, worded⟩
  · rw [kind] at prelude
    cases prelude
  · obtain ⟨lead, vs, trail, taken, white, same⟩ := worded.uncomments (.inl kind) n
    rw [worded.render_eq, String.toList_ofList, worded.stands.written_eq] at clear ⊢
    have tightens := taken.tightens_trim white worded.stands worded.sound clear
    rwa [Text.collapse, Text.collapse, String.toList_ofList, String.toList_ofList, same, String.toList_ofList]

end Parsed

namespace Branch

variable {v x d : Branch} {cs : List Branch}

theorem value?_of_children (children : v.children = [x]) (kind : x.kind = .value) : v.value? = some x := by
  simp [value?, child?, children, kind]

/-- A declaration that lost its comments has the value that it had, without comments. -/
theorem value?_of_stripped (formed : v.Formed) (declaration : v.kind.isDeclaration = true)
    (same : d.unnumbered = v.unnumbered.stripped) :
    ∃ x ∈ v.children, x.kind = .value ∧ v.value? = some x
      ∧ ∃ y, d.value? = some y ∧ y.unnumbered = x.unnumbered.stripped := by
  have composes := formed.composes
  have holder : Prune.holdsComponents v.kind = false := by
    cases k : v.kind <;> rw [k] at declaration <;> first | rfl | cases declaration
  have one : v.children.map kind = [.value] := by
    cases k : v.kind <;> rw [k] at declaration composes <;> first | exact composes | cases declaration
  obtain ⟨x, children, kind⟩ := List.map_eq_singleton_iff.1 one
  refine ⟨x, by simp [children], kind, value?_of_children children kind, ?_⟩
  have other : x.unnumbered.kind.isComment = false := by
    rw [kind_unnumbered, kind]
    rfl
  have below : (uncommentAll false none [x.unnumbered]).kept = [x.unnumbered.stripped] := by
    generalize x.unnumbered = b at other
    obtain ⟨n, cs⟩ := b
    rw [kind_mk] at other
    rw [uncommentAll, uncomment_of_not_isComment other]
    rfl
  have left : d.children.map unnumbered = [x.unnumbered.stripped] := by
    rw [← children_unnumbered, same, stripped, kind_unnumbered, holder, Cut.under_children, children_unnumbered,
      children]
    exact below
  obtain ⟨y, children', same⟩ := List.map_eq_singleton_iff.1 left
  refine ⟨y, value?_of_children children' ?_, same⟩
  rw [← kind_unnumbered, same, ← kind, ← kind_unnumbered x]
  rfl

end Branch

namespace Stylesheet

/-- What a filter is told of a declaration. -/
theorem question?_of_isDeclaration {s : Stylesheet} {b x : Branch} (declaration : b.kind.isDeclaration = true)
    (value : b.value? = some x) :
    ∃ property important, b.kind = .declaration property important
      ∧ s.question? b = some (.declaration ⟨property, Text.collapse (x.render (some s.source))⟩) := by
  cases k : b.kind with
  | declaration property important =>
    refine ⟨property, important, rfl, ?_⟩
    simp [question?, k, value, textOf]
  | _ =>
    rw [k] at declaration
    cases declaration

end Stylesheet

end AboveFold
