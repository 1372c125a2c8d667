import AboveFold.Proofs.Grammar.Unplaced
import AboveFold.Proofs.Stylesheet.Selecting

/-!
# What places do not change

Where branches stand below others, and the selectors of a stylesheet, can be told from its tree without places, numbers
and marks (`Stylesheet.selectors_of_unplaced`).
-/

namespace AboveFold

/-- The kinds of the nodes above a branch, and the branch without places. -/
def Branch.Located.outline (l : Branch.Located) : List Node.Kind × Parsed := (l.above.map Node.kind, l.branch.unplaced)

namespace Branch

variable {b b' : Branch}

mutual

theorem outline_locate : ∀ (b b' : Branch) {above above' : List Node}, b.unplaced = b'.unplaced →
    above.map Node.kind = above'.map Node.kind →
    (b.locate above).map Located.outline = (b'.locate above').map Located.outline
  | mk n cs, mk n' cs', above, above', same, kinds => by
    have outline : Located.outline ⟨above, mk n cs⟩ = Located.outline ⟨above', mk n' cs'⟩ := Prod.ext kinds same
    simp only [unplaced_mk, Parsed.bare, Parsed.node.injEq, true_and] at same
    have below : (n :: above).map Node.kind = (n' :: above').map Node.kind := by
      rw [List.map_cons, List.map_cons, kinds, same.1]
    rw [locate, locate, List.map_cons, List.map_cons, outline, outline_locateAll cs cs' same.2 below]

theorem outline_locateAll : ∀ (bs bs' : List Branch) {above above' : List Node}, bs.map unplaced = bs'.map unplaced →
    above.map Node.kind = above'.map Node.kind →
    (locateAll above bs).map Located.outline = (locateAll above' bs').map Located.outline
  | [], [], _, _, _, _ => rfl
  | [], _ :: _, _, _, same, _ => by cases same
  | _ :: _, [], _, _, same, _ => by cases same
  | b :: bs, b' :: bs', above, above', same, kinds => by
    obtain ⟨first, rest⟩ := List.cons.inj same
    rw [locateAll, locateAll, List.map_append, List.map_append, outline_locate b b' first kinds,
      outline_locateAll bs bs' rest kinds]

end

theorem map_outline_locate (same : b.unplaced = b'.unplaced) :
    (b.locate []).map Located.outline = (b'.locate []).map Located.outline := outline_locate b b' same rfl

/-- The first child of a kind, without places. -/
theorem child?_unplaced (p : Node.Kind → Bool) (b : Branch) :
    (b.child? p).map unplaced = b.unplaced.children.find? fun q => p q.kind := by
  obtain ⟨n, cs⟩ := b
  have kinds : (fun q : Parsed => p q.kind) ∘ unplaced = fun c => p c.kind := funext fun c => congrArg p (kind_unplaced c)
  rw [unplaced_mk, Parsed.bare, Parsed.children, List.find?_map, kinds]
  rfl

/-- The texts of the selectors of a rule, without places. -/
theorem selectors_unplaced (same : b.unplaced = b'.unplaced) :
    b.selectors.filterMap (·.kind.selector?) = b'.selectors.filterMap (·.kind.selector?) := by
  have texts (cs : List Branch) :
      cs.filterMap (fun c => c.kind.selector?) = (cs.map unplaced).filterMap fun q => q.kind.selector? := by
    rw [List.filterMap_map]
    exact List.filterMap_congr fun c _ => congrArg Node.Kind.selector? (kind_unplaced c).symm
  have below (c : Branch) : c.children.map unplaced = c.unplaced.children := by
    obtain ⟨n, cs⟩ := c
    rw [unplaced_mk]
    rfl
  have of_unplaced (b : Branch) : b.selectors.filterMap (fun c => c.kind.selector?)
      = ((b.unplaced.children.find? fun q => q.kind = .selectorList).map fun q =>
        q.children.filterMap fun q => q.kind.selector?).getD [] := by
    rw [← child?_unplaced (· = .selectorList), selectors, selectorList?]
    cases b.child? (· = .selectorList) with
    | none => rfl
    | some l => exact (texts l.children).trans (congrArg _ (below l))
  rw [of_unplaced, of_unplaced, same]

end Branch

namespace Stylesheet

variable {s s' : Stylesheet}

theorem texts_of_outline {l l' : Branch.Located} (same : l.outline = l'.outline) : texts l = texts l' := by
  obtain ⟨kinds, branch⟩ := Prod.mk.inj same
  have kind : l.branch.kind = l'.branch.kind := by
    rw [← Branch.kind_unplaced, branch, Branch.kind_unplaced]
  rw [texts, texts, kind, ← isKeyframeStop_bare, kinds, isKeyframeStop_bare, Branch.selectors_unplaced branch]

/-- The selectors of a stylesheet do not depend on places. -/
theorem selectors_of_unplaced (same : s.tree.sheet.unplaced = s'.tree.sheet.unplaced) : s.selectors = s'.selectors := by
  have outlines := Branch.map_outline_locate same
  rw [← List.forall₂_eq_eq_eq] at outlines
  have all := (List.forall₂_map_right_iff.1 (List.forall₂_map_left_iff.1 outlines)).imp fun _ _ => texts_of_outline
  have eq := List.forall₂_map_left_iff.2 (List.forall₂_map_right_iff.2 all)
  rw [List.forall₂_eq_eq_eq] at eq
  rw [selectors_eq, selectors_eq, List.flatMap, List.flatMap, eq]

end Stylesheet

end AboveFold
