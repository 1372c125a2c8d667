import AboveFold.Proofs.Tree.Thinning
import AboveFold.Tree.Render

/-!
# Branches without numbers

A walk that puts new nodes in gives them the numbers that are next, so what it makes of a branch depends on
what was done to other branches before. Nothing but the numbers does: without them branches can be compared
that came about in different ways. Text, kinds and emptiness are the same without numbers.
-/

namespace AboveFold
open Branch

namespace Branch

mutual

/-- A branch with all its numbers forgotten. -/
def unnumbered : Branch → Branch
  | mk n cs => mk { n with id := 0 } (unnumberedAll cs)

/-- Branches with all their numbers forgotten. -/
def unnumberedAll : List Branch → List Branch
  | [] => []
  | b :: bs => unnumbered b :: unnumberedAll bs

end

variable {b : Branch} {bs : List Branch} {n : Node} {p : Node.Kind → Bool}

theorem unnumberedAll_eq (bs : List Branch) : unnumberedAll bs = bs.map unnumbered := by
  induction bs with
  | nil => rfl
  | cons b bs ih => rw [unnumberedAll, ih, List.map_cons]

@[simp] theorem unnumbered_mk (n : Node) (cs : List Branch) :
    (mk n cs).unnumbered = mk { n with id := 0 } (cs.map unnumbered) := by
  rw [unnumbered, unnumberedAll_eq]

@[simp] theorem kind_unnumbered (b : Branch) : b.unnumbered.kind = b.kind := by
  cases b
  rfl

@[simp] theorem node_unnumbered (b : Branch) : b.unnumbered.node = { b.node with id := 0 } := by
  cases b
  rfl

@[simp] theorem children_unnumbered (b : Branch) : b.unnumbered.children = b.children.map unnumbered := by
  cases b
  rw [unnumbered_mk]
  rfl

mutual

theorem preorder_unnumbered : ∀ b : Branch, b.unnumbered.preorder = b.preorder.map unnumbered
  | mk n cs => by
    rw [preorder, List.map_cons, ← preorderAll_unnumbered cs, unnumbered_mk, preorder]

theorem preorderAll_unnumbered : ∀ bs : List Branch,
    preorderAll (bs.map unnumbered) = (preorderAll bs).map unnumbered
  | [] => rfl
  | b :: bs => by
    rw [List.map_cons, preorderAll_cons, preorderAll_cons, preorder_unnumbered b, preorderAll_unnumbered bs,
      List.map_append]

end

theorem nested_unnumbered : b.unnumbered.Nested ↔ b.Nested := by
  simp only [Nested, preorder_unnumbered, List.forall_mem_map, children_unnumbered, kind_unnumbered]

/-- The text of a branch does not show its numbers. -/
theorem render_unnumbered (source : Option String) (b : Branch) : b.unnumbered.render source = b.render source := by
  have below (cs : List Branch) (ih : ∀ c ∈ cs, c.unnumbered.render source = c.render source) :
      renderAll source (cs.map unnumbered) = renderAll source cs := by
    induction cs with
    | nil => rfl
    | cons c cs ih' =>
      simp only [List.mem_cons, forall_eq_or_imp] at ih
      rw [List.map_cons, renderAll, renderAll, ih.1, ih' ih.2, kind_unnumbered]
  induction b using induct with
  | mk n cs ih =>
    have same : Node.unchangedText? source { n with id := 0 } = n.unchangedText? source := rfl
    rw [unnumbered_mk, render, render, same, below cs ih]

theorem find?_unnumbered (bs : List Branch) :
    (bs.map unnumbered).find? (p ·.kind) = (bs.find? (p ·.kind)).map unnumbered := by
  rw [List.find?_map]
  congr 2
  funext b
  exact congrArg p (kind_unnumbered b)

theorem child?_unnumbered (b : Branch) : b.unnumbered.child? p = (b.child? p).map unnumbered := by
  rw [child?, children_unnumbered, find?_unnumbered, child?]

theorem hasContent_unnumbered (b : Branch) : b.unnumbered.hasContent = b.hasContent := by
  simp only [hasContent, children_unnumbered, List.any_map, Function.comp_def, kind_unnumbered]

@[simp] theorem isEmptied_unnumbered (b : Branch) : b.unnumbered.isEmptied = b.isEmptied := by
  simp only [isEmptied, isEmptyRule, isEmptyAtRule, selectorList?, block?, child?_unnumbered, kind_unnumbered,
    Option.any_map, children_unnumbered, List.isEmpty_map, hasContent_unnumbered]

theorem mediaQueries_unnumbered (b : Branch) : b.unnumbered.mediaQueries = b.mediaQueries := by
  simp only [mediaQueries, prelude?, child?_unnumbered, Option.map_map]
  cases b.child? (· = .prelude) with
  | none => rfl
  | some prelude =>
    simp only [Option.map_some, Option.getD_some, children_unnumbered, List.filterMap_map,
      Function.comp_def, kind_unnumbered]

@[simp] theorem isUsefulMedia_unnumbered (b : Branch) : b.unnumbered.isUsefulMedia = b.isUsefulMedia := by
  simp only [isUsefulMedia, kind_unnumbered, mediaQueries_unnumbered]

@[simp] theorem hasLargeEmbed_unnumbered (limit : Nat) (b : Branch) :
    b.unnumbered.hasLargeEmbed limit = b.hasLargeEmbed limit := by
  simp only [hasLargeEmbed, preorder_unnumbered, List.any_map, Function.comp_def, kind_unnumbered]

end Branch

/-! ## Cuts -/

namespace Cut

/-- A cut with all numbers forgotten. -/
def unnumbered (c : Cut) : Cut := ⟨c.kept.map Branch.unnumbered, c.touched⟩

@[simp] theorem unnumbered_gone : gone.unnumbered = gone := rfl

theorem unnumbered_beside (c d : Cut) : (c.beside d).unnumbered = c.unnumbered.beside d.unnumbered := by
  simp [unnumbered, beside]

theorem unnumbered_under (n : Node) (c : Cut) :
    (c.under n).unnumbered = c.unnumbered.under { n with id := 0 } := by
  rw [under, Branch.unnumbered_mk]
  rfl

theorem unnumbered_wrap (n : Node) (c : Cut) : (c.wrap n).unnumbered = c.unnumbered.wrap { n with id := 0 } := by
  rw [wrap, wrap, ← unnumbered_under]
  rfl

/-- Branches can be cut before or after their numbers are forgotten. -/
theorem unnumbered_each {f : Branch → Cut} {bs : List Branch}
    (blind : ∀ b ∈ bs, f b.unnumbered = (f b).unnumbered) :
    (each f bs).unnumbered = each f (bs.map Branch.unnumbered) := by
  induction bs with
  | nil => rfl
  | cons b bs ih =>
    simp only [List.mem_cons, forall_eq_or_imp] at blind
    rw [List.map_cons, each_cons, each_cons, unnumbered_beside, blind.1, ih blind.2]

end Cut

namespace Branch
open Cut

/-- A plan that does not see numbers. -/
def Plan.Blind (π : Plan) : Prop :=
  ∀ above b, π above b.unnumbered = (π above b).map Cut.unnumbered

theorem cut_unnumbered {π : Plan} (blind : π.Blind) (above : List Node.Kind) (b : Branch) :
    cut π above b.unnumbered = (cut π above b).unnumbered := by
  induction b using induct generalizing above with
  | mk n cs ih =>
    have top := blind above (mk n cs)
    cases e : π above (mk n cs) with
    | some c =>
      rw [e, Option.map_some] at top
      rw [cut_of_some e, cut_of_some top]
    | none =>
      rw [e, Option.map_none] at top
      rw [cut_of_none e, cut_of_none top, unnumbered_wrap, children_mk, kind_mk,
        unnumbered_each fun c mem => ih c mem (n.kind :: above)]
      rw [children_unnumbered, kind_unnumbered, node_unnumbered]
      rfl

theorem cutBelow_unnumbered {π : Plan} (blind : π.Blind) (above : List Node.Kind) (b : Branch) :
    cutBelow π above b.unnumbered = (cutBelow π above b).unnumbered := by
  rw [cutBelow, cutBelow, unnumbered_under, unnumbered_each fun c _ => cut_unnumbered blind _ c,
    children_unnumbered, kind_unnumbered, node_unnumbered]

theorem clear_unnumbered (b : Branch) : b.unnumbered.clear = b.clear.unnumbered := by
  induction b using induct with
  | mk n cs ih =>
    have top : (mk n cs).unnumbered.swept = (mk n cs).swept.unnumbered := by
      rw [swept, swept, unnumbered_under, unnumbered_each (by exact ih), children_unnumbered, node_unnumbered]
    have same : (mk n cs).unnumbered.swept.isEmptied = (mk n cs).swept.isEmptied := by
      rw [top, isEmptied_unnumbered]
    cases e : (mk n cs).swept.isEmptied with
    | true => rw [clear_of_isEmptied e, clear_of_isEmptied (same.trans e), unnumbered_gone]
    | false =>
      rw [clear_of_not_isEmptied e, clear_of_not_isEmptied (same.trans e), unnumbered_wrap,
        unnumbered_each (by exact ih), children_unnumbered, node_unnumbered]

/-- Branches can be swept before or after their numbers are forgotten. -/
theorem swept_unnumbered (b : Branch) : b.unnumbered.swept = b.swept.unnumbered := by
  rw [swept, swept, unnumbered_under, unnumbered_each fun c _ => clear_unnumbered c, children_unnumbered,
    node_unnumbered]

end Branch

end AboveFold
