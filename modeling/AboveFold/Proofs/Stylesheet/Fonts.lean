import AboveFold.Proofs.Prune.FontNames
import AboveFold.Proofs.Prune.FontShorthand
import AboveFold.Proofs.Prune.Remains
import AboveFold.Proofs.Stylesheet.Grammatical
import AboveFold.Proofs.Tree.FixedWalk

/-!
# Pruning by fonts

The pass over fonts takes out the at-rules `@font-face` whose family is not to be kept, with what falls with them,
and nothing else (`Stylesheet.Grammatical.prunesFonts`). It leaves those alone that stand in another. So a font
stays that a stylesheet uses, if neither it nor one that it stands in has quotes around its name in normal form
(`Stylesheet.Grammatical.used_font_stays`). What a `font` declaration uses are the families of the shorthand that its
value is (`Stylesheet.familiesOf_font`).
-/

namespace AboveFold
open Branch

/-- Whether a node declares a font. -/
def Node.Kind.isFace (k : Node.Kind) : Bool := k.isAtRuleNamed "font-face"

namespace Stylesheet

/-- Marks the declarations of fonts whose family is not among `kept`, except for those in others. -/
def strayFonts (s : Stylesheet) (kept : List String) : Mark := fun above b =>
  b.kind.isFace && !above.any Node.Kind.isFace && (s.declaredFont? b).any (!kept.contains ·)

/-- The places of the fonts that are not to be kept. -/
def strayPlaces (s : Stylesheet) (kept : List String) : List Located :=
  (s.tree.sheet.locate []).filter (Located.isMarked (s.strayFonts (kept.map Font.normalize)))

/-- What pruning by fonts makes of a stylesheet, with the number of fonts it took out. -/
structure PrunesFonts (kept : List String) (s : Stylesheet) (n : Nat) (s' : Stylesheet) : Prop where
  /-- The fonts that are not to be kept go, and what falls with them. All other nodes stay where they were. -/
  left : (s'.tree.sheet.locate []).map Located.path
    = (s.tree.staying {i | ∃ l ∈ s.strayPlaces kept, l.branch.id = i} (s.tree.sheet.locate [])).map Located.path
  /-- What falls is not counted. -/
  count : n = (s.strayPlaces kept).length

/-- The visitor of the pass over fonts, with families in normal form. -/
def fontVisitor (s : Stylesheet) (kept : List String) : Visitor := fun site =>
  if site.branch.kind.isFace then if (s.declaredFont? site.branch).any (!kept.contains ·) then .remove else .skip
  else
    match site.branch.kind with
    | .styleSheet | .rule | .atRule _ | .block _ => .descend
    | _ => .skip

theorem pruneFonts_eq (s : Stylesheet) (kept : List String) :
    s.pruneFonts kept = s.pruneBy (s.fontVisitor (kept.map Font.normalize)) := rfl

variable {s : Stylesheet} {kept : List String} {l : Located} {b : Branch}

/-! ## The mark of the pass -/

theorem isAtRule_of_isFace {k : Node.Kind} (face : k.isFace = true) : k.isAtRule = true := by
  cases k <;> first | rfl | cases face

theorem strayFonts_eq_true {above : List Node.Kind} :
    s.strayFonts kept above b = true ↔ b.kind.isFace = true ∧ above.any Node.Kind.isFace = false
      ∧ ∃ family, s.declaredFont? b = some family ∧ family ∉ kept := by
  simp [strayFonts, Option.any_eq_true, and_assoc]

theorem solid_strayFonts (s : Stylesheet) (kept : List String) : (s.strayFonts kept).Solid := by
  intro above b marked
  have atRule := isAtRule_of_isFace (strayFonts_eq_true.1 marked).1
  cases k : b.kind <;> rw [k] at atRule <;> first | exact ⟨rfl, rfl⟩ | cases atRule

/-- In the declaration of a font nothing is marked. -/
theorem strayFonts_eq_false_of_above {above : List Node.Kind} (face : above.any Node.Kind.isFace = true) :
    s.strayFonts kept above b = false := by
  rw [strayFonts, face, Bool.not_true, Bool.and_false, Bool.false_and]

theorem lone_strayFonts (s : Stylesheet) (kept : List String) : (s.strayFonts kept).Lone := by
  intro above b _ marked l mem
  have face := (strayFonts_eq_true.1 marked).1
  refine strayFonts_eq_false_of_above (List.any_eq_true.2 ⟨b.kind, ?_, face⟩)
  exact List.mem_map_of_mem ((Located.suffix mem).subset (List.mem_cons_self ..))

theorem fontVisitor_eq (s : Stylesheet) (kept : List String) (site : Site) :
    s.fontVisitor kept site = if site.branch.kind.isFace then
        if (s.declaredFont? site.branch).any (!kept.contains ·) then .remove else .skip
      else if site.branch.kind.isContainer then .descend else .skip := by
  unfold fontVisitor
  split
  next => rfl
  next => cases site.branch.kind <;> rfl

theorem fontVisitor_obeys (s : Stylesheet) (kept : List String) :
    (s.fontVisitor kept).Obeys (fun above => above.any (·.kind.isFace) = false) (s.strayFonts kept) := by
  rintro ⟨above, before, b, after⟩ outside nested
  have outside : above.any (·.kind.isFace) = false := outside
  have none : (above.map Node.kind).any Node.Kind.isFace = false := List.any_map.trans outside
  rw [fontVisitor_eq]
  cases face : b.kind.isFace with
  | true =>
    cases stray : (s.declaredFont? b).any (!kept.contains ·) with
    | true => exact .inr (.inr ⟨rfl, by rw [strayFonts, face, none, stray]; rfl⟩)
    | false =>
      refine .inr (.inl ⟨rfl, ?_⟩)
      obtain ⟨n, cs⟩ := b
      refine .mk (by rw [strayFonts, stray, Bool.and_false]) fun c _ => Mark.clean_of_forall fun d _ ks => ?_
      exact strayFonts_eq_false_of_above (List.any_eq_true.2 ⟨n.kind, by simp, face⟩)
  | false =>
    have other {c : Branch} {above : List Node.Kind} (face : c.kind.isFace = false) : s.strayFonts kept above c = false := by
      rw [strayFonts, face]
      rfl
    cases container : b.kind.isContainer with
    | true =>
      refine .inl ⟨rfl, other face, ?_⟩
      change (b.node :: above).any (·.kind.isFace) = false
      rw [List.any_cons, outside, Bool.or_false]
      exact face
    | false =>
      refine .inr (.inl ⟨rfl, Mark.clean_of_forall fun c mem ks => other ?_⟩)
      have closed := nested.isContainer_eq_false container c mem
      cases k : c.kind <;> rw [k] at closed <;> first | rfl | cases closed

/-! ## The pass -/

theorem Grammatical.takesOut_strayFonts (h : s.Grammatical) (full : ∀ b ∈ s.tree.attached, b.isEmptied = false)
    (kept : List String) : s.tree.TakesOut (s.strayFonts kept) (s.tree.walk (s.fontVisitor kept)) := by
  have root := h.rooted.root
  have outside : s.tree.sheet.node.kind.isFace = false := by
    have root : s.tree.sheet.node.kind = .styleSheet := root
    rw [root]
    rfl
  refine h.rooted.numbered.takesOut h.inOrder.nested full (solid_strayFonts s kept) root (lone_strayFonts s kept)
    (fontVisitor_obeys s kept) ?_ ?_ ?_
  · intro site
    rw [fontVisitor_eq]
    split
    next => split <;> simp
    next => split <;> simp
  · rw [fontVisitor_eq, root]
    rfl
  · rw [List.any_cons, outside]
    rfl

theorem taken_strayFonts (s : Stylesheet) (kept : List String) :
    s.tree.taken (s.strayFonts (kept.map Font.normalize)) = {i | ∃ l ∈ s.strayPlaces kept, l.branch.id = i} := by
  ext i
  simp only [Tree.taken, strayPlaces, Set.mem_ofPred_eq, List.mem_filter, Located.isMarked, and_assoc]

/-- **Pruning by fonts is exact.** In a stylesheet in which nothing is empty, the declarations of fonts that are not
to be kept go, but for those in others, and what falls with them; all else stays in place, and the count is that of
the fonts. -/
theorem Grammatical.prunesFonts (h : s.Grammatical) (full : ∀ b ∈ s.tree.attached, b.isEmptied = false)
    (kept : List String) : PrunesFonts kept s (s.pruneFonts kept).1 (s.pruneFonts kept).2 := by
  obtain ⟨sheet, -, count⟩ := h.takesOut_strayFonts full (kept.map Font.normalize)
  have left := h.rooted.numbered.left h.inOrder.nested full (solid_strayFonts s (kept.map Font.normalize)) h.rooted.root
  rw [← sheet] at left
  refine ⟨?_, ?_⟩
  · rw [← taken_strayFonts]
    exact Tree.map_path_of_left left
  · rw [strayPlaces, ← List.countP_eq_length_filter]
    exact count

/-! ## Fonts that stay -/

theorem Grammatical.not_mem_taken (h : s.Grammatical) (place : l ∈ s.tree.sheet.locate [])
    (known : l.branch.kind.isFace = true → ∀ family, s.declaredFont? l.branch = some family → family ∈ kept) :
    l.branch.id ∉ s.tree.taken (s.strayFonts kept) := by
  rw [h.rooted.numbered.mem_taken place, strayFonts_eq_true]
  rintro ⟨face, -, family, declares, stray⟩
  exact stray (known face family declares)

/-- What is no rule and no at-rule does not fall. -/
theorem Grammatical.not_falls_strayFonts (h : s.Grammatical) (place : l ∈ s.tree.sheet.locate [])
    (other : l.branch.kind.isRule = false ∧ l.branch.kind.isAtRule = false) :
    ¬ s.tree.Falls (s.tree.taken (s.strayFonts kept)) l.branch.id := by
  refine h.rooted.numbered.not_falls (Tree.mem_attached_of_place place) (h.not_mem_taken place fun face => ?_) other
  rw [isAtRule_of_isFace face] at other
  cases other.2

/-- What names the family of a font. -/
theorem exists_of_declaredFont? {family : String} (declares : s.declaredFont? b = some family) :
    (∃ text, family = Font.normalize text)
      ∧ ∃ block, b.block? = some block ∧ ∃ c ∈ block.children, c.kind.isDeclaration = true := by
  unfold declaredFont? at declares
  obtain ⟨e, -⟩ := Option.filter_eq_some_iff.1 declares
  obtain ⟨block, found, e⟩ := Option.bind_eq_some_iff.1 e
  obtain ⟨c, named, e⟩ := Option.bind_eq_some_iff.1 e
  obtain ⟨value, -, e⟩ := Option.bind_eq_some_iff.1 e
  refine ⟨⟨_, (Option.some.inj e).symm⟩, block, found, c, List.mem_of_find?_eq_some named, ?_⟩
  have named := List.find?_some named
  cases k : c.kind <;> simp_all [Node.Kind.property?, Node.Kind.isDeclaration]

/-- **A font that is kept stays**, if those that it stands in are kept or name no family. -/
theorem Grammatical.font_stays (h : s.Grammatical) (full : ∀ b ∈ s.tree.attached, b.isEmptied = false)
    (place : l ∈ s.tree.sheet.locate []) (face : l.branch.kind.isFace = true) {family : String}
    (declares : s.declaredFont? l.branch = some family)
    (known : ∀ p ∈ s.tree.sheet.locate [], p.branch.node ∈ l.branch.node :: l.above → p.branch.kind.isFace = true →
      ∀ family, s.declaredFont? p.branch = some family → family ∈ kept.map Font.normalize) :
    (s.pruneFonts kept).2.tree.isAttached l.branch.id = true := by
  have numbered := h.rooted.numbered
  have atRule := isAtRule_of_isFace face
  have solid := solid_strayFonts s (kept.map Font.normalize)
  have stands : ¬ s.tree.Falls (s.tree.taken (s.strayFonts (kept.map Font.normalize))) l.branch.id := by
    obtain ⟨-, block, found, c, child, declaration⟩ := exists_of_declaredFont? declares
    have placed := Tree.place_child (Tree.place_child place (mem_children_of_child? found).1) child
    refine numbered.not_falls_of_content (Tree.mem_attached_of_place place)
      (h.not_mem_taken place (known l place (List.mem_cons_self ..))) found
      ⟨c, child, ?_, h.not_falls_strayFonts placed ?_⟩ fun rule => ?_
    · cases k : c.kind <;> rw [k] at declaration <;> first | rfl | cases declaration
    · cases k : c.kind <;> rw [k] at declaration <;> first | exact ⟨rfl, rfl⟩ | cases declaration
    · rw [rule] at atRule
      cases atRule
  have stays : s.tree.Stays (s.tree.taken (s.strayFonts (kept.map Font.normalize))) l := by
    refine numbered.stays_of_spared h.rooted.root h.formed place (by simp [Node.Kind.isStatement, atRule]) stands
      (fun p hp above _ _ => h.not_mem_taken hp (known p hp (List.mem_cons_of_mem _ above))) fun p hp above rule => ?_
    obtain ⟨c, mem⟩ := exists_selector rule (full _ (Tree.mem_attached_of_place hp))
    obtain ⟨list, -, placed, selector⟩ := Tree.exists_place_selector h.inOrder.nested hp mem
    refine ⟨c, mem, h.not_falls_strayFonts placed ?_⟩
    cases k : c.kind <;> rw [k] at selector <;> first | exact ⟨rfl, rfl⟩ | cases selector
  have left := numbered.left h.inOrder.nested full solid h.rooted.root
  rw [← (h.takesOut_strayFonts full _).sheet] at left
  obtain ⟨l', place', left⟩ := exists_of_forall₂ left (Tree.mem_staying.2 ⟨place, stays⟩)
  have same : l'.branch.id = l.branch.id := by rw [left.branch, id_rest]
  rw [Tree.isAttached_iff, ← same]
  exact List.mem_map_of_mem (Tree.mem_attached_of_place place')

/-- **A font that is used stays** when all fonts are kept that are used, if neither its family nor those of fonts that
it stands in have quotes around them, and these are used too. -/
theorem Grammatical.used_font_stays (h : s.Grammatical) (full : ∀ b ∈ s.tree.attached, b.isEmptied = false)
    (place : l ∈ s.tree.sheet.locate []) (face : l.branch.kind.isFace = true) {family : String}
    (declares : s.declaredFont? l.branch = some family)
    (used : ∀ p ∈ s.tree.sheet.locate [], p.branch.node ∈ l.branch.node :: l.above → p.branch.kind.isFace = true →
      ∀ family, s.declaredFont? p.branch = some family → family ∈ s.usedFonts ∧ stripQuotes family = family) :
    (s.pruneFonts s.usedFonts).2.tree.isAttached l.branch.id = true := by
  refine h.font_stays full place face declares fun p hp above face family declares => ?_
  obtain ⟨mem, bare⟩ := used p hp above face family declares
  obtain ⟨⟨text, rfl⟩, -⟩ := exists_of_declaredFont? declares
  exact List.mem_map.2 ⟨_, mem, (Font.normalize_again_iff text).2 bare⟩

/-- A family that is used goes if there are quotes in its quotes. -/
example :
    let s := parse "a\x7bfont-family:\"'x'\"\x7d@font-face\x7bfont-family:\"'x'\"\x7d" none
    s.usedFonts = ["'x'"] ∧ s.declaredFonts = ["'x'"] ∧ (s.pruneFonts s.usedFonts).2.declaredFonts = [] := by
  decide +kernel

/-! ## Fonts that are used -/

theorem mem_usedFonts {family : String} :
    family ∈ s.usedFonts ↔ ∃ l ∈ s.tree.sheet.locate [], (∀ n ∈ l.above, n.kind.isFace = false)
      ∧ family ∈ s.familiesOf l.branch := by
  simp only [usedFonts, List.mem_eraseDups, List.mem_flatMap, List.mem_filter, Bool.not_eq_true', List.any_eq_false,
    Bool.not_eq_true, and_assoc]
  rfl

/-- **The families of a `font` declaration** are those of the shorthand that its value is. -/
theorem familiesOf_font {property : String} {value : Branch} (f : Font.Shorthand)
    (declares : b.kind.property? = some property) (font : Text.eqIgnoreCase property "font" = true)
    (found : b.value? = some value) (text : (s.textOf value).toList = f.text) :
    s.familiesOf b = (f.families.map fun entry => Font.normalize (String.ofList entry)).filter (· ≠ "") := by
  have other : Text.eqIgnoreCase property "font-family" = false := by
    rw [Bool.eq_false_iff]
    intro family
    rw [Text.eqIgnoreCase_iff] at font family
    exact absurd (font.symm.trans family) (by decide)
  rw [familiesOf, declares, found]
  simp only [other, font, if_true, Bool.false_eq_true, if_false]
  rw [text, f.families_text]

/-- With a weight and a line height, and quotes around one of the families. -/
example :
    (parse "a\x7bfont:italic 700 1.5EM/**/ / 2 'A, B' , Serif\x7d" none).usedFonts = ["a, b", "serif"] := by decide +kernel

end Stylesheet

end AboveFold
