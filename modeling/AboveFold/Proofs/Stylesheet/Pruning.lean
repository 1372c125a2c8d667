import AboveFold.Proofs.Stylesheet.Passes

/-!
# What pruning achieves

A pruned stylesheet has nothing left of what any of the passes takes out, and what is left stands in the
order it was read in. Pruning twice is pruning by what is critical both times, and the passes may be run in
any order, as long as empty rules are removed at last.
-/

namespace AboveFold
open Branch

namespace Pass

/-- The passes of `Stylesheet.pruned`, before empty rules are removed. -/
def pipeline (critical : List String) (o : Prune.Options) : List Pass :=
  [media, selectors critical, filters o.filters, atRules o.atRules, interactive, embeds o.maxEmbed]
    ++ o.fonts.toList.map fonts ++ [comments]

/-- The passes that take out what is marked, one of each, and the pass that takes comments out. -/
def independent (critical names : List String) (limit : Nat) (used : List String) : List Pass :=
  [media, selectors critical, atRules names, interactive, embeds limit, unused used, comments]

theorem planned_pipeline (critical names : List String) (limit : Nat) :
    ∀ p ∈ pipeline critical ⟨.keepAll, names, none, limit⟩, p.IsPlanned := by
  simp [pipeline, IsPlanned, IsMarking]

theorem planned_independent (critical names : List String) (limit : Nat) (used : List String) :
    ∀ p ∈ independent critical names limit used, p.IsPlanned := by
  simp [independent, IsPlanned, IsMarking]

end Pass

namespace Stylesheet

variable {s s' : Stylesheet} {ps qs : List Pass} {critical names : List String} {limit : Nat}

theorem pruned_eq (s : Stylesheet) (critical : List String) (o : Prune.Options) :
    s.pruned critical o = ((Pass.pipeline critical o).foldl Pass.apply s).pruneEmptied.2 := by
  obtain ⟨filters, atRules, fonts, maxEmbed⟩ := o
  cases fonts <;> rfl

theorem InOrder.pruned_reduces (h : s.InOrder) (critical names : List String) (limit : Nat) :
    Reduces (Pass.pipeline critical ⟨.keepAll, names, none, limit⟩ ++ [.emptied]) s
      (s.pruned critical ⟨.keepAll, names, none, limit⟩) := by
  have passed := h.passes (Pass.planned_pipeline critical names limit)
  rw [pruned_eq]
  exact .trans h passed passed.inOrder.removeEmptied

/-! ## What is left -/

/-- Nothing is left that any of several passes takes out, no comment and nothing empty. -/
structure Finished (ps : List Pass) (s : Stylesheet) : Prop where
  clean : (Pass.marks ps).Clean [] s.tree.sheet
  free : ∀ b ∈ s.tree.attached, b.kind.isComment = false
  full : ∀ b ∈ s.tree.attached, b.isEmptied = false

theorem Reduces.clean (h : s.InOrder) (reduces : Reduces ps s s') :
    (Pass.marks ps).Clean [] s'.pruneEmptied.2.tree.sheet := by
  have regular := Pass.regular_marks ps
  have nested : s.tree.sheet.unnumbered.Nested := nested_unnumbered.2 h.nested
  have cut := (Pass.thinned_plan ps [] s.tree.sheet.unnumbered).nested nested
  have top : Pass.marks ps [] s.tree.sheet.unnumbered = false := by
    rw [Bool.eq_false_iff]
    intro marked
    have prunable := (regular.prunable _ _ marked).1
    rw [kind_unnumbered, h.rooted.root] at prunable
    cases prunable
  have clean : (Pass.marks ps).Clean [] (cutBelow (Pass.plan ps) [] s.tree.sheet.unnumbered) :=
    regular.clean_cutBelow (Pass.airs_spacing ps) nested top
  refine .of_unnumbered regular ?_
  rw [reduces.pruneEmptied]
  exact regular.clean_of_thinned (thinned_swept _) cut clean

theorem Reduces.free (h : s.InOrder) (reduces : Reduces ps s s') (comments : ps.any Pass.isComments = true) :
    ∀ b ∈ s'.pruneEmptied.2.tree.attached, b.kind.isComment = false := by
  have spacing : Pass.spacing ps = uncommented := by rw [Pass.spacing, if_pos comments]
  have nested : s.tree.sheet.unnumbered.Nested := nested_unnumbered.2 h.nested
  have free : ∀ c ∈ preorderAll s'.pruneEmptied.2.tree.sheet.unnumbered.children, c.kind.isComment = false := by
    rw [reduces.pruneEmptied]
    refine (thinned_swept _).below.isComment ?_
    rw [Pass.plan, spacing]
    exact isComment_cutBelow (Pass.regular_marks ps) nested
  intro b mem
  rcases mem_preorder.1 mem with rfl | mem
  · rw [reduces.inOrder.rooted.removeEmptied.root]
    rfl
  · rw [children_unnumbered, preorderAll_unnumbered] at free
    rw [← kind_unnumbered]
    exact free _ (List.mem_map_of_mem mem)

theorem Reduces.full (reduces : Reduces ps s s') : ∀ b ∈ s'.pruneEmptied.2.tree.attached, b.isEmptied = false := by
  have sheet : s'.pruneEmptied.2.tree.sheet = s'.tree.sheet.swept := s'.tree.removeEmptied_sheet
  intro b mem
  rcases mem_preorder.1 mem with rfl | mem
  · rw [isEmptied, reduces.inOrder.rooted.removeEmptied.root]
  · rw [sheet] at mem
    exact full_swept _ b mem

/-- When the passes are done and empty rules are removed, nothing is left for them. -/
theorem Reduces.finished (h : s.InOrder) (reduces : Reduces ps s s') (comments : ps.any Pass.isComments = true) :
    s'.pruneEmptied.2.Finished ps :=
  ⟨reduces.clean h, reduces.free h comments, reduces.full⟩

theorem Finished.unmarked (finished : s.Finished ps) {p : Pass} (mem : p ∈ ps) {l : Located}
    (place : l ∈ s.tree.sheet.locate []) : p.mark (l.above.map Node.kind) l.branch = false := by
  have clean : p.mark.Clean (([] : List Node).map Node.kind) s.tree.sheet :=
    finished.clean.mono fun above b marked => List.any_eq_true.2 ⟨p, mem, marked⟩
  exact clean.unmarked l place

theorem Finished.unmarked_attached (finished : s.Finished ps) {p : Pass} (mem : p ∈ ps) {b : Branch}
    (attached : b ∈ s.tree.attached) : ∃ above, p.mark above b = false := by
  rw [Tree.attached, ← locate_branch []] at attached
  obtain ⟨l, place, rfl⟩ := List.mem_map.1 attached
  exact ⟨_, finished.unmarked mem place⟩

/-- Outside of animations, the selectors of a rule are critical. -/
theorem Finished.selectors_critical (finished : s.Finished ps) (nested : s.tree.sheet.Nested)
    (mem : Pass.selectors critical ∈ ps) {l : Located} (place : l ∈ s.tree.sheet.locate [])
    (outside : withinStop (l.branch.node :: l.above) = false) {c : Branch} (selector : c ∈ l.branch.selectors) :
    ∃ text ∈ critical, c.kind = .selector (Text.normalizeSelector text) := by
  have located {l : Located} : l ∈ s.tree.sheet.locate [] ↔ l ∈ locateAll [] [s.tree.sheet] := by
    simp [mem_locateAll]
  obtain ⟨list, found, child⟩ : ∃ list, l.branch.selectorList? = some list ∧ c ∈ list.children := by
    unfold Branch.selectors at selector
    cases found : l.branch.selectorList? with
    | none => simp [found] at selector
    | some list => exact ⟨list, rfl, by simpa [found] using selector⟩
  have kind : list.kind = .selectorList := by simpa using List.find?_some found
  have inside := Located.child_mem (located.1 place) (List.mem_of_find?_eq_some found)
  have below := Located.child_mem inside child
  have unmarked := finished.unmarked mem (located.2 below)
  have outside : withinStop (list.node :: l.branch.node :: l.above) = false := by
    have kind : list.node.kind = .selectorList := kind
    rw [withinStop, kind, outside]
    rfl
  have held : c.kind.isSelector = true := by
    have attached : list ∈ s.tree.sheet.preorder := by
      rw [← locate_branch []]
      exact List.mem_map_of_mem (located.2 inside)
    have holds := nested list attached c child
    rwa [kind] at holds
  cases k : c.kind with
  | selector text =>
    have mark : Pass.mark (.selectors critical) ((list.node :: l.branch.node :: l.above).map Node.kind) c
        = !(critical.map Text.normalizeSelector).contains text := Mark.uncritical_of_selector k outside
    rw [mark, Bool.not_eq_false'] at unmarked
    obtain ⟨t, ht, rfl⟩ := List.mem_map.1 (List.contains_iff_mem.1 unmarked)
    exact ⟨t, ht, rfl⟩
  | _ => rw [k] at held; cases held

theorem Finished.isUsefulMedia (finished : s.Finished ps) (mem : Pass.media ∈ ps) {b : Branch}
    (attached : b ∈ s.tree.attached) (atRule : b.kind.isAtRule = true) : b.isUsefulMedia = true := by
  obtain ⟨above, unmarked⟩ := finished.unmarked_attached mem attached
  simpa [Pass.mark, Mark.among, atRule] using unmarked

theorem Finished.isAtRuleNamed (finished : s.Finished ps) (mem : Pass.atRules names ∈ ps) {b : Branch}
    (attached : b ∈ s.tree.attached) {name : String} (excluded : name ∈ names) :
    b.kind.isAtRuleNamed name = false := by
  obtain ⟨above, unmarked⟩ := finished.unmarked_attached mem attached
  cases named : b.kind.isAtRuleNamed name with
  | false => rfl
  | true =>
    have atRule : b.kind.isAtRule = true := by
      cases k : b.kind <;> rw [k] at named <;> first | rfl | cases named
    have any : names.any b.kind.isAtRuleNamed = true := List.any_eq_true.2 ⟨name, excluded, named⟩
    rw [Pass.mark, Mark.among, atRule, any] at unmarked
    cases unmarked

theorem Finished.isInteractive (finished : s.Finished ps) (mem : Pass.interactive ∈ ps) {b : Branch}
    (attached : b ∈ s.tree.attached) {property : String} {important : Bool}
    (kind : b.kind = .declaration property important) : Prune.isInteractive property = false := by
  obtain ⟨above, unmarked⟩ := finished.unmarked_attached mem attached
  rw [Pass.mark, Mark.among, kind] at unmarked
  exact unmarked

theorem Finished.isLargeEmbed (finished : s.Finished ps) (mem : Pass.embeds limit ∈ ps) {b c : Branch}
    (attached : b ∈ s.tree.attached) (declaration : b.kind.isDeclaration = true) (inside : c ∈ b.preorder)
    {url : String} {quote : Option Char} (kind : c.kind = .url url quote) : Prune.isLargeEmbed limit url = false := by
  obtain ⟨above, unmarked⟩ := finished.unmarked_attached mem attached
  rw [Pass.mark, Mark.among, declaration] at unmarked
  have small := List.any_eq_false.1 unmarked c inside
  rw [kind] at small
  exact Bool.eq_false_iff.2 small

/-- What pruning by the selectors `critical`, without the at-rules `names` and without embedded data of more
than `limit` bytes, makes of a stylesheet. -/
structure Pruned (critical names : List String) (limit : Nat) (s s' : Stylesheet) : Prop where
  comments : ∀ b ∈ s'.tree.attached, b.kind.isComment = false
  full : ∀ b ∈ s'.tree.attached, b.isEmptied = false
  /-- A rule that is no stop of an animation and stands in none has critical selectors only. -/
  critical : ∀ l ∈ s'.tree.sheet.locate [], l.branch.kind.isRule = true →
    withinStop (l.branch.node :: l.above) = false →
    ∀ c ∈ l.branch.selectors, ∃ text ∈ critical, c.kind = .selector (Text.normalizeSelector text)
  media : ∀ b ∈ s'.tree.attached, b.kind.isAtRule = true → b.isUsefulMedia = true
  atRules : ∀ b ∈ s'.tree.attached, ∀ name ∈ names, b.kind.isAtRuleNamed name = false
  interactive : ∀ b ∈ s'.tree.attached, ∀ property important, b.kind = .declaration property important →
    Prune.isInteractive property = false
  embeds : ∀ b ∈ s'.tree.attached, b.kind.isDeclaration = true →
    ∀ c ∈ b.preorder, ∀ url quote, c.kind = .url url quote → Prune.isLargeEmbed limit url = false
  /-- Rules, at-rules and declarations were there before, in the same order. -/
  statements : s'.tree.sheet.statements.Sublist s.tree.sheet.statements

/-- **Pruning does what it promises**, all of it at once, whatever the source. -/
theorem pruned_parse (source : String) (path : Option String) (critical names : List String) (limit : Nat) :
    Pruned critical names limit (parse source path)
      ((parse source path).pruned critical ⟨.keepAll, names, none, limit⟩) := by
  have h := inOrder_parse source path
  generalize parse source path = s at h
  have reduces := h.passes (Pass.planned_pipeline critical names limit)
  have finished := reduces.finished h rfl
  have done := h.pruned_reduces critical names limit
  rw [← pruned_eq] at finished
  generalize s.pruned critical ⟨.keepAll, names, none, limit⟩ = s' at finished done
  refine ⟨finished.free, finished.full, ?_, ?_, ?_, ?_, ?_, done.thinned.statements⟩
  · intro l place _ outside c selector
    exact finished.selectors_critical done.inOrder.nested (by simp [Pass.pipeline]) place outside selector
  · intro b attached atRule
    exact finished.isUsefulMedia (by simp [Pass.pipeline]) attached atRule
  · intro b attached name excluded
    exact finished.isAtRuleNamed (by simp [Pass.pipeline]) attached excluded
  · intro b attached property important kind
    exact finished.isInteractive (by simp [Pass.pipeline]) attached kind
  · intro b attached declaration c inside url quote kind
    exact finished.isLargeEmbed (by simp [Pass.pipeline]) attached declaration inside kind

/-! ## Pruning twice -/

/-- What is critical twice is what is critical both times. -/
theorem uncritical_or {R S T : List String} (common : ∀ text, text ∈ R ↔ text ∈ S ∧ text ∈ T) :
    (Mark.uncritical S).or (.uncritical T) = .uncritical R := by
  have both (text : String) : R.contains text = (S.contains text && T.contains text) := by
    rw [Bool.eq_iff_iff, Bool.and_eq_true, List.contains_iff_mem, List.contains_iff_mem, List.contains_iff_mem]
    exact common text
  funext above b
  rw [Mark.or, Mark.uncritical, Mark.uncritical, Mark.uncritical]
  cases b.kind.selector? with
  | none => rfl
  | some text =>
    simp only [Option.any_some, both]
    cases S.contains text <;> cases T.contains text <;> cases withinStop (above.map Node.bare) <;> rfl

/-- Pruning twice is planned as pruning by what is critical both times. -/
theorem plan_pruned_twice {R S T : List String} (o : Prune.Options)
    (common : ∀ text, text ∈ R.map Text.normalizeSelector
      ↔ text ∈ S.map Text.normalizeSelector ∧ text ∈ T.map Text.normalizeSelector) :
    Pass.plan (Pass.pipeline S o ++ [.emptied] ++ Pass.pipeline T o) = Pass.plan (Pass.pipeline R o) := by
  let others : List Pass := [.filters o.filters, .atRules o.atRules, .interactive, .embeds o.maxEmbed]
    ++ o.fonts.toList.map .fonts ++ [.comments]
  have split (S : List String) : Pass.pipeline S o = .media :: .selectors S :: others := rfl
  have marks : Pass.marks (Pass.pipeline S o ++ [.emptied] ++ Pass.pipeline T o) = Pass.marks (Pass.pipeline R o) := by
    funext above b
    have both : ((Pass.selectors S).mark above b || (Pass.selectors T).mark above b)
        = (Pass.selectors R).mark above b :=
      congrFun (congrFun (uncritical_or common) above) b
    have none : Pass.emptied.mark above b = false := rfl
    simp only [Pass.marks, split, List.any_append, List.any_cons, List.any_nil, ← both, none]
    cases Pass.media.mark above b <;> cases (Pass.selectors S).mark above b <;>
      cases (Pass.selectors T).mark above b <;> cases others.any fun p => p.mark above b <;> rfl
  have spacing {ps : List Pass} (mem : .comments ∈ ps) : Pass.spacing ps = uncommented := by
    rw [Pass.spacing, if_pos (List.any_eq_true.2 ⟨_, mem, rfl⟩)]
  rw [Pass.plan, Pass.plan, marks, spacing (by simp [Pass.pipeline]), spacing (by simp [Pass.pipeline])]

/-- A stylesheet that passes have nothing to do with stays the same in each of them. -/
theorem Finished.run (finished : s.Finished ps) (h : s.InOrder) {p : Pass} (mem : p ∈ ps) (planned : p.IsPlanned) :
    p.run s = (0, s) := by
  rcases planned with marking | rfl | rfl
  · exact h.run_of_clean marking (finished.clean.mono fun above b marked => List.any_eq_true.2 ⟨p, mem, marked⟩)
  · exact h.run_comments finished.free
  · exact run_emptied finished.full

/-- A stylesheet that stays the same in each of some passes stays the same in all of them. -/
theorem foldl_apply_eq_self (same : ∀ p ∈ ps, Pass.run s p = (0, s)) : ps.foldl Pass.apply s = s := by
  induction ps with
  | nil => rfl
  | cons p ps ih =>
    simp only [List.mem_cons, forall_eq_or_imp] at same
    have once : p.apply s = s := by rw [← Pass.run_snd, same.1]
    rw [List.foldl_cons, once, ih same.2]

/-- **Pruning composes.** What is left after pruning by `S` and then by `T` is what is left after pruning by
the selectors that are critical both times, if these are in normal form. Pruning again by the same selectors
changes nothing, and none of the passes removes anything then. -/
theorem pruned_pruned (source : String) (path : Option String) :
    (∀ R S T : List String,
      (∀ text, text ∈ R ↔ text ∈ S.map Text.normalizeSelector ∧ text ∈ T.map Text.normalizeSelector) →
      (∀ text ∈ R, Text.normalizeSelector text = text) →
      (((parse source path).pruned S .standard).pruned T .standard).render
        = ((parse source path).pruned R .standard).render)
    ∧ ∀ S : List String,
      (((parse source path).pruned S .standard).pruned S .standard).render
        = ((parse source path).pruned S .standard).render
      ∧ ∀ p ∈ Pass.pipeline S .standard ++ [.emptied],
          p.run ((parse source path).pruned S .standard) = (0, (parse source path).pruned S .standard) := by
  have h := inOrder_parse source path
  generalize parse source path = s at h
  have planned (S : List String) : ∀ p ∈ Pass.pipeline S .standard, p.IsPlanned :=
    Pass.planned_pipeline S [] Prune.maxEmbed
  have reduces (S : List String) : Reduces (Pass.pipeline S .standard ++ [.emptied]) s (s.pruned S .standard) :=
    h.pruned_reduces S [] Prune.maxEmbed
  refine ⟨fun R S T common fixed => ?_, fun S => ?_⟩
  · have normal : R.map Text.normalizeSelector = R := (List.map_congr_left fixed).trans (List.map_id' R)
    have twice := Reduces.trans h (reduces S) ((reduces S).inOrder.passes (planned T))
    have once := h.passes (planned R)
    rw [← normal] at common
    rw [pruned_eq _ T, pruned_eq _ R]
    exact twice.render_eq once (plan_pruned_twice _ common)
  · have finished := (h.passes (planned S)).finished h rfl
    rw [← pruned_eq] at finished
    have same : ∀ p ∈ Pass.pipeline S .standard ++ [.emptied],
        p.run (s.pruned S .standard) = (0, s.pruned S .standard) := by
      intro p mem
      rcases List.mem_append.1 mem with mem | mem
      · exact finished.run (reduces S).inOrder mem (planned S p mem)
      · obtain rfl := List.mem_singleton.1 mem
        exact run_emptied finished.full
    refine ⟨?_, same⟩
    have all := foldl_apply_eq_self same
    rw [List.foldl_append] at all
    rw [pruned_eq (s.pruned S .standard)]
    exact congrArg render all

/-- After pruning by `a` and `b`, and then by `b` and `c`, the rules of `b` are left. -/
theorem pruned_pruned_common :
    let s := parse "a,b{d:e}/**/a{d:e}b{f:g}" none
    (∀ text, text ∈ ["b"] ↔ text ∈ ["a", "b"].map Text.normalizeSelector ∧ text ∈ ["b", "c"].map Text.normalizeSelector)
      ∧ (∀ text ∈ ["b"], Text.normalizeSelector text = text)
      ∧ ((s.pruned ["a", "b"] .standard).pruned ["b", "c"] .standard).render = (s.pruned ["b"] .standard).render
      ∧ (s.pruned ["b"] .standard).render = "b{d:e}b{f:g}" := by
  have first : ["a", "b"].map Text.normalizeSelector = ["a", "b"] := by decide +kernel
  have second : ["b", "c"].map Text.normalizeSelector = ["b", "c"] := by decide +kernel
  have common : ∀ text, text ∈ ["b"]
      ↔ text ∈ ["a", "b"].map Text.normalizeSelector ∧ text ∈ ["b", "c"].map Text.normalizeSelector := by
    intro text
    rw [first, second]
    simp only [List.mem_cons, List.not_mem_nil, or_false]
    grind
  have fixed : ∀ text ∈ ["b"], Text.normalizeSelector text = text := by decide +kernel
  exact ⟨common, fixed, (pruned_pruned _ none).1 _ _ _ common fixed, by decide +kernel⟩

/-! ## The order of passes -/

/-- **The passes can be run in any order.** As long as empty rules are removed at last, what is left reads
the same. -/
theorem render_independent (source : String) (path : Option String) (critical names : List String) (limit : Nat)
    (used : List String) (ps qs : List Pass) (hps : ps.Perm (Pass.independent critical names limit used))
    (hqs : qs.Perm (Pass.independent critical names limit used)) :
    (ps.foldl Pass.apply (parse source path)).pruneEmptied.2.render
      = (qs.foldl Pass.apply (parse source path)).pruneEmptied.2.render := by
  have h := inOrder_parse source path
  have planned := Pass.planned_independent critical names limit used
  have one := h.passes fun p mem => planned p (hps.mem_iff.1 mem)
  have other := h.passes fun p mem => planned p (hqs.mem_iff.1 mem)
  exact one.render_eq other (Pass.plan_perm (hps.trans hqs.symm))

/-- The passes as they stand and the other way round. -/
theorem render_independent_reverse :
    let s := parse "a{x:/**/y}@media print{a{x:y}}b{cursor:c}" none
    let ps := Pass.independent ["a", "b"] [] 10 []
    ps.Perm ps ∧ ps.reverse.Perm ps
      ∧ (ps.foldl Pass.apply s).pruneEmptied.2.render = (ps.reverse.foldl Pass.apply s).pruneEmptied.2.render
      ∧ (ps.foldl Pass.apply s).pruneEmptied.2.render = "a{x:y}" :=
  ⟨.refl _, List.reverse_perm _, render_independent _ none ["a", "b"] [] 10 [] _ _ (.refl _) (List.reverse_perm _),
    by decide +kernel⟩

end Stylesheet

end AboveFold
