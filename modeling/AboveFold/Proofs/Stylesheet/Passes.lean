import AboveFold.Proofs.Prune.Marks
import AboveFold.Proofs.Stylesheet.Walks

/-!
# Passes as plans

A pass that takes nodes out does to a style sheet what its plan says, up to numbers and up to empty rules,
which go in any case. Plans can be joined and sweeping in between does not matter, so any run of passes that
ends with the removal of empty rules leaves what the joined plan and one sweep leave.
-/

namespace AboveFold
open Branch

namespace Pass

/-- What a pass takes out. Passes that go by more than a mark can say mark nothing. -/
def mark : Pass → Mark
  | media => .among Node.Kind.isAtRule (!·.isUsefulMedia)
  | selectors critical => .uncritical (critical.map Text.normalizeSelector)
  | atRules names => .among Node.Kind.isAtRule fun b => names.any b.kind.isAtRuleNamed
  | interactive => .among Node.Kind.isDeclaration fun b => b.kind.property?.any Prune.isInteractive
  | embeds limit => .among Node.Kind.isDeclaration (hasLargeEmbed limit)
  | unused used => .among Node.Kind.isDeclaration fun b => b.definition?.any (!used.contains ·)
  | _ => .never

/-- Whether a pass takes comments out. -/
def isComments : Pass → Bool
  | comments => true
  | _ => false

/-- Whether a pass takes out what is marked and does nothing else. -/
def IsMarking : Pass → Prop
  | filters f => f = .keepAll
  | media | selectors _ | atRules _ | interactive | embeds _ | unused _ => True
  | _ => False

/-- Whether a pass does no more than to take out what is marked, or comments, or what is empty. -/
def IsPlanned (p : Pass) : Prop := p.IsMarking ∨ p = comments ∨ p = emptied

/-- A pass, with the number of nodes that it counts. -/
def run (s : Stylesheet) : Pass → Nat × Stylesheet
  | media => s.pruneMedia
  | selectors critical => s.pruneSelectors critical
  | filters f => s.applyFilters f
  | atRules names => s.pruneAtRules names
  | interactive => s.pruneInteractive
  | embeds limit => s.pruneEmbeds limit
  | fonts kept => s.pruneFonts kept
  | unused used => s.pruneVariables used
  | allUnused => s.pruneVariablesFully
  | comments => s.pruneComments
  | absolutify base => s.absolutify base
  | emptied => s.pruneEmptied

theorem run_snd (s : Stylesheet) (p : Pass) : (p.run s).2 = p.apply s := by
  cases p <;> rfl

/-- What any of several passes takes out. -/
def marks (ps : List Pass) : Mark := fun above b => ps.any fun p => p.mark above b

/-- What several passes make of component values. -/
def spacing (ps : List Pass) : Branch → Cut := if ps.any isComments then uncommented else keep

/-- What several passes do. -/
def plan (ps : List Pass) : Plan := .pruning (marks ps) (spacing ps)

variable {p : Pass} {ps : List Pass}

theorem steady_media : Mark.Steady Node.Kind.isAtRule (!·.isUsefulMedia) where
  thinned := fun _ _ _ _ thinned => congrArg (!·) thinned.isUsefulMedia
  blind := fun b => congrArg (!·) (isUsefulMedia_unnumbered b)

theorem steady_embeds (limit : Nat) : Mark.Steady Node.Kind.isDeclaration (hasLargeEmbed limit) where
  thinned := fun _ _ nested declaration thinned => thinned.hasLargeEmbed nested declaration limit
  blind := hasLargeEmbed_unnumbered limit

theorem steady_unused (used : List String) :
    Mark.Steady Node.Kind.isDeclaration fun b => b.definition?.any (!used.contains ·) :=
  Mark.steady_of_kind _ fun k => (k.property?.filter (·.startsWith "--")).any (!used.contains ·)

theorem regular_mark (p : Pass) : p.mark.Regular := by
  cases p with
  | media => exact Mark.regular_atRules steady_media
  | selectors critical => exact Mark.regular_uncritical _
  | atRules names => exact Mark.regular_atRules (Mark.steady_of_kind _ fun k => names.any k.isAtRuleNamed)
  | interactive =>
    exact Mark.regular_declarations (Mark.steady_of_kind _ fun k => k.property?.any Prune.isInteractive)
  | embeds limit => exact Mark.regular_declarations (steady_embeds limit)
  | unused used => exact Mark.regular_declarations (steady_unused used)
  | _ => exact Mark.regular_never

theorem regular_marks (ps : List Pass) : (marks ps).Regular := by
  induction ps with
  | nil => exact Mark.regular_never
  | cons p ps ih => exact (regular_mark p).or ih

theorem plan_nil : plan [] = .pruning .never keep := rfl

theorem plan_emptied : plan [emptied] = .pruning .never keep := rfl

theorem airs_spacing (ps : List Pass) : Airs (spacing ps) := by
  unfold spacing
  split
  · exact airs_uncommented
  · exact airs_keep

/-- Comments can be taken out once or twice. -/
theorem spacing_append (ps qs : List Pass) (b : Branch) :
    (spacing ps b).bind (spacing qs) = spacing (ps ++ qs) b := by
  have single : (keep b).bind uncommented = uncommented b := Cut.each_single _ b
  unfold spacing
  rw [List.any_append]
  cases ps.any isComments with
  | true =>
    cases qs.any isComments with
    | true => exact uncommented_bind_uncommented b
    | false => exact Cut.bind_eq_self fun _ _ => rfl
  | false =>
    cases qs.any isComments with
    | true => exact single
    | false => rfl

/-- Some passes and then others are all of them. -/
theorem cutBelow_plan (ps qs : List Pass) {above : List Node.Kind} {b : Branch} (nested : b.Nested) :
    cutBelow (plan qs) above (cutBelow (plan ps) above b) = cutBelow (plan (ps ++ qs)) above b := by
  have marked : (marks ps).or (marks qs) = marks (ps ++ qs) := by
    funext above b
    exact List.any_append.symm
  have spaced : (fun b => (spacing ps b).bind (spacing qs)) = spacing (ps ++ qs) := funext (spacing_append ps qs)
  rw [plan, plan, cutBelow_pruning (regular_marks ps) (regular_marks qs) (airs_spacing ps) nested, marked, spaced]
  rfl

/-- The order of passes does not matter for what they do together. -/
theorem plan_perm {qs : List Pass} (perm : ps.Perm qs) : plan ps = plan qs := by
  have marked : marks ps = marks qs := by
    funext above b
    exact perm.any_eq
  have spaced : spacing ps = spacing qs := by rw [spacing, spacing, perm.any_eq]
  rw [plan, plan, marked, spaced]

theorem swept_cutBelow_plan_swept (ps : List Pass) {above : List Node.Kind} {b : Branch} (nested : b.Nested) :
    (cutBelow (plan ps) above b.swept).swept = (cutBelow (plan ps) above b).swept :=
  swept_cutBelow_swept (regular_marks ps) (airs_spacing ps) nested

theorem thinned_plan (ps : List Pass) (above : List Node.Kind) (b : Branch) : b.Thinned (cutBelow (plan ps) above b) :=
  thinned_cutBelow (thins_pruning (regular_marks ps) (airs_spacing ps)) above b

end Pass

/-! ## Single passes -/

namespace Stylesheet

variable {s s' s'' : Stylesheet} {v : Visitor} {μ : Mark} {reached : List Node → Prop} {π : Plan} {ps qs : List Pass}

/-- A stylesheet whose tree is in order and nested, and starts at a style sheet. -/
structure InOrder (s : Stylesheet) : Prop where
  rooted : s.Rooted
  nested : s.tree.sheet.Nested

theorem inOrder_parse (source : String) (path : Option String) : (parse source path).InOrder :=
  ⟨rooted_parse source path, (parse_nested source path).2⟩

/-- A stylesheet comes about from another by some passes, up to numbers and empty rules. -/
structure Reduces (ps : List Pass) (s s' : Stylesheet) : Prop where
  inOrder : s'.InOrder
  source : s'.source = s.source
  thinned : s.tree.sheet.Thinned s'.tree.sheet
  swept : s'.tree.sheet.unnumbered.swept = (cutBelow (Pass.plan ps) [] s.tree.sheet.unnumbered).swept

theorem Reduces.refl (h : s.InOrder) : Reduces [] s s :=
  ⟨h, rfl, .refl _, by rw [Pass.plan_nil, cutBelow_never]⟩

theorem Reduces.trans (h : s.InOrder) (first : Reduces ps s s') (later : Reduces qs s' s'') :
    Reduces (ps ++ qs) s s'' where
  inOrder := later.inOrder
  source := later.source.trans first.source
  thinned := first.thinned.trans later.thinned
  swept := by
    have nested : s.tree.sheet.unnumbered.Nested := nested_unnumbered.2 h.nested
    have nested' : s'.tree.sheet.unnumbered.Nested := nested_unnumbered.2 first.inOrder.nested
    have cut := (Pass.thinned_plan ps [] s.tree.sheet.unnumbered).nested nested
    -- the sweep between the two plans is put in, taken over from the first, and left out again
    calc s''.tree.sheet.unnumbered.swept
        = (cutBelow (Pass.plan qs) [] s'.tree.sheet.unnumbered).swept := later.swept
      _ = (cutBelow (Pass.plan qs) [] s'.tree.sheet.unnumbered.swept).swept :=
          (Pass.swept_cutBelow_plan_swept qs nested').symm
      _ = (cutBelow (Pass.plan qs) [] (cutBelow (Pass.plan ps) [] s.tree.sheet.unnumbered).swept).swept := by
          rw [first.swept]
      _ = (cutBelow (Pass.plan qs) [] (cutBelow (Pass.plan ps) [] s.tree.sheet.unnumbered)).swept :=
          Pass.swept_cutBelow_plan_swept qs cut
      _ = (cutBelow (Pass.plan (ps ++ qs)) [] s.tree.sheet.unnumbered).swept := by
          rw [Pass.cutBelow_plan ps qs nested]

/-- A walk that does what is planned, before what it left empty goes. -/
theorem InOrder.walk (h : s.InOrder) (descends : v ⟨[], [], s.tree.sheet, []⟩ = .descend)
    (thinned : s.tree.sheet.Thinned (s.tree.unsettled v).sheet)
    (planned : (s.tree.unsettled v).sheet.unnumbered = cutBelow (Pass.plan ps) [] s.tree.sheet.unnumbered) :
    Reduces ps s { s with tree := (s.tree.walk v).tree } := by
  have settles := h.rooted.numbered.walk_settles v
  have thinned := thinned.trans settles.thinned
  refine ⟨⟨h.rooted.walk descends, thinned.nested h.nested⟩, rfl, thinned, ?_⟩
  rw [← planned, swept_unnumbered, swept_unnumbered, settles.swept]

/-- The walk of a visitor that obeys the mark of a pass. -/
theorem InOrder.walk_of_obeys (h : s.InOrder) {p : Pass} (other : p.isComments = false)
    (descends : v ⟨[], [], s.tree.sheet, []⟩ = .descend) (obeys : v.Obeys reached p.mark)
    (here : reached [s.tree.sheet.node]) : Reduces [p] s { s with tree := (s.tree.walk v).tree } := by
  have regular := p.regular_mark
  have marked : Pass.plan [p] = .pruning p.mark keep := by
    have marks : Pass.marks [p] = p.mark := by
      funext above b
      exact Bool.or_false _
    have spacing : Pass.spacing [p] = keep := by rw [Pass.spacing, List.any_cons, other]; rfl
    rw [Pass.plan, marks, spacing]
  have sheet := Tree.unsettled_of_obeys obeys regular.solid h.nested descends here
  refine h.walk descends ?_ ?_
  · rw [sheet]
    exact thinned_cutBelow (thins_pruning regular airs_keep) [] _
  · rw [sheet, marked, cutBelow_unnumbered (blind_pruning regular)]

theorem InOrder.removeEmptied (h : s.InOrder) : Reduces [.emptied] s s.pruneEmptied.2 := by
  have sheet : s.pruneEmptied.2.tree.sheet = s.tree.sheet.swept := s.tree.removeEmptied_sheet
  have thinned : s.tree.sheet.Thinned s.pruneEmptied.2.tree.sheet := sheet ▸ thinned_swept _
  refine ⟨⟨h.rooted.removeEmptied, thinned.nested h.nested⟩, rfl, thinned, ?_⟩
  have full : ∀ c ∈ s.tree.sheet.swept.preorder, c.isEmptied = false := by
    intro c mem
    rcases mem_preorder.1 mem with rfl | mem
    · have root : s.tree.sheet.swept.kind = .styleSheet := h.rooted.root
      rw [isEmptied, root]
    · exact full_swept _ c mem
  rw [Pass.plan_emptied, cutBelow_never, sheet, swept_unnumbered, swept_unnumbered, swept_eq_self full]

/-- A pass is the walk of a visitor that obeys a mark, whatever is left of the tree. -/
structure Follows (s : Stylesheet) (p : Pass) (v : Visitor) (reached : List Node → Prop) (μ : Mark) : Prop where
  obeys : v.Obeys reached μ
  top : ∀ b : Branch, b.kind = .styleSheet → v ⟨[], [], b, []⟩ = .descend ∧ reached [b.node]
  run : ∀ tree, p.run { s with tree } = { s with tree }.pruneBy v

/-- A pass that takes out what is marked is a walk that does so. -/
theorem exists_visitor (s : Stylesheet) {p : Pass} (marking : p.IsMarking) :
    ∃ (v : Visitor) (reached : List Node → Prop), s.Follows p v reached p.mark := by
  cases p with
  | media => exact ⟨_, _, Prune.atRules_obeys _, fun b root => ⟨by simp only [Prune.atRules, root], trivial⟩, fun _ => rfl⟩
  | selectors critical =>
    refine ⟨_, _, Prune.uncritical_obeys _, fun b root => ⟨by simp only [Prune.uncritical, root], ?_⟩, fun _ => rfl⟩
    have root : b.node.kind = .styleSheet := root
    rw [withinStop, root]
    rfl
  | filters f =>
    obtain rfl : f = .keepAll := marking
    have obeys := s.filterVisitor_obeys .keepAll
    rw [unkept_keepAll] at obeys
    exact ⟨_, _, obeys, fun b root => ⟨by simp only [filterVisitor, root], trivial⟩, fun _ => rfl⟩
  | atRules names =>
    exact ⟨_, _, Prune.atRules_obeys _, fun b root => ⟨by simp only [Prune.atRules, root], trivial⟩, fun _ => rfl⟩
  | interactive =>
    have steady := Mark.steady_of_kind Node.Kind.isDeclaration fun k => k.property?.any Prune.isInteractive
    exact ⟨_, _, Prune.declarations_obeys steady, fun b root => ⟨by simp only [Prune.declarations, root], trivial⟩,
      fun _ => rfl⟩
  | embeds limit =>
    exact ⟨_, _, Prune.declarations_obeys (Pass.steady_embeds limit),
      fun b root => ⟨by simp only [Prune.declarations, root], trivial⟩, fun _ => rfl⟩
  | unused used =>
    exact ⟨_, _, Prune.declarations_obeys (Pass.steady_unused used),
      fun b root => ⟨by simp only [Prune.declarations, root], trivial⟩, fun _ => rfl⟩
  | _ => cases marking

/-- Each pass does what is planned. -/
theorem InOrder.pass (h : s.InOrder) {p : Pass} (planned : p.IsPlanned) : Reduces [p] s (p.apply s) := by
  have root := h.rooted.root
  rcases planned with marking | rfl | rfl
  · obtain ⟨v, reached, follows⟩ := s.exists_visitor marking
    obtain ⟨descends, here⟩ := follows.top _ root
    have run : p.run s = s.pruneBy v := follows.run s.tree
    have other : p.isComments = false := by
      cases p <;> first | rfl | cases marking
    rw [← p.run_snd, run]
    exact h.walk_of_obeys other descends follows.obeys here
  · have other : s.tree.sheet.kind.isComment = false := by rw [root]; rfl
    exact h.walk (by simp [Prune.comments, other]) (Tree.thinned_comments root) (Tree.unsettled_comments root)
  · exact h.removeEmptied

/-- Passes do together what their joined plan says. -/
theorem InOrder.passes (h : s.InOrder) (planned : ∀ p ∈ ps, p.IsPlanned) : Reduces ps s (ps.foldl Pass.apply s) := by
  induction ps generalizing s with
  | nil => exact .refl h
  | cons p ps ih =>
    simp only [List.mem_cons, forall_eq_or_imp] at planned
    have first := h.pass planned.1
    have all : Reduces ([p] ++ ps) s (ps.foldl Pass.apply (p.apply s)) := .trans h first (ih first.inOrder planned.2)
    exact all

/-- When empty rules are removed at last, what is left is what the plan and one sweep leave. -/
theorem Reduces.pruneEmptied (h : Reduces ps s s') : s'.pruneEmptied.2.tree.sheet.unnumbered
    = (cutBelow (Pass.plan ps) [] s.tree.sheet.unnumbered).swept := by
  have sheet : s'.pruneEmptied.2.tree.sheet = s'.tree.sheet.swept := s'.tree.removeEmptied_sheet
  rw [sheet, ← swept_unnumbered, h.swept]

/-- Stylesheets that differ in the numbers of their nodes read alike. -/
theorem render_eq (source : s.source = s'.source) (sheet : s.tree.sheet.unnumbered = s'.tree.sheet.unnumbered) :
    s.render = s'.render := by
  rw [render, render, ← render_unnumbered, sheet, render_unnumbered, source]

/-- What is left depends on what is planned only. -/
theorem Reduces.render_eq (one : Reduces ps s s') (other : Reduces qs s s'') (same : Pass.plan ps = Pass.plan qs) :
    s'.pruneEmptied.2.render = s''.pruneEmptied.2.render := by
  refine Stylesheet.render_eq (one.source.trans other.source.symm) ?_
  rw [one.pruneEmptied, other.pruneEmptied, same]

/-! ## Passes with nothing to do -/

/-- A walk that takes out what is marked does nothing where nothing is. -/
theorem InOrder.pruneBy_of_clean (h : s.InOrder) (obeys : v.Obeys reached μ) (solid : μ.Solid)
    (descends : v ⟨[], [], s.tree.sheet, []⟩ = .descend) (here : reached [s.tree.sheet.node])
    (clean : μ.Clean [] s.tree.sheet) : s.pruneBy v = (0, s) := by
  have below : Cut.each (cut (.pruning μ keep) [s.tree.sheet.kind]) s.tree.sheet.children
      = .whole s.tree.sheet.children := by
    refine Cut.each_eq_whole fun c mem => Mark.Clean.cut_eq_whole ?_
    generalize s.tree.sheet = sheet at clean mem
    obtain ⟨n, cs⟩ := sheet
    exact (Mark.clean_mk.1 clean).2 c mem
  have untouched : (s.tree.passed v).touched = false := by
    have walked := (walk_top_of_obeys obeys solid h.nested descends here (.start s.tree.size)).2
    rw [below] at walked
    exact walked
  rw [pruneBy, h.rooted.numbered.walk_untouched untouched]

/-- A pass does nothing where nothing is marked. -/
theorem InOrder.run_of_clean (h : s.InOrder) {p : Pass} (marking : p.IsMarking)
    (clean : p.mark.Clean [] s.tree.sheet) : p.run s = (0, s) := by
  obtain ⟨v, reached, follows⟩ := s.exists_visitor marking
  obtain ⟨descends, here⟩ := follows.top _ h.rooted.root
  exact (follows.run s.tree).trans (h.pruneBy_of_clean follows.obeys p.regular_mark.solid descends here clean)

/-- The pass over comments does nothing where there are none. -/
theorem InOrder.run_comments (h : s.InOrder) (none : ∀ b ∈ s.tree.attached, b.kind.isComment = false) :
    Pass.comments.run s = (0, s) := by
  have other : s.tree.sheet.kind.isComment = false := none _ (self_mem_preorder _)
  have structural : Prune.holdsComponents s.tree.sheet.kind = false := by rw [h.rooted.root]; rfl
  have below : Cut.each uncommented (s.tree.sheet.children.map unnumbered)
      = .whole (s.tree.sheet.children.map unnumbered) := by
    refine Cut.each_eq_whole fun c mem => uncomment_eq_whole c false .none .none fun d inside => ?_
    obtain ⟨c, child, rfl⟩ := List.mem_map.1 mem
    rw [preorder_unnumbered] at inside
    obtain ⟨d, below, rfl⟩ := List.mem_map.1 inside
    rw [kind_unnumbered]
    exact none d (mem_preorder.2 (.inr (mem_preorderAll.2 ⟨c, child, below⟩)))
  have untouched : (s.tree.passed Prune.comments).touched = false := by
    have walked := (walk_top_comments other structural (.start s.tree.size)).2
    rw [below] at walked
    exact walked
  rw [Pass.run, pruneComments, h.rooted.numbered.walk_untouched untouched]
  rfl

/-- Sweeping does nothing where nothing is empty. -/
theorem run_emptied (full : ∀ b ∈ s.tree.attached, b.isEmptied = false) : Pass.emptied.run s = (0, s) := by
  rw [Pass.run, pruneEmptied, Tree.removeEmptied_of_full full]

end Stylesheet

end AboveFold
