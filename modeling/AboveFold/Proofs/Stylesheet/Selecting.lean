import AboveFold.Critical
import AboveFold.Proofs.Prune.Remains
import AboveFold.Proofs.Stylesheet.Grammatical
import AboveFold.Proofs.Text.NormalForm

/-!
# Pruning by selectors

The pass over selectors takes out the selectors that are not critical, but for those in stops of animations,
and what falls with them, and nothing else (`Stylesheet.Grammatical.selectsExactly`). Where rules are not
nested no rule with a critical selector falls, so the selectors that are left are the critical ones. A list of
critical selectors can be normalized before, if no comment tears one
(`Stylesheet.pruneSelectors_criticalSelectors`).
-/

namespace AboveFold
open Branch

namespace Stylesheet

variable {s : Stylesheet}

/-- The places of the selectors that are not critical and stand in no stop of an animation. -/
def uncriticalPlaces (s : Stylesheet) (critical : List String) : List Located :=
  (s.tree.sheet.locate []).filter fun l =>
    l.branch.kind.selector?.any (fun text => !(critical.map Text.normalizeSelector).contains text)
      && !withinStop l.above

/-- No rule stands in another rule. -/
def IsFlat (s : Stylesheet) : Prop :=
  ∀ l ∈ s.tree.sheet.locate [], l.branch.kind = .rule → ∀ n ∈ l.above, n.kind ≠ .rule

/-- What pruning by critical selectors makes of a stylesheet, with the number of selectors it took out. -/
structure SelectsExactly (critical : List String) (s : Stylesheet) (n : Nat) (s' : Stylesheet) : Prop where
  /-- The selectors that are not critical go, and what falls with them. All other nodes stay where they
  were. -/
  left : (s'.tree.sheet.locate []).map Located.path
    = (s.tree.staying {i | ∃ l ∈ s.uncriticalPlaces critical, l.branch.id = i} (s.tree.sheet.locate [])).map
      Located.path
  /-- What falls is not counted. -/
  count : n = (s.uncriticalPlaces critical).length
  selectors : s.IsFlat →
    s'.selectors = s.selectors.filter fun text => (critical.map Text.normalizeSelector).contains text

end Stylesheet

/-! ## The mark of the pass -/

theorem Branch.Located.isMarked_uncritical (critical : List String) (l : Located) :
    l.isMarked (.uncritical critical)
      = (l.branch.kind.selector?.any (!critical.contains ·) && !withinStop l.above) := by
  rw [isMarked, Mark.uncritical, withinStop_bare]

theorem Mark.isSelector_of_uncritical {critical : List String} {above : List Node.Kind} {b : Branch}
    (marked : uncritical critical above b = true) : b.kind.isSelector = true := by
  cases selector : b.kind.isSelector with
  | true => rfl
  | false =>
    rw [uncritical_eq_false selector] at marked
    cases marked

namespace Stylesheet

variable {s s' : Stylesheet} {critical : List String} {n : Nat} {l : Located} {b c : Branch}

theorem taken_uncritical (s : Stylesheet) (critical : List String) :
    s.tree.taken (.uncritical (critical.map Text.normalizeSelector))
      = {i | ∃ l ∈ s.uncriticalPlaces critical, l.branch.id = i} := by
  ext i
  simp only [Tree.taken, uncriticalPlaces, Set.mem_ofPred_eq, List.mem_filter, ← Located.isMarked_uncritical,
    Located.isMarked, and_assoc]

theorem Grammatical.takesOut_uncritical (h : s.Grammatical) (full : ∀ b ∈ s.tree.attached, b.isEmptied = false)
    (critical : List String) :
    s.tree.TakesOut (.uncritical critical) (s.tree.walk (Prune.uncritical critical)) := by
  have root := h.rooted.root
  have solid := (Mark.regular_uncritical critical).solid
  refine h.rooted.numbered.takesOut h.inOrder.nested full solid root
    (solid.lone fun _ _ marked => .inr (Mark.isSelector_of_uncritical marked)) (Prune.uncritical_obeys _)
    (Visitor.removes_uncritical _) ?_ ?_
  · simp only [Prune.uncritical, root]
  · have root : s.tree.sheet.node.kind = .styleSheet := root
    rw [withinStop, root]
    rfl

/-! ## Where rules are not nested -/

theorem exists_content (full : b.isEmptied = false) (holder : b.kind.isRule = true ∨ b.kind.isAtRule = true)
    {block : Branch} (found : b.block? = some block) : ∃ c ∈ block.children, c.kind.isComment = false := by
  have content : block.hasContent = true := by
    rw [Bool.eq_false_iff] at full
    rw [← Bool.not_eq_false]
    intro empty
    rcases holder with rule | atRule
    · have rule : b.kind = .rule := of_decide_eq_true rule
      exact full ((isEmptied_iff_of_rule rule found).2 (.inr empty))
    · exact full ((isEmptied_iff_of_isAtRule atRule).2 ⟨block, found, empty⟩)
  simpa [hasContent] using content

theorem Grammatical.kind_of_content (h : s.Grammatical) (attached : b ∈ s.tree.attached)
    (block : b.kind.isBlock = true) (child : c ∈ b.children) : c.kind.isSelector = false := by
  have composes : b.kind.Composes (b.children.map Branch.kind) := (h.formed b attached).composes
  have mem := List.mem_map_of_mem (f := Branch.kind) child
  have entry : c.kind.isEntry = true ∨ c.kind.isDeclaration = true := by
    cases k : b.kind with
    | block contents =>
      rw [k] at composes
      cases contents with
      | rules => exact .inl (composes _ mem)
      | declarations => exact composes _ mem
    | _ =>
      rw [k] at block
      cases block
  cases k : c.kind <;> simp_all [Node.Kind.isEntry, Node.Kind.isDeclaration, Node.Kind.isSelector]

/-- Below a rule nothing falls but selectors. -/
theorem Grammatical.isSelector_of_falls (h : s.Grammatical) (full : ∀ b ∈ s.tree.attached, b.isEmptied = false)
    (flat : s.IsFlat) {chosen : Set Nat} (selectors : ∀ b ∈ s.tree.attached, b.id ∈ chosen → b.kind.isSelector = true)
    (place : l ∈ s.tree.sheet.locate []) (below : ∃ n ∈ l.above, n.kind = .rule)
    (falls : s.tree.Falls chosen l.branch.id) : l.branch.kind.isSelector = true := by
  generalize e : l.branch.id = i at falls
  induction falls generalizing l with
  | chosen mem =>
    subst e
    exact selectors _ (Tree.mem_attached_of_place place) mem
  | unselected attached rule _ _ =>
    obtain ⟨l', place', rfl⟩ := Tree.exists_place attached
    obtain rfl := h.rooted.numbered.place_unique place place' e
    obtain ⟨n, mem, rule'⟩ := below
    exact absurd rule' (flat l place rule n mem)
  | @hollow b block attached holder found _ ih =>
    obtain ⟨l', place', rfl⟩ := Tree.exists_place attached
    obtain rfl := h.rooted.numbered.place_unique place place' e
    obtain ⟨c, child, solid⟩ := exists_content (full _ attached) holder found
    obtain ⟨inside, isBlock⟩ := mem_children_of_child? found
    have placed := Tree.place_child place inside
    obtain ⟨n, mem, rule⟩ := below
    have selector := ih c child solid (Tree.place_child placed child) ⟨n, by simp [mem], rule⟩ rfl
    rw [h.kind_of_content (Tree.mem_attached_of_place placed) isBlock child] at selector
    cases selector

/-- A rule with a selector that is not chosen stays. -/
theorem Grammatical.stays_of_selector (h : s.Grammatical) (full : ∀ b ∈ s.tree.attached, b.isEmptied = false)
    (flat : s.IsFlat) {chosen : Set Nat} (selectors : ∀ b ∈ s.tree.attached, b.id ∈ chosen → b.kind.isSelector = true)
    (place : l ∈ s.tree.sheet.locate []) (rule : l.branch.kind = .rule) (mem : c ∈ l.branch.selectors)
    (selector : c.kind.isSelector = true) (spared : c.id ∉ chosen) : s.tree.Stays chosen l := by
  have numbered := h.rooted.numbered
  have attached := Tree.mem_attached_of_place place
  have loosens : s.tree.Loosens chosen := fun b here chosen => .inr (selectors b here chosen)
  have stands : ¬ s.tree.Falls chosen l.branch.id := by
    obtain ⟨block, found⟩ := exists_block rule (full _ attached)
    obtain ⟨d, child, solid⟩ := exists_content (full _ attached) (.inl (decide_eq_true rule)) found
    obtain ⟨inside, isBlock⟩ := mem_children_of_child? found
    have placed := Tree.place_child place inside
    refine numbered.not_falls_of_content attached (loosens.spares attached ?_ ?_) found ⟨d, child, solid, ?_⟩ ?_
    · rw [rule]
      rfl
    · rw [rule]
      rfl
    · intro falls
      have selector := h.isSelector_of_falls full flat selectors (Tree.place_child placed child)
        ⟨l.branch.node, by simp, rule⟩ falls
      rw [h.kind_of_content (Tree.mem_attached_of_place placed) isBlock child] at selector
      cases selector
    · obtain ⟨list, -, placed, -⟩ := Tree.exists_place_selector h.inOrder.nested place mem
      refine fun _ => ⟨c, mem, numbered.not_falls (Tree.mem_attached_of_place placed) spared ?_⟩
      cases k : c.kind <;> rw [k] at selector <;> first | exact ⟨rfl, rfl⟩ | cases selector
  refine numbered.stays_of_not_falls h.rooted.root h.formed loosens place ?_ stands ?_
  · rw [rule]
    rfl
  · intro p hp above rule'
    exact absurd rule' (flat l place rule _ above)

/-- The selectors of a rule that is no stop of an animation. -/
def texts (l : Located) : List String :=
  if l.branch.kind.isRule && !isKeyframeStop l.above then l.branch.selectors.filterMap (·.kind.selector?) else []

theorem selectors_eq (s : Stylesheet) :
    s.selectors = ((s.tree.sheet.locate []).flatMap texts).filter (!isSelectionSelector ·) := by
  rw [selectors]
  refine congrArg _ ?_
  generalize s.tree.sheet.locate [] = places
  induction places with
  | nil => rfl
  | cons l places ih =>
    rw [List.flatMap_cons, ← ih, texts, List.filter_cons]
    split <;> rfl

theorem IsFlat.withinStop (flat : s.IsFlat) (place : l ∈ s.tree.sheet.locate []) (rule : l.branch.kind = .rule) :
    withinStop l.above = false := by
  have none := flat l place rule
  generalize l.above = above at none
  induction above with
  | nil => rfl
  | cons n above ih =>
    simp only [List.mem_cons, forall_eq_or_imp] at none
    rw [AboveFold.withinStop, ih none.2, Node.Kind.isRule, decide_eq_false none.1]
    rfl

/-- A rule outside of the stops of animations. -/
theorem IsFlat.outside (flat : s.IsFlat) (place : l ∈ s.tree.sheet.locate [])
    (live : (l.branch.kind.isRule && !isKeyframeStop l.above) = true) :
    l.branch.kind = .rule ∧ AboveFold.withinStop (l.branch.node :: l.above) = false := by
  simp only [Bool.and_eq_true, Bool.not_eq_true'] at live
  have rule : l.branch.kind = .rule := of_decide_eq_true live.1
  refine ⟨rule, ?_⟩
  rw [AboveFold.withinStop, flat.withinStop place rule, live.2, Bool.and_false]
  rfl

/-- Outside of the stops of animations a selector of a rule is marked if it is not critical. -/
theorem Grammatical.mark_selector (h : s.Grammatical) (critical : List String) (place : l ∈ s.tree.sheet.locate [])
    (outside : withinStop (l.branch.node :: l.above) = false) (mem : c ∈ l.branch.selectors) :
    ∃ list : Node, list.kind = .selectorList ∧ ⟨list :: l.branch.node :: l.above, c⟩ ∈ s.tree.sheet.locate []
      ∧ ∃ text, c.kind = .selector text
        ∧ Mark.uncritical critical ((list :: l.branch.node :: l.above).map Node.kind) c = !critical.contains text := by
  obtain ⟨list, kind, placed, selector⟩ := Tree.exists_place_selector h.inOrder.nested place mem
  refine ⟨list, kind, placed, ?_⟩
  cases k : c.kind with
  | selector text =>
    refine ⟨text, rfl, Mark.uncritical_of_selector k ?_⟩
    rw [withinStop, kind, outside]
    rfl
  | _ =>
    rw [k] at selector
    cases selector

/-- Of the selectors of a rule those that are critical are left. -/
theorem Grammatical.texts_left (h : s.Grammatical) (flat : s.IsFlat) (place : l ∈ s.tree.sheet.locate [])
    {l' : Located} (left : Tree.Left (.uncritical critical) l l') :
    texts l' = (texts l).filter (critical.contains ·) := by
  have same : isKeyframeStop l'.above = isKeyframeStop l.above := by
    rw [← isKeyframeStop_bare, left.kinds, isKeyframeStop_bare]
  have kind : l'.branch.kind = l.branch.kind := by rw [left.branch, kind_rest]
  rw [texts, texts, kind, same]
  cases live : l.branch.kind.isRule && !isKeyframeStop l.above with
  | false => rfl
  | true =>
    obtain ⟨-, outside⟩ := flat.outside place live
    have nested := h.inOrder.nested.inside (Tree.mem_attached_of_place place)
    rw [left.branch, selectors_rest (Mark.regular_uncritical critical).solid nested]
    simp only [if_true, List.filterMap_map, List.filterMap_filter, List.filter_filterMap, Function.comp_apply,
      kind_rest]
    refine List.filterMap_congr fun c mem => ?_
    obtain ⟨list, kind, -, text, k, mark⟩ := h.mark_selector critical place outside mem
    rw [List.map_cons, List.map_cons, kind] at mark
    have selector : c.kind.selector? = some text := by rw [k]; rfl
    have gone : goes (.uncritical critical) (.selectorList :: l.branch.kind :: l.above.map Node.kind) c
        = !critical.contains text :=
      (goes_eq_mark (by rw [k]; exact ⟨rfl, rfl⟩)).trans mark
    rw [gone, selector, Bool.not_not, Option.filter_some]

/-! ## The pass -/

/-- Places at which nothing is found need not stay. -/
theorem flatMap_staying {γ : Type} {t : Tree} {chosen : Set Nat} {f : Located → List γ} {places : List Located}
    (nothing : ∀ l ∈ places, ¬ t.Stays chosen l → f l = []) :
    (t.staying chosen places).flatMap f = places.flatMap f := by
  unfold Tree.staying
  induction places with
  | nil => rfl
  | cons l places ih =>
    simp only [List.mem_cons, forall_eq_or_imp] at nothing
    rw [List.filter_cons, List.flatMap_cons]
    split
    next => rw [List.flatMap_cons, ih nothing.2]
    next falls => rw [nothing.1 (by simpa using falls), ih nothing.2, List.nil_append]

theorem Grammatical.isSelector_of_taken (h : s.Grammatical) (critical : List String) :
    ∀ b ∈ s.tree.attached, b.id ∈ s.tree.taken (.uncritical critical) → b.kind.isSelector = true := by
  intro b attached mem
  obtain ⟨l, place, rfl⟩ := Tree.exists_place attached
  exact Mark.isSelector_of_uncritical ((h.rooted.numbered.mem_taken place).1 mem)

/-- Where rules are not nested, the selectors of the rules that stay are all that are critical. -/
theorem Grammatical.selectors_left (h : s.Grammatical) (full : ∀ b ∈ s.tree.attached, b.isEmptied = false)
    (flat : s.IsFlat) {places : List Located}
    (left : List.Forall₂ (Tree.Left (.uncritical critical)) (s.tree.staying
      (s.tree.taken (.uncritical critical)) (s.tree.sheet.locate [])) places) :
    places.flatMap texts = ((s.tree.sheet.locate []).flatMap texts).filter (critical.contains ·) := by
  have each : places.map texts = _ :=
    map_of_forall₂ left fun l mem l' left => h.texts_left flat (Tree.mem_staying.1 mem).1 left
  rw [List.flatMap_def, each, ← List.flatMap_def, flatMap_staying, List.filter_flatMap]
  intro l place falls
  -- a rule that falls has no critical selector
  rw [List.filter_eq_nil_iff]
  intro text mem known
  rw [texts] at mem
  split at mem
  next live =>
    obtain ⟨rule, outside⟩ := flat.outside place live
    obtain ⟨c, inside, e⟩ := List.mem_filterMap.1 mem
    obtain ⟨list, -, placed, text', k, mark⟩ := h.mark_selector critical place outside inside
    obtain rfl : text' = text := by
      rw [k] at e
      exact Option.some.inj e
    rw [known, Bool.not_true] at mark
    refine falls (h.stays_of_selector full flat (h.isSelector_of_taken critical) place rule inside
      (by rw [k]; rfl) ?_)
    intro taken
    rw [(h.rooted.numbered.mem_taken placed).1 taken] at mark
    cases mark
  next => cases mem

/-- **Pruning by selectors is exact.** In a stylesheet in which nothing is empty, the selectors that are not
critical go, but for those in stops of animations, and what falls with them; all else stays in place, and the
count is that of the selectors. If no rule stands in another, the selectors that are left are the critical
ones. -/
theorem Grammatical.selectsExactly (h : s.Grammatical) (full : ∀ b ∈ s.tree.attached, b.isEmptied = false)
    (critical : List String) :
    SelectsExactly critical s (s.pruneSelectors critical).1 (s.pruneSelectors critical).2 := by
  obtain ⟨sheet, -, count⟩ := h.takesOut_uncritical full (critical.map Text.normalizeSelector)
  have left := h.rooted.numbered.left h.inOrder.nested full
    (Mark.regular_uncritical (critical.map Text.normalizeSelector)).solid h.rooted.root
  rw [← sheet] at left
  refine ⟨?_, ?_, fun flat => ?_⟩
  · rw [← taken_uncritical]
    exact Tree.map_path_of_left left
  · rw [uncriticalPlaces, ← List.countP_eq_length_filter]
    refine count.trans (List.countP_congr fun l _ => ?_)
    rw [Located.isMarked_uncritical]
  · have texts := h.selectors_left full flat left
    rw [selectors_eq, selectors_eq, List.filter_filter, List.filter_congr fun _ _ => Bool.and_comm ..,
      ← List.filter_filter, ← texts]
    rfl

/-- In a stylesheet with a rule in a rule, an at-rule and a stop of an animation, pruning by
the selector `a` takes out three, and with them the rule in the rule and the at-rule. -/
theorem Grammatical.selectsExactly_nested :
    let s := parse "a,b{c:d;e{f:g}}@media print{b{c:d}}@keyframes k{from{h:i}}" none
    s.Grammatical ∧ (∀ b ∈ s.tree.attached, b.isEmptied = false)
      ∧ SelectsExactly ["a"] s (s.pruneSelectors ["a"]).1 (s.pruneSelectors ["a"]).2
      ∧ (s.pruneSelectors ["a"]).2.render = "a{c:d}@keyframes k{from{h:i}}" := by
  have full : ∀ b ∈ (parse "a,b{c:d;e{f:g}}@media print{b{c:d}}@keyframes k{from{h:i}}" none).tree.attached,
      b.isEmptied = false := by decide +kernel
  have ok := grammatical_parse "a,b{c:d;e{f:g}}@media print{b{c:d}}@keyframes k{from{h:i}}" none
  exact ⟨ok, full, ok.selectsExactly full ["a"], by decide +kernel⟩

/-! ## Lists of critical selectors -/

/-- Pruning depends on which selectors are critical, not on how they are listed. -/
theorem pruneSelectors_congr (s : Stylesheet) {critical critical' : List String}
    (same : ∀ text, text ∈ critical.map Text.normalizeSelector ↔ text ∈ critical'.map Text.normalizeSelector) :
    s.pruneSelectors critical = s.pruneSelectors critical' := by
  have visitors : Prune.uncritical (critical.map Text.normalizeSelector)
      = Prune.uncritical (critical'.map Text.normalizeSelector) := by
    funext site
    unfold Prune.uncritical
    simp only [List.contains_eq_mem, same]
  rw [pruneSelectors, pruneSelectors, visitors]

/-- **The critical selectors of a list are the lines of the list**, empty ones apart, if no line is torn by a comment,
though they are brought into normal form once more. -/
theorem pruneSelectors_criticalSelectors (s : Stylesheet) {list : String}
    (whole : ∀ line ∈ Text.lines list, ¬Text.Torn line.toList) :
    s.pruneSelectors (criticalSelectors list)
      = s.pruneSelectors ((Text.lines list).filter (Text.normalizeSelector · ≠ "")) := by
  refine s.pruneSelectors_congr fun text => ?_
  simp only [criticalSelectors, List.mem_map, List.mem_eraseDups, List.mem_filter, decide_eq_true_eq]
  constructor
  · rintro ⟨_, ⟨⟨line, mem, rfl⟩, some⟩, rfl⟩
    exact ⟨line, ⟨mem, some⟩, (Text.normalizeSelector_again (whole line mem)).symm⟩
  · rintro ⟨line, ⟨mem, some⟩, rfl⟩
    exact ⟨_, ⟨⟨line, mem, rfl⟩, some⟩, Text.normalizeSelector_again (whole line mem)⟩

end Stylesheet

end AboveFold
