import AboveFold.Proofs.Tree.Unnumbered

/-!
# Plans of pruning

What passes take out of a style sheet is said by a mark for rules, at-rules, declarations and selectors, and
by what becomes of component values. Such plans can be joined: one after the other is the same as both at
once, and it does not matter whether the style sheet is swept in between.
-/

namespace AboveFold
open Branch

/-- Which branches go, by the kinds of the nodes above them, nearest first, and by what they hold. -/
abbrev Mark := List Node.Kind → Branch → Bool

namespace Mark

/-- Nothing goes. -/
def never : Mark := fun _ _ => false

/-- What goes by one mark or the other. -/
def or (μ ν : Mark) : Mark := fun above b => μ above b || ν above b

/-- A mark that says the same of a branch when some of what it holds went, and does not see numbers. -/
structure Regular (μ : Mark) : Prop where
  prunable : ∀ above b, μ above b = true → b.kind.isPrunable = true ∧ b.kind.isPlain = false
  thinned : ∀ above b b', b.Nested → b.Thinned b' → μ above b' = μ above b
  blind : ∀ above b, μ above b.unnumbered = μ above b

/-- A mark of what can be taken out, and of no component values. -/
def Solid (μ : Mark) : Prop := ∀ above b, μ above b = true → b.kind.isPrunable = true ∧ b.kind.isPlain = false

variable {μ ν : Mark}

theorem Regular.solid (h : μ.Regular) : μ.Solid := h.prunable

theorem regular_never : never.Regular where
  prunable := fun _ _ marked => by cases marked
  thinned := fun _ _ _ _ _ => rfl
  blind := fun _ _ => rfl

theorem Regular.or (h : μ.Regular) (h' : ν.Regular) : (μ.or ν).Regular where
  prunable := by
    intro above b marked
    rcases Bool.or_eq_true_iff.1 marked with marked | marked
    · exact h.prunable above b marked
    · exact h'.prunable above b marked
  thinned := by
    intro above b b' nested thinned
    rw [Mark.or, Mark.or, h.thinned above b b' nested thinned, h'.thinned above b b' nested thinned]
  blind := by
    intro above b
    rw [Mark.or, Mark.or, h.blind, h'.blind]

theorem Solid.eq_false_of_isPlain (h : μ.Solid) {above : List Node.Kind} {b : Branch}
    (plain : b.kind.isPlain = true) : μ above b = false := by
  rw [Bool.eq_false_iff]
  intro marked
  rw [(h above b marked).2] at plain
  cases plain

end Mark

namespace Branch
open Cut

/-- Component values stay as they are. -/
def keep (b : Branch) : Cut := whole [b]

/-- What `σ` makes of component values comes about by pruning. -/
def Airs (σ : Branch → Cut) : Prop := ∀ b k, Thins k [b] (σ b).kept

/-- Takes out what is marked, and does with component values what `σ` does with them. -/
def Plan.pruning (μ : Mark) (σ : Branch → Cut) : Plan := fun above b =>
  if b.kind.isPlain then some (σ b) else if μ above b then some .gone else none

variable {μ ν : Mark} {σ τ : Branch → Cut} {above : List Node.Kind} {b : Branch}

theorem airs_keep : Airs keep := fun b k => Thins.refl k [b]

theorem cut_plain (plain : b.kind.isPlain = true) : cut (.pruning μ σ) above b = σ b := by
  refine cut_of_some ?_
  rw [Plan.pruning, if_pos plain]

theorem cut_marked (solid : b.kind.isPlain = false) (marked : μ above b = true) :
    cut (.pruning μ σ) above b = .gone := by
  refine cut_of_some ?_
  rw [Plan.pruning, solid, marked]
  rfl

theorem pruning_eq_none :
    Plan.pruning μ σ above b = none ↔ b.kind.isPlain = false ∧ μ above b = false := by
  unfold Plan.pruning
  cases b.kind.isPlain <;> cases μ above b <;> simp

theorem cut_unmarked (solid : b.kind.isPlain = false) (unmarked : μ above b = false) :
    cut (.pruning μ σ) above b = (each (cut (.pruning μ σ) (b.kind :: above)) b.children).wrap b.node :=
  cut_of_none (pruning_eq_none.2 ⟨solid, unmarked⟩)

theorem thins_pruning (regular : μ.Regular) (airs : Airs σ) : (Plan.pruning μ σ).Thins := by
  intro above b c k e
  unfold Plan.pruning at e
  split at e
  next => exact Option.some.inj e ▸ airs b k
  next =>
    split at e
    next marked =>
      obtain rfl := Option.some.inj e
      exact .drop (regular.prunable above b marked).1 .nil
    next => cases e

/-- A cut that touches no component value does not see numbers. -/
theorem blind_pruning (regular : μ.Regular) : (Plan.pruning μ keep).Blind := by
  intro above b
  unfold Plan.pruning
  rw [kind_unnumbered, regular.blind]
  split
  · rfl
  · split <;> rfl

/-! ## One plan after another -/

theorem andThen_pruning (airs : Airs σ) :
    (Plan.pruning μ σ).andThen (.pruning ν τ) = .pruning (μ.or ν) fun b => (σ b).bind τ := by
  funext above b
  unfold Plan.andThen Mark.or
  cases solid : b.kind.isPlain with
  | true =>
    have plain : ∀ c ∈ (σ b).kept, c.kind.isPlain = true := (airs b .prelude).isPlain (by simpa using solid)
    -- what is left of a component value are component values, with which the second plan does what `τ` does
    have same : (σ b).bind (cut (.pruning ν τ) above) = (σ b).bind τ :=
      bind_congr fun c mem => cut_plain (plain c mem)
    simp only [Plan.pruning, solid, if_true, same]
  | false =>
    cases marked : μ above b with
    | true => simp [Plan.pruning, solid, marked]
    | false => simp [Plan.pruning, solid, marked]

/-- Two plans, one after the other, are one plan. -/
theorem cutBelow_pruning (hμ : μ.Regular) (hν : ν.Regular) (airs : Airs σ) (nested : b.Nested) :
    cutBelow (.pruning ν τ) above (cutBelow (.pruning μ σ) above b)
      = cutBelow (.pruning (μ.or ν) fun b => (σ b).bind τ) above b := by
  rw [cutBelow_cutBelow, andThen_pruning airs]
  · intro above c mem e
    obtain ⟨solid, -⟩ := pruning_eq_none.1 e
    have thinned := thinned_cutBelow (thins_pruning hμ airs) above c
    have same := hν.thinned above _ _ (nested.inside mem) thinned
    simp only [Plan.pruning, thinned.kind, same, solid, Bool.false_eq_true, if_false]
  · intro above c _ e
    obtain ⟨solid, -⟩ := pruning_eq_none.1 e
    unfold Plan.pruning
    cases ν above c <;> simp [solid]

/-! ## Sweeping in between -/

/-- What would be swept may go before or after what is marked. -/
theorem clear_bind_cut_bind_clear (regular : μ.Regular) (airs : Airs σ) (nested : b.Nested) :
    (b.clear.bind (cut (.pruning μ σ) above)).bind clear = (cut (.pruning μ σ) above b).bind clear := by
  induction b using induct generalizing above with
  | mk n cs ih =>
    have thinned := thinned_swept (mk n cs)
    have below : ((each clear cs).bind (cut (.pruning μ σ) (n.kind :: above))).bind clear
        = (each (cut (.pruning μ σ) (n.kind :: above)) cs).bind clear := by
      rw [bind_each, bind_each, bind_each]
      exact each_congr fun c mem => ih c mem (nested_mk.1 nested c mem).2
    cases solid : (Branch.mk n cs).kind.isPlain with
    | true => rw [clear_eq_whole_of_isPlain (nested.isPlain solid), bind_whole, each_single]
    | false =>
      have same : μ above (mk n cs).swept = μ above (mk n cs) := regular.thinned above _ _ nested thinned
      cases marked : μ above (mk n cs) with
      | true =>
        rw [cut_marked solid marked]
        cases emptied : (mk n cs).swept.isEmptied with
        | true => rw [clear_of_isEmptied emptied, bind_gone]
        | false =>
          rw [clear_of_not_isEmptied emptied]
          exact congrArg (Cut.bind · clear) (bind_wrap_gone (cut_marked solid (same.trans marked)))
      | false =>
        -- what is empty when it is swept at once is empty too when marked nodes went before
        have later : (mk n cs).swept.Thinned
            (((each (cut (.pruning μ σ) (n.kind :: above)) cs).bind clear).under n) := by
          rw [← below, ← swept_under, ← cutBelow_under]
          exact (thinned_cutBelow (thins_pruning regular airs) above _).trans (thinned_swept _)
        rw [cut_unmarked solid marked, children_mk, kind_mk, node_mk, wrap_bind_clear]
        cases emptied : (mk n cs).swept.isEmptied with
        | true =>
          rw [clear_of_isEmptied emptied, if_pos (later.isEmptied emptied)]
          rfl
        | false =>
          have stays : ((each clear cs).wrap n).bind (cut (.pruning μ σ) above)
              = ((each clear cs).bind (cut (.pruning μ σ) (n.kind :: above))).wrap n :=
            bind_wrap_wrap (cut_unmarked solid (same.trans marked))
          rw [clear_of_not_isEmptied emptied, children_mk, node_mk, stays, wrap_bind_clear, below]

theorem swept_cutBelow_swept (regular : μ.Regular) (airs : Airs σ) (nested : b.Nested) :
    (cutBelow (.pruning μ σ) above b.swept).swept = (cutBelow (.pruning μ σ) above b).swept := by
  obtain ⟨n, cs⟩ := b
  have below : ((each clear cs).bind (cut (.pruning μ σ) (n.kind :: above))).bind clear
      = (each (cut (.pruning μ σ) (n.kind :: above)) cs).bind clear := by
    rw [bind_each, bind_each, bind_each]
    exact each_congr fun c mem => clear_bind_cut_bind_clear regular airs (nested_mk.1 nested c mem).2
  have once : (mk n cs).swept = (each clear cs).under n := rfl
  have cut : cutBelow (.pruning μ σ) above (mk n cs) = (each (cut (.pruning μ σ) (n.kind :: above)) cs).under n := rfl
  rw [once, cutBelow_under, swept_under, below, cut, swept_under]

end Branch

/-! ## Where nothing is marked -/

/-- Nothing in a branch is marked. -/
inductive Mark.Clean (μ : Mark) : List Node.Kind → Branch → Prop
  | mk {above : List Node.Kind} {n : Node} {cs : List Branch} (top : μ above (.mk n cs) = false)
      (below : ∀ c ∈ cs, Clean μ (n.kind :: above) c) : Clean μ above (.mk n cs)

namespace Mark
open Cut

variable {μ ν : Mark} {σ : Branch → Cut} {above : List Node.Kind} {b c : Branch} {bs bs' cs : List Branch}
  {k : Node.Kind} {n : Node}

theorem clean_mk : μ.Clean above (.mk n cs) ↔ μ above (.mk n cs) = false ∧ ∀ c ∈ cs, μ.Clean (n.kind :: above) c :=
  ⟨fun | .mk top below => ⟨top, below⟩, fun h => .mk h.1 h.2⟩

theorem Clean.mono (le : ∀ above b, μ above b = true → ν above b = true) (clean : ν.Clean above b) :
    μ.Clean above b := by
  induction clean with
  | @mk above n cs top _ ih =>
    refine .mk ?_ ih
    rw [Bool.eq_false_iff] at top ⊢
    exact fun marked => top (le _ _ marked)

theorem Solid.clean_of_isPlain (solid : μ.Solid) (plain : ∀ c ∈ b.preorder, c.kind.isPlain = true) :
    μ.Clean above b := by
  induction b using induct generalizing above with
  | mk n cs ih =>
    refine .mk (solid.eq_false_of_isPlain (plain _ (self_mem_preorder _))) fun c mem => ?_
    exact ih c mem fun d inside => plain d (mem_preorder_of_child mem inside)

/-- What is thinned stays clean. -/
theorem Regular.clean_of_thins (regular : μ.Regular) (thins : Thins k bs bs') (nested : ∀ b ∈ bs, b.Nested)
    (clean : ∀ b ∈ bs, μ.Clean (k :: above) b) : ∀ b ∈ bs', μ.Clean (k :: above) b := by
  induction thins generalizing above with
  | nil => exact clean
  | @keep k n n' cs cs' bs bs' id kind below _ ih ih' =>
    simp only [List.mem_cons, forall_eq_or_imp] at nested clean ⊢
    obtain ⟨top, inside⟩ := clean_mk.1 clean.1
    refine ⟨.mk ?_ ?_, ih' nested.2 clean.2⟩
    · rw [regular.thinned _ _ (.mk n' cs') nested.1 ⟨id, kind, below⟩, top]
    · rw [kind]
      exact ih (fun c mem => (nested_mk.1 nested.1 c mem).2) inside
  | drop _ _ ih =>
    exact ih (fun b mem => nested b (List.mem_cons_of_mem _ mem)) fun b mem => clean b (List.mem_cons_of_mem _ mem)
  | @space k b n bs bs' _ _ blank _ ih =>
    simp only [List.mem_cons, forall_eq_or_imp] at nested clean ⊢
    refine ⟨.mk (regular.solid.eq_false_of_isPlain ?_) (by simp), ih nested.2 clean.2⟩
    rw [Branch.kind_mk, blank]
    rfl

theorem Regular.clean_of_thinned (regular : μ.Regular) (thinned : b.Thinned c) (nested : b.Nested)
    (clean : μ.Clean above b) : μ.Clean above c := by
  obtain ⟨n, cs⟩ := b
  obtain ⟨n', cs'⟩ := c
  have kind : n'.kind = n.kind := thinned.kind
  obtain ⟨top, inside⟩ := clean_mk.1 clean
  refine .mk ?_ ?_
  · rw [regular.thinned _ _ _ nested thinned, top]
  · rw [kind]
    exact regular.clean_of_thins thinned.below (fun c mem => (nested_mk.1 nested c mem).2) inside

/-- When what is marked went, nothing is marked any more. -/
theorem Regular.clean_cut (regular : μ.Regular) (airs : Airs σ) (nested : b.Nested) :
    ∀ c ∈ (cut (.pruning μ σ) above b).kept, μ.Clean above c := by
  induction b using induct generalizing above with
  | mk n cs ih =>
    cases solid : (Branch.mk n cs).kind.isPlain with
    | true =>
      have plain := nested.isPlain solid
      have clean := (airs (.mk n cs) .prelude).nested (by simpa [Node.Kind.canHold] using ⟨solid, nested⟩)
      rw [cut_plain solid]
      exact fun c mem => regular.solid.clean_of_isPlain ((clean c mem).2.isPlain (clean c mem).1)
    | false =>
      cases marked : μ above (.mk n cs) with
      | true =>
        rw [cut_marked solid marked]
        simp [gone]
      | false =>
        have thinned := thinned_cutBelow (thins_pruning regular airs) above (.mk n cs)
        have top := regular.thinned above _ _ nested thinned
        rw [cut_unmarked solid marked]
        intro c mem
        obtain rfl := List.mem_singleton.1 mem
        refine .mk (top.trans marked) fun c mem => ?_
        obtain ⟨d, hd, left⟩ := List.mem_flatMap.1 mem
        exact ih d hd (nested_mk.1 nested d hd).2 c left

theorem Regular.clean_cutBelow (regular : μ.Regular) (airs : Airs σ) (nested : b.Nested)
    (top : μ above b = false) : μ.Clean above (cutBelow (.pruning μ σ) above b) := by
  have thinned := thinned_cutBelow (thins_pruning regular airs) above b
  have same := regular.thinned above _ _ nested thinned
  refine .mk (same.trans top) fun c mem => ?_
  obtain ⟨d, hd, left⟩ := List.mem_flatMap.1 mem
  obtain ⟨n, cs⟩ := b
  exact regular.clean_cut airs (nested_mk.1 nested d hd).2 c left

/-- Where nothing is marked, nothing goes. -/
theorem Clean.cut_eq_whole (clean : μ.Clean above b) : cut (.pruning μ keep) above b = .whole [b] := by
  induction clean with
  | @mk above n cs top _ ih =>
    cases solid : (Branch.mk n cs).kind.isPlain with
    | true => exact cut_plain solid
    | false =>
      rw [cut_unmarked solid top, Branch.children_mk, Branch.kind_mk, Branch.node_mk, each_eq_whole ih, wrap_whole]

theorem clean_never (above : List Node.Kind) (b : Branch) : never.Clean above b := by
  induction b using induct generalizing above with
  | mk n cs ih => exact .mk rfl fun c mem => ih c mem (n.kind :: above)

theorem Clean.of_unnumbered (regular : μ.Regular) (clean : μ.Clean above b.unnumbered) : μ.Clean above b := by
  induction b using induct generalizing above with
  | mk n cs ih =>
    obtain ⟨top, below⟩ := clean_mk.1 (unnumbered_mk n cs ▸ clean)
    rw [← unnumbered_mk, regular.blind] at top
    exact .mk top fun c mem => ih c mem (below _ (List.mem_map_of_mem mem))

/-- Where nothing is marked, no place is. -/
theorem Clean.unmarked {above : List Node} (clean : μ.Clean (above.map Node.kind) b) :
    ∀ l ∈ b.locate above, μ (l.above.map Node.kind) l.branch = false := by
  induction b using induct generalizing above with
  | mk n cs ih =>
    obtain ⟨top, below⟩ := clean_mk.1 clean
    intro l mem
    rcases mem_locate.1 mem with rfl | mem
    · exact top
    · obtain ⟨c, hc, inside⟩ := mem_locateAll.1 mem
      have below : μ.Clean ((n :: above).map Node.kind) c := below c hc
      exact ih c hc below l inside

end Mark

/-- If nothing is marked, nothing happens. -/
theorem Branch.cutBelow_never (above : List Node.Kind) (b : Branch) : cutBelow (.pruning .never keep) above b = b := by
  obtain ⟨n, cs⟩ := b
  have whole : Cut.each (cut (.pruning .never keep) (n.kind :: above)) cs = .whole cs :=
    Cut.each_eq_whole fun c _ => (Mark.clean_never _ c).cut_eq_whole
  rw [cutBelow, children_mk, kind_mk, node_mk, whole, Cut.under_whole]

end AboveFold
