import AboveFold.Proofs.Prune.Spacing
import AboveFold.Proofs.Tree.Cascade

/-!
# Walks that follow a mark

A visitor obeys a mark if it takes out what is marked, and keeps what is not without passing over a marked
node inside. Its walk then does what the plan of the mark does, and leaves a tree as it was when nothing in
it is marked.
-/

namespace AboveFold
open Branch

/-- A visitor takes out what is marked and nothing else, and passes over nothing that is marked. It need not do
so where it does not get: the nodes above the places it gets to satisfy `reached`. -/
def Visitor.Obeys (v : Visitor) (reached : List Node → Prop) (μ : Mark) : Prop :=
  ∀ site : Site, reached site.above → site.branch.Nested →
    v site = .descend ∧ μ (site.above.map Node.kind) site.branch = false ∧ reached (site.branch.node :: site.above)
      ∨ v site = .skip ∧ μ.Clean (site.above.map Node.kind) site.branch
      ∨ v site = .remove ∧ μ (site.above.map Node.kind) site.branch = true

namespace Branch
open Cut

variable {v : Visitor} {reached : List Node → Prop} {μ : Mark} {above : List Node.Kind} {b : Branch}

/-- Nothing goes from below component values, declarations and selectors. -/
theorem each_cut_of_isClosed (nested : b.Nested) (closed : b.kind.isClosed = true) (above : List Node.Kind) :
    each (cut (.pruning μ keep) above) b.children = .whole b.children := by
  obtain ⟨n, cs⟩ := b
  refine each_eq_whole fun c mem => cut_plain ?_
  exact Node.Kind.isPlain_of_canHold (Node.Kind.isClosed_iff.1 closed) (nested_mk.1 nested c mem).1

/-- What is not marked stays, and what it holds is looked at, also if it is a component value. -/
theorem cut_spared (nested : b.Nested) (unmarked : μ above b = false) :
    cut (.pruning μ keep) above b = (each (cut (.pruning μ keep) (b.kind :: above)) b.children).wrap b.node := by
  cases solid : b.kind.isPlain with
  | true =>
    rw [cut_plain solid, each_cut_of_isClosed nested (Node.Kind.isClosed_iff.2 (.inl solid)), wrap_whole]
    obtain ⟨n, cs⟩ := b
    rfl
  | false => exact cut_unmarked solid unmarked

mutual

theorem walk_of_obeys (obeys : v.Obeys reached μ) (solid : μ.Solid) :
    ∀ (b : Branch) (above : List Node) (before after : List Branch) (trail : Trail),
      above ≠ [] → reached above → b.Nested →
      (b.walk v above before after trail).cut = cut (.pruning μ keep) (above.map Node.kind) b
  | mk n cs, above, before, after, trail, below, here, nested => by
    obtain ⟨m, above, rfl⟩ := List.exists_cons_of_ne_nil below
    rcases obeys ⟨m :: above, before, mk n cs, after⟩ here nested with
      ⟨answer, unmarked, deeper⟩ | ⟨answer, clean⟩ | ⟨answer, marked⟩
    · have children := walkAll_of_obeys obeys solid cs (n :: m :: above) []
        { trail with visited := mk n cs :: trail.visited } (by simp) deeper fun c mem => (nested_mk.1 nested c mem).2
      have same : cut (.pruning μ keep) ((m :: above).map Node.kind) (mk n cs)
          = (each (cut (.pruning μ keep) ((n :: m :: above).map Node.kind)) cs).wrap n := cut_spared nested unmarked
      simp only [Branch.walk, answer]
      rw [same, ← children]
      rfl
    · simp only [Branch.walk, answer]
      rw [clean.cut_eq_whole]
      rfl
    · simp only [Branch.walk, answer]
      rw [cut_marked (solid _ _ marked).2 marked]
      rfl

/-- The walk of a visitor that obeys a mark is a cut. -/
theorem walkAll_of_obeys (obeys : v.Obeys reached μ) (solid : μ.Solid) :
    ∀ (bs : List Branch) (above : List Node) (before : List Branch) (trail : Trail),
      above ≠ [] → reached above → (∀ b ∈ bs, b.Nested) →
      (walkAll v above before bs trail).cut = each (cut (.pruning μ keep) (above.map Node.kind)) bs
  | [], _, _, _, _, _, _ => rfl
  | b :: bs, above, before, trail, below, here, nested => by
    simp only [List.mem_cons, forall_eq_or_imp] at nested
    have first := walk_of_obeys obeys solid b above before bs trail below here nested.1
    have later := walkAll_of_obeys obeys solid bs above ((b.walk v above before bs trail).branches.reverse ++ before)
      (b.walk v above before bs trail).trail below here nested.2
    rw [each_cons, ← first, ← later, walkAll]
    rfl

end

/-- The top of a style sheet stays. -/
theorem walk_top_of_obeys (obeys : v.Obeys reached μ) (solid : μ.Solid) (nested : b.Nested)
    (descends : v ⟨[], [], b, []⟩ = .descend) (here : reached [b.node]) (trail : Trail) :
    (b.walk v [] [] [] trail).branches = [cutBelow (.pruning μ keep) [] b]
      ∧ (b.walk v [] [] [] trail).touched = (each (cut (.pruning μ keep) [b.kind]) b.children).touched := by
  obtain ⟨n, cs⟩ := b
  have children := walkAll_of_obeys obeys solid cs [n] [] { trail with visited := mk n cs :: trail.visited }
    (by simp) here fun c mem => (nested_mk.1 nested c mem).2
  have children : _ = each (cut (.pruning μ keep) [n.kind]) cs := children
  rw [cutBelow, children_mk, kind_mk, node_mk, ← children]
  simp only [Branch.walk, descends]
  exact ⟨rfl, rfl⟩

/-- Likewise when comments are taken out. -/
theorem walk_top_comments (other : b.kind.isComment = false) (structural : Prune.holdsComponents b.kind = false)
    (trail : Trail) :
    (b.walk Prune.comments [] [] [] trail).branches.map unnumbered
        = [cutBelow (.pruning .never uncommented) [] b.unnumbered]
      ∧ (b.walk Prune.comments [] [] [] trail).touched = (each uncommented (b.children.map unnumbered)).touched := by
  obtain ⟨n, cs⟩ := b
  rw [kind_mk] at other structural
  have children := Prune.walkAll_comments cs [n] [] { trail with visited := mk n cs :: trail.visited } (by simp)
  have here : ([n].head?.any (Prune.holdsComponents ·.kind)) = false := structural
  rw [here, uncommentAll_eq_each] at children
  have descends := Prune.comments_of_not_isComment cs other [] [] []
  have below : cutBelow (.pruning .never uncommented) [] (mk n cs).unnumbered
      = (each uncommented (cs.map unnumbered)).under { n with id := 0 } := by
    rw [unnumbered_mk, cutBelow, each_congr fun c _ => cut_never _ c]
    rfl
  rw [below, children_mk, ← children]
  simp only [Branch.walk, descends]
  refine ⟨?_, rfl⟩
  rw [List.map_singleton, unnumbered_mk]
  rfl

/-! ## Walks that do nothing -/

mutual

theorem walk_untouched (v : Visitor) :
    ∀ (b : Branch) (above : List Node) (before after : List Branch) (trail : Trail),
    (b.walk v above before after trail).touched = false →
      (b.walk v above before after trail).trail
        = { trail with visited := (b.walk v above before after trail).trail.visited }
  | mk n cs, above, before, after, trail, untouched => by
    cases verdict : v ⟨above, before, .mk n cs, after⟩ with
    | descend =>
      simp only [Branch.walk, verdict] at untouched ⊢
      exact walkAll_untouched v cs (n :: above) [] _ untouched
    | skip => simp only [Branch.walk, verdict]
    | become kind =>
      simp only [Branch.walk, verdict] at untouched
      cases untouched
    | remove =>
      cases above with
      | nil => simp only [Branch.walk, verdict]
      | cons m above =>
        simp only [Branch.walk, verdict] at untouched
        cases untouched
    | exchange kind =>
      cases above with
      | nil => simp only [Branch.walk, verdict]
      | cons m above =>
        simp only [Branch.walk, verdict] at untouched
        cases untouched

/-- A walk that touched nothing noted nothing but what it saw. -/
theorem walkAll_untouched (v : Visitor) :
    ∀ (bs : List Branch) (above : List Node) (before : List Branch) (trail : Trail),
    (walkAll v above before bs trail).touched = false →
      (walkAll v above before bs trail).trail
        = { trail with visited := (walkAll v above before bs trail).trail.visited }
  | [], _, _, _, _ => rfl
  | b :: bs, above, before, trail, untouched => by
    simp only [walkAll, Bool.or_eq_false_iff] at untouched ⊢
    have first := walk_untouched v b above before bs trail untouched.1
    have later := walkAll_untouched v bs above _ _ untouched.2
    rw [later, first]

end

/-! ## Walks that count nothing -/

section

variable {v : Visitor} {reached : List Node → Prop} {μ : Mark}

mutual

theorem bereft_walk (obeys : v.Obeys reached μ) :
    ∀ (b : Branch) (above : List Node) (before after : List Branch) (trail : Trail),
      above ≠ [] → reached above → b.Nested → (b.walk v above before after trail).touched = true →
      trail.bereft.length < (b.walk v above before after trail).trail.bereft.length
  | mk n cs, above, before, after, trail, below, here, nested, touched => by
    obtain ⟨m, above, rfl⟩ := List.exists_cons_of_ne_nil below
    rcases obeys ⟨m :: above, before, mk n cs, after⟩ here nested with
      ⟨answer, -, deeper⟩ | ⟨answer, -⟩ | ⟨answer, -⟩
    · simp only [Branch.walk, answer] at touched ⊢
      exact bereft_walkAll obeys cs (n :: m :: above) [] { trail with visited := mk n cs :: trail.visited } (by simp)
        deeper (fun c mem => (nested_mk.1 nested c mem).2) touched
    · simp only [Branch.walk, answer] at touched
      cases touched
    · simp only [Branch.walk, answer]
      exact Nat.lt_succ_self _

/-- A walk of a visitor that obeys a mark notes a loss if it touched anything. -/
theorem bereft_walkAll (obeys : v.Obeys reached μ) :
    ∀ (bs : List Branch) (above : List Node) (before : List Branch) (trail : Trail),
      above ≠ [] → reached above → (∀ b ∈ bs, b.Nested) → (walkAll v above before bs trail).touched = true →
      trail.bereft.length < (walkAll v above before bs trail).trail.bereft.length
  | [], _, _, _, _, _, _, touched => by cases touched
  | b :: bs, above, before, trail, below, here, nested, touched => by
    simp only [List.mem_cons, forall_eq_or_imp] at nested
    have first := bereft_walk obeys b above before bs trail below here nested.1
    have same := walk_untouched v b above before bs trail
    have later := bereft_walkAll obeys bs above ((b.walk v above before bs trail).branches.reverse ++ before)
      (b.walk v above before bs trail).trail below here nested.2
    have same' := walkAll_untouched v bs above ((b.walk v above before bs trail).branches.reverse ++ before)
      (b.walk v above before bs trail).trail
    rw [walkAll] at touched ⊢
    simp only at touched ⊢
    cases left : (b.walk v above before bs trail).touched with
    | true =>
      have first := first left
      cases right : (walkAll v above ((b.walk v above before bs trail).branches.reverse ++ before) bs
          (b.walk v above before bs trail).trail).touched with
      | true => exact Nat.lt_trans first (later right)
      | false =>
        rw [same' right]
        exact first
    | false =>
      rw [left, Bool.false_or] at touched
      have later := later touched
      have noted : (b.walk v above before bs trail).trail.bereft = trail.bereft := by rw [same left]
      rwa [noted] at later

end

end

end Branch

namespace Tree
open Cut

variable {t : Tree} {v : Visitor} {reached : List Node → Prop} {μ : Mark}

/-- A walk that touched nothing left the tree as it was. -/
theorem Numbered.walk_untouched (h : t.Numbered) (untouched : (t.passed v).touched = false) :
    t.walk v = ⟨t, (t.passed v).trail.visited.reverse, 0, 0, 0⟩ := by
  obtain ⟨-, e⟩ := h.walk_eq v
  have walked : Passed.Of (.start t.size) [t.sheet] (t.passed v) := t.sheet.walk_spec v [] [] [] _
  have trail := t.sheet.walk_untouched v [] [] [] (.start t.size) untouched
  have bereft : (t.passed v).trail.bereft = [] := congrArg Trail.bereft trail
  have changed : (t.passed v).trail.changed = 0 := congrArg Trail.changed trail
  have loose : (t.passed v).trail.loose = [] := congrArg Trail.loose trail
  have size : (t.passed v).trail.size = t.size := congrArg Trail.size trail
  have same : t.unsettled v = t := by
    rw [unsettled, walked.untouched untouched, loose, size]
    rfl
  rw [e, bereft, changed, same]
  rfl

/-- A walk that counts nothing left the tree as it was. -/
theorem Numbered.walk_idle (h : t.Numbered) (obeys : v.Obeys reached μ) (nested : t.sheet.Nested)
    (descends : v ⟨[], [], t.sheet, []⟩ = .descend) (here : reached [t.sheet.node]) (idle : (t.walk v).removed = 0) :
    (t.walk v).tree = t := by
  have untouched : (t.passed v).touched = false := by
    refine Bool.eq_false_iff.2 fun touched => ?_
    rw [(h.walk_eq v).2] at idle
    have walked : t.passed v = t.sheet.walk v [] [] [] (.start t.size) := rfl
    rw [walked] at touched idle
    generalize t.sheet = sheet at nested descends here touched idle
    obtain ⟨n, cs⟩ := sheet
    simp only [Branch.walk, descends] at touched idle
    have noted := bereft_walkAll obeys cs [n] [] { Trail.start t.size with visited := [Branch.mk n cs] } (by simp) here
      (fun c mem => (nested_mk.1 nested c mem).2) touched
    exact absurd idle (Nat.ne_of_gt (Nat.lt_of_le_of_lt (Nat.zero_le _) noted))
  rw [h.walk_untouched untouched]

theorem unsettled_of_obeys (obeys : v.Obeys reached μ) (solid : μ.Solid) (nested : t.sheet.Nested)
    (descends : v ⟨[], [], t.sheet, []⟩ = .descend) (here : reached [t.sheet.node]) :
    (t.unsettled v).sheet = cutBelow (.pruning μ keep) [] t.sheet := by
  have walked := (walk_top_of_obeys obeys solid nested descends here (.start t.size)).1
  have walked : (t.passed v).branches = [cutBelow (.pruning μ keep) [] t.sheet] := walked
  rw [unsettled, walked]
  rfl

theorem unsettled_comments (root : t.sheet.kind = .styleSheet) :
    (t.unsettled Prune.comments).sheet.unnumbered = cutBelow (.pruning .never uncommented) [] t.sheet.unnumbered := by
  have other : t.sheet.kind.isComment = false := by rw [root]; rfl
  have structural : Prune.holdsComponents t.sheet.kind = false := by rw [root]; rfl
  have walked := (walk_top_comments other structural (.start t.size)).1
  have walked : (t.passed Prune.comments).branches.map Branch.unnumbered = _ := walked
  rw [passed_branches, List.map_singleton, List.cons.injEq] at walked
  exact walked.1

theorem thinned_comments (root : t.sheet.kind = .styleSheet) : t.sheet.Thinned (t.unsettled Prune.comments).sheet := by
  have branches := t.passed_branches Prune.comments
  have walked : t.passed Prune.comments = t.sheet.walk Prune.comments [] [] [] (.start t.size) := rfl
  rw [walked] at branches
  generalize (t.unsettled Prune.comments).sheet = b at branches
  generalize t.sheet = sheet at root branches
  obtain ⟨n, cs⟩ := sheet
  have other : n.kind.isComment = false := by
    rw [kind_mk] at root
    rw [root]
    rfl
  simp only [Branch.walk, Prune.comments_of_not_isComment cs other, List.cons.injEq, and_true] at branches
  rw [← branches]
  exact ⟨rfl, rfl, Prune.thins_walkAll_comments cs n [] [] _⟩

end Tree

end AboveFold
