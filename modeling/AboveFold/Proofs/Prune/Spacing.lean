import AboveFold.Proofs.Prune.Plan

/-!
# Comments and spaces

Whether a comment leaves a space depends on what stands before it, as the walk left it, and on what follows.
`uncomment` says so without a walk: what becomes of a branch depends on the kinds of its neighbours, and only
if it stands among component values. Afterwards there are no comments, and nothing is left to do.
-/

namespace AboveFold
open Branch

namespace Branch
open Cut

/-- The space that takes the place of a comment, without its number. -/
def blank : Branch := mk ⟨0, .whitespace, none, true⟩ []

mutual

/-- Takes the comments out of a branch that stands between nodes of the given kinds. If these are component
values, a comment may leave a space. -/
def uncomment (components : Bool) (prev next : Option Node.Kind) : Branch → Cut
  | mk n cs =>
    if n.kind.isComment then
      if components && prev.any Prune.isSolid && next.any Prune.isSolid then ⟨[blank], true⟩ else .gone
    else (uncommentAll (Prune.holdsComponents n.kind) none cs).wrap n

/-- Takes the comments out of branches side by side, where a node of the kind `prev` stands before them. -/
def uncommentAll (components : Bool) (prev : Option Node.Kind) : List Branch → Cut
  | [] => .whole []
  | b :: bs =>
    let c := uncomment components prev (bs.head?.map kind) b
    c.beside (uncommentAll components ((c.kept.getLast?.map kind).or prev) bs)

end

/-- A branch that does not stand among component values, without its comments. -/
def uncommented (b : Branch) : Cut := uncomment false none none b

/-- A branch without the comments below its top. -/
def stripped (b : Branch) : Branch := (uncommentAll (Prune.holdsComponents b.kind) none b.children).under b.node

variable {b : Branch} {cs : List Branch} {n : Node} {components : Bool} {prev next : Option Node.Kind}

theorem uncomment_of_isComment (comment : n.kind.isComment = true) : uncomment components prev next (mk n cs)
    = if components && prev.any Prune.isSolid && next.any Prune.isSolid then ⟨[blank], true⟩ else .gone := by
  rw [uncomment, if_pos comment]

theorem uncomment_of_not_isComment (other : n.kind.isComment = false) : uncomment components prev next (mk n cs)
    = (uncommentAll (Prune.holdsComponents n.kind) none cs).wrap n := by
  rw [uncomment, other]
  rfl

/-! ## What goes -/

mutual

theorem thins_uncomment : ∀ (b : Branch) (components : Bool) (prev next : Option Node.Kind) (k : Node.Kind),
    (components = true → Prune.holdsComponents k = true) → Thins k [b] (uncomment components prev next b).kept
  | mk n cs, components, prev, next, k, holder => by
    cases comment : n.kind.isComment with
    | true =>
      rw [uncomment_of_isComment comment]
      split
      next spaced =>
        simp only [Bool.and_eq_true] at spaced
        exact .space comment (holder spaced.1.1) rfl .nil
      next => exact .drop (Node.Kind.isPrunable_of_isComment comment) .nil
    | false =>
      rw [uncomment_of_not_isComment comment]
      exact .keep rfl rfl (thins_uncommentAll cs _ none n.kind fun holder => holder) .nil

/-- Comments go or become spaces, and nothing else happens. -/
theorem thins_uncommentAll : ∀ (bs : List Branch) (components : Bool) (prev : Option Node.Kind) (k : Node.Kind),
    (components = true → Prune.holdsComponents k = true) → Thins k bs (uncommentAll components prev bs).kept
  | [], _, _, _, _ => .nil
  | b :: bs, components, prev, k, holder => by
    rw [uncommentAll]
    exact (thins_uncomment b components prev _ k holder).append (thins_uncommentAll bs components _ k holder)

end

theorem airs_uncommented : Airs uncommented := fun b k => thins_uncomment b false none none k (by simp)

mutual

theorem isComment_uncomment : ∀ (b : Branch) (components : Bool) (prev next : Option Node.Kind),
    ∀ c ∈ preorderAll (uncomment components prev next b).kept, c.kind.isComment = false
  | mk n cs, components, prev, next, c, mem => by
    cases comment : n.kind.isComment with
    | true =>
      rw [uncomment_of_isComment comment] at mem
      split at mem
      next =>
        rw [preorderAll_cons, preorderAll_nil, List.append_nil, blank, preorder, preorderAll,
          List.mem_singleton] at mem
        rw [mem]
        rfl
      next => cases mem
    | false =>
      rw [uncomment_of_not_isComment comment, wrap, preorderAll_cons, preorderAll_nil, List.append_nil] at mem
      rcases mem_preorder.1 mem with rfl | mem
      · exact comment
      · exact isComment_uncommentAll cs _ none c mem

/-- No comment is left. -/
theorem isComment_uncommentAll : ∀ (bs : List Branch) (components : Bool) (prev : Option Node.Kind),
    ∀ c ∈ preorderAll (uncommentAll components prev bs).kept, c.kind.isComment = false
  | [], _, _, c, mem => by cases mem
  | b :: bs, components, prev, c, mem => by
    rw [uncommentAll, beside, preorderAll_append] at mem
    rcases List.mem_append.1 mem with mem | mem
    · exact isComment_uncomment b components prev _ c mem
    · exact isComment_uncommentAll bs components _ c mem

end

mutual

theorem uncomment_eq_whole : ∀ (b : Branch) (components : Bool) (prev next : Option Node.Kind),
    (∀ c ∈ b.preorder, c.kind.isComment = false) → uncomment components prev next b = .whole [b]
  | mk n cs, components, prev, next, free => by
    have below := uncommentAll_eq_whole cs (Prune.holdsComponents n.kind) none fun c mem =>
      free c (mem_preorder.2 (.inr mem))
    have other : n.kind.isComment = false := free _ (self_mem_preorder _)
    rw [uncomment_of_not_isComment other, below, wrap_whole]

/-- Where there are no comments, nothing goes. -/
theorem uncommentAll_eq_whole : ∀ (bs : List Branch) (components : Bool) (prev : Option Node.Kind),
    (∀ c ∈ preorderAll bs, c.kind.isComment = false) → uncommentAll components prev bs = .whole bs
  | [], _, _, _ => rfl
  | b :: bs, components, prev, free => by
    simp only [preorderAll_cons, List.mem_append, or_imp, forall_and] at free
    rw [uncommentAll, uncomment_eq_whole b components prev _ free.1, uncommentAll_eq_whole bs components _ free.2]
    rfl

end

/-- Without comments there is nothing left to do. -/
theorem uncommented_bind_uncommented (b : Branch) : (uncommented b).bind uncommented = uncommented b := by
  refine bind_eq_self fun c mem => uncomment_eq_whole c false none none fun d inside => ?_
  exact isComment_uncomment b false none none d (mem_preorderAll.2 ⟨c, mem, inside⟩)

/-! ## Beside other plans -/

/-- Outside of component values the neighbours do not matter. -/
theorem uncommentAll_eq_each (bs : List Branch) (prev : Option Node.Kind) :
    uncommentAll false prev bs = each uncommented bs := by
  have alone (b : Branch) (prev next : Option Node.Kind) : uncomment false prev next b = uncommented b := by
    cases b
    rw [uncommented, uncomment, uncomment]
    rfl
  induction bs generalizing prev with
  | nil => rfl
  | cons b bs ih => rw [uncommentAll, alone, ih, each_cons]

/-- What holds component values is a component value, a prelude or the value of a declaration. -/
theorem cut_never (above : List Node.Kind) (b : Branch) :
    cut (.pruning .never uncommented) above b = uncommented b := by
  induction b using induct generalizing above with
  | mk n cs ih =>
    cases solid : (mk n cs).kind.isPlain with
    | true => exact cut_plain solid
    | false =>
      have none : n.kind.isComment = false ∧ Prune.holdsComponents n.kind = false := by
        rw [kind_mk] at solid
        cases k : n.kind <;> rw [k] at solid <;> first | exact ⟨rfl, rfl⟩ | cases solid
      rw [cut_unmarked solid rfl, children_mk, kind_mk, node_mk, uncommented, uncomment_of_not_isComment none.1, none.2,
        uncommentAll_eq_each, each_congr fun c mem => ih c mem (n.kind :: above)]

/-- Taking comments out leaves none, whatever else goes. -/
theorem isComment_cutBelow {μ : Mark} {above : List Node.Kind} (regular : μ.Regular) (nested : b.Nested) :
    ∀ c ∈ preorderAll (cutBelow (.pruning μ uncommented) above b).children, c.kind.isComment = false := by
  -- the comments may as well go first, and then nothing brings them back
  have twice : cutBelow (.pruning μ uncommented) above (cutBelow (.pruning .never uncommented) above b)
      = cutBelow (.pruning (Mark.never.or μ) fun b => (uncommented b).bind uncommented) above b :=
    cutBelow_pruning Mark.regular_never regular airs_uncommented nested
  have same : (fun b => (uncommented b).bind uncommented) = uncommented := funext uncommented_bind_uncommented
  have once : Mark.never.or μ = μ := rfl
  rw [same, once] at twice
  rw [← twice]
  have free : ∀ c ∈ preorderAll (cutBelow (.pruning .never uncommented) above b).children,
      c.kind.isComment = false := by
    intro c mem
    obtain ⟨d, hd, inside⟩ := mem_preorderAll.1 mem
    obtain ⟨e, -, left⟩ := List.mem_flatMap.1 hd
    rw [cut_never] at left
    exact isComment_uncomment e false none none c (mem_preorderAll.2 ⟨d, left, inside⟩)
  exact (thinned_cutBelow (thins_pruning regular airs_uncommented) above _).below.isComment free

end Branch

/-! ## The walk -/

namespace Prune
open Cut

variable {n : Node}

theorem comments_of_isComment (cs : List Branch) (comment : n.kind.isComment = true) (above : List Node)
    (before after : List Branch) :
    comments ⟨above, before, .mk n cs, after⟩
      = if separates ⟨above, before, .mk n cs, after⟩ then .exchange .whitespace else .remove := by
  simp [comments, comment]

theorem comments_of_not_isComment (cs : List Branch) (other : n.kind.isComment = false) (above : List Node)
    (before after : List Branch) :
    comments ⟨above, before, .mk n cs, after⟩ = .descend := by
  simp [comments, other]

mutual

theorem walk_comments : ∀ (b : Branch) (above : List Node) (before after : List Branch) (trail : Trail),
    above ≠ [] → (b.walk comments above before after trail).cut.unnumbered
      = uncomment (above.head?.any (holdsComponents ·.kind)) (before.head?.map Branch.kind)
        (after.head?.map Branch.kind) b.unnumbered
  | .mk n cs, above, before, after, trail, below => by
    obtain ⟨m, above, rfl⟩ := List.exists_cons_of_ne_nil below
    rw [unnumbered_mk]
    cases comment : n.kind.isComment with
    | true =>
      have answer := comments_of_isComment cs comment (m :: above) before after
      have same : separates ⟨m :: above, before, .mk n cs, after⟩
          = ((m :: above).head?.any (holdsComponents ·.kind) && (before.head?.map Branch.kind).any isSolid
            && (after.head?.map Branch.kind).any isSolid) := by
        simp only [separates, Option.any_map]
      rw [same] at answer
      rw [uncomment_of_isComment (n := { n with id := 0 }) comment]
      split at answer
      next spaced =>
        simp only [Branch.walk, answer, spaced]
        rfl
      next close =>
        simp only [Branch.walk, answer, close]
        rfl
    | false =>
      have answer := comments_of_not_isComment cs comment (m :: above) before after
      have children := walkAll_comments cs (n :: m :: above) [] { trail with visited := .mk n cs :: trail.visited }
        (by simp)
      rw [uncomment_of_not_isComment (n := { n with id := 0 }) comment]
      simp only [Branch.walk, answer]
      exact (unnumbered_wrap n _).trans (congrArg _ children)

/-- The walk over comments depends on the kinds of the neighbours only. -/
theorem walkAll_comments : ∀ (bs : List Branch) (above : List Node) (before : List Branch) (trail : Trail),
    above ≠ [] → (walkAll comments above before bs trail).cut.unnumbered
      = uncommentAll (above.head?.any (holdsComponents ·.kind)) (before.head?.map Branch.kind)
        (bs.map Branch.unnumbered)
  | [], _, _, _, _ => rfl
  | b :: bs, above, before, trail, below => by
    have first := walk_comments b above before bs trail below
    have later := walkAll_comments bs above ((b.walk comments above before bs trail).branches.reverse ++ before)
      (b.walk comments above before bs trail).trail below
    have next : (bs.map Branch.unnumbered).head?.map Branch.kind = bs.head?.map Branch.kind := by
      cases bs <;> simp
    rw [walkAll]
    generalize b.walk comments above before bs trail = r at first later ⊢
    -- what stands before the rest is the last node left of the first branch, if any is
    have prev : (r.branches.reverse ++ before).head?.map Branch.kind
        = ((r.branches.map Branch.unnumbered).getLast?.map Branch.kind).or (before.head?.map Branch.kind) := by
      rw [List.head?_append, List.head?_reverse, List.getLast?_map, Option.map_map]
      cases r.branches.getLast? <;> simp
    rw [prev] at later
    rw [List.map_cons, uncommentAll, next, ← first]
    exact (unnumbered_beside ⟨r.branches, r.touched⟩ _).trans (congrArg _ later)

end

/-- What the walk over comments makes of a node is that node without the comments below it. -/
theorem under_comments {cs : List Branch} {above : List Node} {trail : Trail} :
    ((walkAll comments (n :: above) [] cs trail).cut.under n).unnumbered = (Branch.mk n cs).unnumbered.stripped := by
  have children := walkAll_comments cs (n :: above) [] trail (by simp)
  rw [unnumbered_under, children, unnumbered_mk]
  rfl

mutual

/-- Every node that a walk over comments leaves was there before, or is a space. -/
theorem mem_walk_comments : ∀ (b : Branch) (m : Node) (above : List Node) (before after : List Branch)
    (trail : Trail), ∀ c ∈ preorderAll (b.walk comments (m :: above) before after trail).branches,
    c.kind.isWhitespace = true ∨ ∃ v ∈ b.preorder, v.id = c.id ∧ c.unnumbered = v.unnumbered.stripped
  | .mk n cs, m, above, before, after, trail, c, mem => by
    cases comment : n.kind.isComment with
    | true =>
      have answer := comments_of_isComment cs comment (m :: above) before after
      split at answer
      next =>
        simp only [Branch.walk, answer, preorderAll_cons, preorderAll_nil, List.append_nil] at mem
        rcases mem_preorder.1 mem with rfl | mem
        · exact .inl rfl
        · cases mem
      next =>
        simp only [Branch.walk, answer, preorderAll_nil, List.not_mem_nil] at mem
    | false =>
      simp only [Branch.walk, comments_of_not_isComment cs comment, preorderAll_cons, preorderAll_nil,
        List.append_nil] at mem
      rcases mem_preorder.1 mem with rfl | mem
      · exact .inr ⟨_, self_mem_preorder _, rfl, under_comments⟩
      · rcases mem_walkAll_comments cs n (m :: above) [] _ c mem with blank | ⟨v, hv, same⟩
        · exact .inl blank
        · exact .inr ⟨v, mem_preorder.2 (.inr hv), same⟩

theorem mem_walkAll_comments : ∀ (bs : List Branch) (m : Node) (above : List Node) (before : List Branch)
    (trail : Trail), ∀ c ∈ preorderAll (walkAll comments (m :: above) before bs trail).branches,
    c.kind.isWhitespace = true ∨ ∃ v ∈ preorderAll bs, v.id = c.id ∧ c.unnumbered = v.unnumbered.stripped
  | [], _, _, _, _, c, mem => by cases mem
  | b :: bs, m, above, before, trail, c, mem => by
    rw [walkAll, preorderAll_append] at mem
    rcases List.mem_append.1 mem with mem | mem
    · exact (mem_walk_comments b m above before bs trail c mem).imp_right fun ⟨v, hv, same⟩ =>
        ⟨v, by simp [hv], same⟩
    · exact (mem_walkAll_comments bs m above _ _ c mem).imp_right fun ⟨v, hv, same⟩ => ⟨v, by simp [hv], same⟩

end

mutual

theorem thins_walk_comments : ∀ (b : Branch) (m : Node) (above : List Node) (before after : List Branch)
    (trail : Trail), Thins m.kind [b] (b.walk comments (m :: above) before after trail).branches
  | .mk n cs, m, above, before, after, trail => by
    cases comment : n.kind.isComment with
    | true =>
      have answer := comments_of_isComment cs comment (m :: above) before after
      split at answer
      next spaced =>
        simp only [separates, Bool.and_eq_true] at spaced
        simp only [Branch.walk, answer]
        exact .space comment spaced.1.1 rfl .nil
      next =>
        simp only [Branch.walk, answer]
        exact .drop (Node.Kind.isPrunable_of_isComment comment) .nil
    | false =>
      simp only [Branch.walk, comments_of_not_isComment cs comment]
      exact .keep rfl rfl (thins_walkAll_comments cs n (m :: above) [] _) .nil

/-- The walk over comments does no more than pruning may do. -/
theorem thins_walkAll_comments : ∀ (bs : List Branch) (m : Node) (above : List Node) (before : List Branch)
    (trail : Trail), Thins m.kind bs (walkAll comments (m :: above) before bs trail).branches
  | [], _, _, _, _ => .nil
  | b :: bs, m, above, before, trail => by
    rw [walkAll]
    exact (thins_walk_comments b m above before bs trail).append (thins_walkAll_comments bs m above _ _)

end

end Prune

end AboveFold
