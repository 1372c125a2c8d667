import AboveFold.Proofs.Stylesheet.Grammatical

/-!
# The pass over comments

Every comment that has a node in the tree goes, or a space comes in its place, and each is counted once
(`Stylesheet.Grammatical.comments_go`). Comments that reading passes over have no node, and stay in the text
around them.
-/

namespace AboveFold
open Branch

namespace Prune

/-- How many comments a walk took out so far or put a space for. -/
def tally (trail : Trail) : Nat := trail.bereft.length + trail.changed

theorem childless_of_isComment {n : Node} {cs : List Branch} (formed : (mk n cs).Formed)
    (comment : n.kind.isComment = true) : cs = [] := by
  have composes := formed.composes
  rw [kind_mk, children_mk] at composes
  cases k : n.kind <;> rw [k] at comment composes <;> first | exact List.map_eq_nil_iff.1 composes | cases comment

mutual

theorem tally_walk : ∀ (b : Branch) (m : Node) (above : List Node) (before after : List Branch) (trail : Trail),
    (∀ c ∈ b.preorder, c.Formed) →
    tally (b.walk comments (m :: above) before after trail).trail
      = tally trail + b.preorder.countP (·.kind.isComment)
  | .mk n cs, m, above, before, after, trail, formed => by
    cases comment : n.kind.isComment with
    | true =>
      obtain rfl := childless_of_isComment (formed _ (self_mem_preorder _)) comment
      have one : (preorder (mk n [])).countP (·.kind.isComment) = 1 := by
        simp [preorder, comment]
      have answer := comments_of_isComment [] comment (m :: above) before after
      rw [one]
      split at answer
      next =>
        simp only [Branch.walk, answer, tally]
        omega
      next =>
        simp only [Branch.walk, answer, tally, List.length_cons]
        omega
    | false =>
      have children := tally_walkAll cs n (m :: above) [] { trail with visited := .mk n cs :: trail.visited }
        fun c mem => formed c (mem_preorder.2 (.inr mem))
      simp only [Branch.walk, comments_of_not_isComment cs comment]
      rw [preorder, List.countP_cons_of_neg (by simp [comment])]
      exact children

/-- A walk over comments counts each of them once. -/
theorem tally_walkAll : ∀ (bs : List Branch) (m : Node) (above : List Node) (before : List Branch) (trail : Trail),
    (∀ c ∈ preorderAll bs, c.Formed) →
    tally (walkAll comments (m :: above) before bs trail).trail
      = tally trail + (preorderAll bs).countP (·.kind.isComment)
  | [], _, _, _, _, _ => rfl
  | b :: bs, m, above, before, trail, formed => by
    have first := tally_walk b m above before bs trail fun c mem => formed c (by simp [mem])
    have later := tally_walkAll bs m above ((b.walk comments (m :: above) before bs trail).branches.reverse ++ before)
      (b.walk comments (m :: above) before bs trail).trail fun c mem => formed c (by simp [mem])
    rw [walkAll, preorderAll_cons, List.countP_append]
    exact later.trans (by rw [first, Nat.add_assoc])

end

end Prune

namespace Stylesheet

variable {s : Stylesheet}

/-- **Comments go.** The pass over comments leaves no comment in the tree, and it returns how many there
were. -/
theorem Grammatical.comments_go (h : s.Grammatical) :
    s.pruneComments.1 = s.tree.attached.countP (·.kind.isComment)
      ∧ ∀ b ∈ s.pruneComments.2.tree.attached, b.kind.isComment = false := by
  have root := h.rooted.root
  have numbered := h.rooted.numbered
  constructor
  · obtain ⟨-, e⟩ := numbered.walk_eq Prune.comments
    have formed := h.formed
    rw [pruneComments, e]
    show (s.tree.passed Prune.comments).trail.bereft.length + (s.tree.passed Prune.comments).trail.changed = _
    rw [Tree.passed, Tree.attached]
    rw [Tree.attached] at formed
    generalize s.tree.sheet = sheet at root formed
    obtain ⟨n, cs⟩ := sheet
    have other : n.kind.isComment = false := by
      rw [kind_mk] at root
      rw [root]
      rfl
    have children := Prune.tally_walkAll cs n [] [] { Trail.start s.tree.size with visited := [Branch.mk n cs] }
      fun c mem => formed c (mem_preorder.2 (.inr mem))
    simp only [Branch.walk, Prune.comments_of_not_isComment cs other]
    rw [preorder, List.countP_cons_of_neg (by simp [other])]
    exact children.trans (Nat.zero_add _)
  · have nested : s.tree.sheet.unnumbered.Nested := nested_unnumbered.2 h.inOrder.nested
    have settles := (numbered.walk_settles Prune.comments).thinned
    have free : ∀ c ∈ preorderAll (s.tree.unsettled Prune.comments).sheet.unnumbered.children,
        c.kind.isComment = false := by
      rw [Tree.unsettled_comments root]
      exact isComment_cutBelow Mark.regular_never nested
    rw [children_unnumbered, preorderAll_unnumbered] at free
    have left := settles.below.isComment fun b mem => by
      rw [← kind_unnumbered]
      exact free _ (List.mem_map_of_mem mem)
    intro b mem
    rcases mem_preorder.1 mem with rfl | mem
    · have kind := settles.kind.trans (Tree.thinned_comments root).kind
      rw [root] at kind
      exact kind ▸ rfl
    · exact left b mem

end Stylesheet

end AboveFold
