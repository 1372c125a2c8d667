import AboveFold.Proofs.Prune.Rewording
import AboveFold.Proofs.Stylesheet.Comments

/-!
# Values go on saying the same

The pass over comments takes them out of values and preludes, and leaves a space where one kept two values apart.
In a stylesheet that was read without diagnostics each value that stays says afterwards what it said before, token
by token, unless a comment in it keeps a blank from an escape. The same is true of the prelude of every at-rule but
`@media`, whose media queries are kept as text.
-/

namespace AboveFold
open Branch Token

namespace Tree

variable {t : Tree}

/-- Every node that the walk over comments leaves was there before, or is a space. -/
theorem mem_unsettled_comments (root : t.sheet.kind = .styleSheet) :
    ∀ c ∈ (t.unsettled Prune.comments).sheet.preorder,
      c.kind.isWhitespace = true ∨ ∃ v ∈ t.sheet.preorder, v.id = c.id ∧ c.unnumbered = v.unnumbered.stripped := by
  have branches := t.passed_branches Prune.comments
  have walked : t.passed Prune.comments = t.sheet.walk Prune.comments [] [] [] (.start t.size) := rfl
  rw [walked] at branches
  generalize (t.unsettled Prune.comments).sheet = b at branches
  generalize t.sheet = sheet at root branches
  obtain ⟨n, cs⟩ := sheet
  have other : n.kind.isComment = false := by
    rw [kind_mk] at root
    rw [root]
    rfl
  simp only [Branch.walk, Prune.comments_of_not_isComment cs other, List.cons.injEq, and_true] at branches
  rw [← branches]
  intro c mem
  rcases mem_preorder.1 mem with rfl | mem
  · exact .inr ⟨_, self_mem_preorder _, rfl, Prune.under_comments⟩
  · rcases Prune.mem_walkAll_comments cs n [] [] _ c mem with blank | ⟨v, hv, same⟩
    · exact .inl blank
    · exact .inr ⟨v, mem_preorder.2 (.inr hv), same⟩

end Tree

namespace Stylesheet

/-- In a stylesheet that was read without diagnostics every node is one that was read, and its values say their
words. -/
theorem exists_holdsWords (source : String) (path : Option String) (clean : (parse source path).errors = []) :
    ∀ v ∈ (parse source path).tree.attached, ∃ p n, v = (Parsed.number n p).1 ∧ p.HoldsWords source := by
  obtain ⟨here, boundary, tiles⟩ := Token.tiles_tokens source path
  have holds := (Grammar.Input.mk source path).read_holdsWords boundary tiles (spells_tokens source path) clean
  intro v mem
  obtain ⟨p, hp, n, e⟩ := Parsed.exists_number 0 (Grammar.Input.read ⟨source, path⟩ _).sheet v mem
  exact ⟨p, n, e, holds p hp⟩

/-- Below rules nothing but the comments goes: every declaration, selector and component value that is left is a space,
or it was there before and lost the comments below it. -/
theorem Grammatical.exists_stripped {s : Stylesheet} (h : s.Grammatical) :
    ∀ d ∈ s.pruneComments.2.tree.attached, d.kind.isClosed = true →
      d.kind.isWhitespace = true
        ∨ ∃ v ∈ s.tree.attached, v.id = d.id ∧ v.kind = d.kind ∧ d.unnumbered = v.unnumbered.stripped := by
  have root := h.rooted.root
  have nested := h.inOrder.nested
  have thinned := Tree.thinned_comments root
  intro d mem closed
  have before := (h.rooted.numbered.walk_settles Prune.comments).spares (thinned.nested nested) d mem closed
  rcases Tree.mem_unsettled_comments root d before with blank | ⟨v, hv, number, same⟩
  · exact .inl blank
  · refine .inr ⟨v, hv, number, ?_, same⟩
    rw [← kind_unnumbered d, same, ← kind_unnumbered v]
    rfl

/-- **Values go on saying the same.** Whatever value or prelude is left by the pass over comments was read, and what
it is written as has the same tokens, but for blanks and comments, as the text that it was read from. -/
theorem pruneComments_meaning (source : String) (path : Option String) (clean : (parse source path).errors = []) :
    ∀ d ∈ (parse source path).pruneComments.2.tree.attached, d.kind = .value ∨ d.kind = .prelude →
      ∃ v ∈ (parse source path).tree.attached, v.id = d.id ∧ v.kind = d.kind
        ∧ ((∀ c ∈ v.children, c.kind.isMediaQuery = false) → Shielded (written (v.render (some source)).toList) →
          meaning (d.render (some source)).toList = meaning (v.render (some source)).toList) := by
  intro d mem kind
  have closed : d.kind.isClosed = true := by rcases kind with e | e <;> (rw [e]; rfl)
  rcases (grammatical_parse source path).exists_stripped d mem closed with blank | ⟨v, hv, id, here, same⟩
  · rcases kind with e | e <;> (rw [e] at blank; cases blank)
  · obtain ⟨p, n, rfl, holds⟩ := exists_holdsWords source path clean v hv
    refine ⟨_, hv, id, here, fun other shielded => ?_⟩
    rw [← render_unnumbered, same]
    refine holds.meaning_eq ?_ (fun c child => ?_) n shielded
    · rwa [← Parsed.kind_number n p, here]
    · have mem : c.kind ∈ (Parsed.number n p).1.children.map Branch.kind :=
        Parsed.kinds_number n p ▸ List.mem_map_of_mem child
      obtain ⟨b, hb, e⟩ := List.mem_map.1 mem
      rw [← e, other b hb]

end Stylesheet

end AboveFold
