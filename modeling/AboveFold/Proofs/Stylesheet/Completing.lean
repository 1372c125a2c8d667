import AboveFold.Proofs.Prune.Firm
import AboveFold.Proofs.Stylesheet.Comments
import AboveFold.Proofs.Stylesheet.Fonts
import AboveFold.Proofs.Tree.Least

/-!
# Passes are complete

A pass does all that it has to do in one run: what it leaves, it leaves as it is when it is run again. And a run that
counts nothing changed nothing, not even a mark (`Stylesheet.Grammatical.completes`). This does not hold of the passes
that go on by themselves until nothing is left for them to do, and of urls that are made absolute, which are counted
once more each time.

Removing empty rules is the one pass that goes by what is left of a rule. It comes to its end in one run as well,
whatever edits and passes came before it (`Session.run_sweepsOut`).
-/

namespace AboveFold
open Branch

namespace Pass

/-- Whether a pass goes over the style sheet once and takes something out of it. -/
def IsSingle : Pass → Prop
  | allUnused | absolutify _ => False
  | _ => True

/-- Whether a pass has done all that it has to do when it was run once. -/
structure Completes (p : Pass) (s : Stylesheet) : Prop where
  /-- A second run counts nothing and leaves the stylesheet as it is. -/
  again : p.run (p.run s).2 = (0, (p.run s).2)
  /-- A run that counts nothing leaves the stylesheet as it was, with all its marks. -/
  idle : (p.run s).1 = 0 → (p.run s).2 = s

end Pass

namespace Stylesheet

variable {s : Stylesheet} {p : Pass} {v : Visitor} {reached : List Node → Prop} {μ : Mark} {q : Node.Kind → Bool}

theorem firm_strayFonts (s : Stylesheet) (kept : List String) : (s.strayFonts kept).Firm Node.Kind.canBeEmpty where
  kinds _ := Node.Kind.isSolidPrunable_of_canBeEmpty
  falls _ here := here
  fits above b marked := by
    have atRule := isAtRule_of_isFace (strayFonts_eq_true.1 marked).1
    rw [Node.Kind.canBeEmpty, atRule, Bool.or_true]
  culled above b b' _ culled := by rw [strayFonts, strayFonts, culled.kind, s.declaredFont?_of_culled culled]

/-- A pass that goes over the style sheet once is a walk that follows a firm mark, but for two of them. -/
theorem exists_firm (s : Stylesheet) (single : p.IsSingle) (other : p ≠ .comments ∧ p ≠ .emptied) :
    ∃ (v : Visitor) (reached : List Node → Prop) (μ : Mark) (q : Node.Kind → Bool), s.Follows p v reached μ ∧ μ.Firm q := by
  have marking (marking : p.IsMarking) :
      ∃ (v : Visitor) (reached : List Node → Prop) (μ : Mark) (q : Node.Kind → Bool), s.Follows p v reached μ ∧ μ.Firm q := by
    obtain ⟨v, reached, follows⟩ := s.exists_visitor marking
    exact ⟨v, reached, p.mark, _, follows, p.regular_mark.firm⟩
  cases p with
  | filters f =>
    refine ⟨s.filterVisitor f, _, s.unkept f, _, ⟨s.filterVisitor_obeys f, fun b root => ?_, fun _ => rfl⟩, s.firm_unkept f⟩
    exact ⟨by simp only [filterVisitor, root], trivial⟩
  | fonts kept =>
    refine ⟨s.fontVisitor (kept.map Font.normalize), _, s.strayFonts (kept.map Font.normalize), _,
      ⟨s.fontVisitor_obeys _, fun b root => ⟨?_, ?_⟩, fun _ => rfl⟩, s.firm_strayFonts _⟩
    · rw [fontVisitor_eq, root]
      rfl
    · have root : b.node.kind = .styleSheet := root
      rw [List.any_cons, root]
      rfl
  | comments => exact absurd rfl other.1
  | emptied => exact absurd rfl other.2
  | allUnused => cases single
  | absolutify base => cases single
  | _ => exact marking trivial

/-- A walk that follows a firm mark is complete. -/
theorem InOrder.completes_of_follows (h : s.InOrder) (follows : s.Follows p v reached μ) (firm : μ.Firm q) :
    p.Completes s := by
  have first : p.run s = s.pruneBy v := follows.run s.tree
  have root := h.rooted.root
  obtain ⟨descends, here⟩ := follows.top _ root
  obtain ⟨culled, clean⟩ := h.rooted.numbered.walk_firm follows.obeys firm h.nested root descends here
  have thinned := culled.thinned fun k goes => Node.Kind.isPrunable_of_isSolidPrunable (firm.kinds k goes)
  have left : (s.pruneBy v).2.InOrder := ⟨h.rooted.walk descends, thinned.nested h.nested⟩
  rw [← first] at left
  constructor
  · obtain ⟨descends, here⟩ := follows.top _ left.rooted.root
    have second : p.run (p.run s).2 = (p.run s).2.pruneBy v := by
      rw [first]
      exact follows.run _
    rw [second]
    refine left.pruneBy_of_clean follows.obeys firm.solid descends here ?_
    rw [first]
    exact clean
  · intro idle
    rw [first] at idle ⊢
    have same := h.rooted.numbered.walk_idle follows.obeys h.nested descends here idle
    rw [pruneBy, same]

theorem Grammatical.completes_comments (h : s.Grammatical) : Pass.comments.Completes s where
  again := (h.pass .comments).inOrder.run_comments h.comments_go.2
  idle idle := by
    have none : s.tree.attached.countP (·.kind.isComment) = 0 := h.comments_go.1.symm.trans idle
    rw [h.inOrder.run_comments fun b mem => by simpa using List.countP_eq_zero.1 none b mem]

theorem Rooted.completes_emptied (h : s.Rooted) : Pass.emptied.Completes s where
  again := by
    have again := (h.numbered.sweepsOut h.root).again
    have first : Pass.emptied.run s = (s.tree.removeEmptied.1, { s with tree := s.tree.removeEmptied.2 }) := rfl
    rw [first, Pass.run, pruneEmptied, again]
  idle idle := by
    have sweeps := h.numbered.sweepsOut h.root
    have none : s.tree.lost s.tree.removeEmptied.2 = [] := List.length_eq_zero_iff.1 (sweeps.count.symm.trans idle)
    have nothing : {i | i ∈ s.tree.lost s.tree.removeEmptied.2} = ∅ := by simp [none]
    have closed := sweeps.least.1
    rw [nothing] at closed
    refine congrArg Prod.snd (run_emptied fun b mem => Bool.eq_false_iff.2 fun emptied => ?_)
    refine closed.closed b.id (List.mem_map_of_mem mem) ?_
    rwa [Tree.emptyWithout_empty, h.numbered.isEmptied_eq (Tree.mem_branches.2 (.inl mem))]

/-- **A pass is complete in one run.** -/
theorem Grammatical.completes (h : s.Grammatical) (single : p.IsSingle) : p.Completes s := by
  by_cases comments : p = .comments
  · exact comments ▸ h.completes_comments
  by_cases emptied : p = .emptied
  · exact emptied ▸ h.rooted.completes_emptied
  obtain ⟨v, reached, μ, q, follows, firm⟩ := s.exists_firm single ⟨comments, emptied⟩
  exact h.inOrder.completes_of_follows follows firm

/-- **Every pass is complete in one run**, over whatever was read and after whatever other passes. -/
theorem pass_completes (source : String) (path : Option String) (passes : List Pass) (p : Pass) (single : p.IsSingle) :
    p.Completes (passes.foldl Pass.apply (parse source path)) :=
  ((grammatical_parse source path).passes passes).completes single

/-- The one font goes, and the at-rule around it falls. The rule was empty before and stays. -/
theorem pass_completes_fonts :
    let s := [Pass.comments].foldl Pass.apply (parse "@media x\x7b/**/@font-face\x7bfont-family:y\x7d\x7da\x7b\x7d" none)
    (Pass.fonts []).IsSingle ∧ (Pass.fonts []).Completes s
      ∧ ((Pass.fonts []).run s).1 = 1 ∧ ((Pass.fonts []).run s).2.render = "a\x7b\x7d" :=
  ⟨trivial, pass_completes _ none [.comments] (.fonts []) trivial, by decide +kernel, by decide +kernel⟩

end Stylesheet

/-! ## Removing empty rules -/

/-- **One sweep empties everything**, whatever was read and whatever passes, edits and walks came before, as long as the
root is a style sheet. -/
theorem Session.run_sweepsOut (source : String) (path : Option String) (commands : List Command)
    (root : (Session.run source path commands).sheet.tree.sheet.kind = .styleSheet) :
    (Session.run source path commands).sheet.tree.SweepsOut :=
  (Session.kept source path commands).evolves.tree.numbered.sweepsOut root

/-- An empty rule takes the one around it along, and so does a rule that an edit left empty. -/
theorem Session.run_sweepsOut_nested :
    let s := (Session.run "a\x7bb\x7b\x7d\x7d@media x\x7bc\x7bd:e\x7d\x7d" none [.edit (.detach 21)]).sheet
    s.tree.sheet.kind = .styleSheet ∧ s.tree.SweepsOut ∧ s.tree.removeEmptied.1 = 4 := by
  intro s
  have root : s.tree.sheet.kind = .styleSheet := by decide +kernel
  exact ⟨root, Session.run_sweepsOut _ none _ root, by decide +kernel⟩

end AboveFold
