import AboveFold.Proofs.Stylesheet.Editing
import AboveFold.Proofs.Tree.Recasting

/-!
# Passes as runs of walks

The visitors of all passes are modest, so a pass is nothing but walks of modest visitors and sweeps, one after another
(`Stylesheet.runs_pass`). What these keep is thus kept by any passes.
-/

namespace AboveFold

namespace Visitor

theorem Modest.declarations (drop : Branch → Bool) : Modest (Prune.declarations drop) := by
  intro site
  unfold Prune.declarations
  split
  next k => split <;> simp [Verdict.IsModest, k, Node.Kind.isPrunable]
  all_goals trivial

theorem Modest.atRules (drop : Branch → Bool) : Modest (Prune.atRules drop) := by
  intro site
  unfold Prune.atRules
  split
  next k => split <;> simp [Verdict.IsModest, k, Node.Kind.isPrunable]
  all_goals trivial

theorem Modest.uncritical (critical : List String) : Modest (Prune.uncritical critical) := by
  intro site
  unfold Prune.uncritical
  split
  next => split <;> trivial
  next k => split <;> simp [Verdict.IsModest, k, Node.Kind.isPrunable]
  all_goals trivial

theorem Modest.filterVisitor (s : Stylesheet) (f : Filters) : Modest (s.filterVisitor f) := by
  intro site
  unfold Stylesheet.filterVisitor
  dsimp only
  split
  next k => split <;> simp [Verdict.IsModest, k, Node.Kind.isPrunable]
  next k => split <;> simp [Verdict.IsModest, k, Node.Kind.isPrunable]
  all_goals trivial

/-- A space comes in the place of a comment only where component values stand. -/
theorem Modest.comments : Modest Prune.comments := by
  intro site
  unfold Prune.comments
  split
  next => trivial
  next solid =>
    have comment : site.branch.kind.isComment = true := by simpa using solid
    split
    next separates =>
      simp only [Prune.separates, Bool.and_eq_true] at separates
      exact ⟨rfl, comment, separates.1.1⟩
    next => exact Node.Kind.isPrunable_of_isComment comment

theorem Modest.absoluteUrls (base : Url) : Modest (absoluteUrls base) := by
  intro site
  unfold AboveFold.absoluteUrls requote
  split
  next k =>
    split
    · trivial
    · rw [Verdict.IsModest, k]
      exact .url ..
  next k =>
    split
    next =>
      split
      · trivial
      · split
        · trivial
        · rw [Verdict.IsModest, k]
          exact .stringLit ..
    next => trivial
  all_goals trivial

end Visitor

/-! ## Runs -/

namespace Stylesheet

variable {s s' : Stylesheet}

/-- What walks of modest visitors and sweeps make of a stylesheet, one after another. -/
inductive Runs : (s s' : Stylesheet) → Prop where
  | done {s : Stylesheet} : Runs s s
  | walk {s s' : Stylesheet} {v : Visitor} (modest : v.Modest) (later : Runs (s.pruneBy v).2 s') : Runs s s'
  | sweep {s s' : Stylesheet} (later : Runs s.pruneEmptied.2 s') : Runs s s'

theorem runs_pruneBy {v : Visitor} (modest : v.Modest) : Runs s (s.pruneBy v).2 :=
  .walk modest .done

theorem runs_pruneVariablesWithin (fuel : Nat) (s : Stylesheet) : Runs s (pruneVariablesWithin fuel s).2 := by
  induction fuel generalizing s with
  | zero => exact .done
  | succ fuel ih =>
    have modest : (Prune.declarations fun b => b.definition?.any (!s.usedVariables.contains ·)).Modest := .declarations _
    unfold Stylesheet.pruneVariablesWithin
    split
    next s' e =>
      have e : (s.pruneVariables s.usedVariables).2 = s' := congrArg Prod.snd e
      exact e ▸ runs_pruneBy modest
    next n s' e =>
      have e : (s.pruneVariables s.usedVariables).2 = s' := congrArg Prod.snd e
      exact .walk modest (e ▸ ih s')

theorem runs_pruneFonts (s : Stylesheet) (kept : List String) : Runs s (s.pruneFonts kept).2 := by
  refine runs_pruneBy fun site => ?_
  dsimp only
  split
  next face =>
    have prunable : site.branch.kind.isPrunable = true := by
      cases k : site.branch.kind <;> simp_all [Node.Kind.isAtRuleNamed, Node.Kind.atRuleName?, Node.Kind.isPrunable]
    split
    · exact prunable
    · trivial
  next => split <;> trivial

/-- No pass does anything else. -/
theorem runs_pass (s : Stylesheet) (p : Pass) : Runs s (p.apply s) := by
  cases p with
  | allUnused => exact runs_pruneVariablesWithin _ s
  | emptied => exact .sweep .done
  | fonts kept => exact runs_pruneFonts s kept
  | filters f => exact runs_pruneBy (.filterVisitor s f)
  | comments => exact runs_pruneBy .comments
  | selectors critical => exact runs_pruneBy (.uncritical _)
  | absolutify base => exact runs_pruneBy (.absoluteUrls base)
  | media => exact runs_pruneBy (.atRules _)
  | atRules names => exact runs_pruneBy (.atRules _)
  | interactive => exact runs_pruneBy (.declarations _)
  | embeds limit => exact runs_pruneBy (.declarations _)
  | unused used => exact runs_pruneBy (.declarations _)

theorem Runs.trans {s'' : Stylesheet} (h : s.Runs s') (h' : s'.Runs s'') : s.Runs s'' := by
  induction h with
  | done => exact h'
  | walk modest _ ih => exact .walk modest (ih h')
  | sweep _ ih => exact .sweep (ih h')

theorem runs_passes (passes : List Pass) (s : Stylesheet) : s.Runs (passes.foldl Pass.apply s) := by
  induction passes generalizing s with
  | nil => exact .done
  | cons p passes ih => exact (runs_pass s p).trans (ih (p.apply s))

end Stylesheet

end AboveFold
