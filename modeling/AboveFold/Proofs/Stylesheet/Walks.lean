import AboveFold.Proofs.Stylesheet.Fidelity
import AboveFold.Proofs.Stylesheet.Runs
import AboveFold.Proofs.Tree.FixedWalk

/-!
# Walks after passes

A pass never makes the root of a stylesheet anything else. So whatever passes were run, a walk that decides
by the numbers of nodes ends as a sweep, if none of the rules was empty when it began.
-/

namespace AboveFold
open Branch

theorem Branch.walk_top_kind {v : Visitor} {b b' : Branch} {trail : Trail}
    (stays : ∀ kind, v ⟨[], [], b, []⟩ ≠ .become kind) (walked : (b.walk v [] [] [] trail).branches = [b']) :
    b'.kind = b.kind := by
  obtain ⟨n, cs⟩ := b
  cases verdict : v ⟨[], [], .mk n cs, []⟩ with
  | become kind => exact absurd verdict (stays kind)
  | _ =>
    simp only [Branch.walk, verdict, List.cons.injEq, and_true] at walked
    exact (congrArg Branch.kind walked).symm

theorem Tree.Numbered.walk_kind {t : Tree} (h : t.Numbered) {v : Visitor}
    (stays : ∀ kind, v ⟨[], [], t.sheet, []⟩ ≠ .become kind) : (t.walk v).tree.sheet.kind = t.sheet.kind :=
  (h.walk_settles v).thinned.kind.trans (walk_top_kind stays (t.passed_branches v))

namespace Stylesheet

variable {s s' : Stylesheet}

/-- A stylesheet whose tree is in order and starts at a style sheet. -/
structure Rooted (s : Stylesheet) : Prop where
  numbered : s.tree.Numbered
  root : s.tree.sheet.kind = .styleSheet

theorem rooted_parse (source : String) (path : Option String) : (parse source path).Rooted :=
  ⟨Tree.numbered_ofOutcome _, rfl⟩

theorem Rooted.walk (h : s.Rooted) {v : Visitor} (stays : v ⟨[], [], s.tree.sheet, []⟩ = .descend) :
    Rooted { s with tree := (s.tree.walk v).tree } :=
  ⟨(h.numbered.walk v).numbered, (h.numbered.walk_kind fun kind => by simp [stays]).trans h.root⟩

theorem Rooted.pruneBy (h : s.Rooted) {v : Visitor} (modest : v.Modest) : (s.pruneBy v).2.Rooted :=
  ⟨(h.numbered.walk v).numbered, h.numbered.walk_root modest h.root⟩

theorem Rooted.removeEmptied (h : s.Rooted) : s.pruneEmptied.2.Rooted := by
  refine ⟨h.numbered.removeEmptied.numbered, ?_⟩
  have sheet : s.pruneEmptied.2.tree.sheet = s.tree.sheet.swept := s.tree.removeEmptied_sheet
  rw [sheet]
  exact h.root

/-- No pass makes the root anything else. -/
theorem Runs.rooted (runs : s.Runs s') (h : s.Rooted) : s'.Rooted := by
  induction runs with
  | done => exact h
  | walk modest _ ih => exact ih (h.pruneBy modest)
  | sweep _ ih => exact ih h.removeEmptied

/-- A stylesheet after any passes. -/
theorem rooted_passes (source : String) (path : Option String) (passes : List Pass) :
    (passes.foldl Pass.apply (parse source path)).Rooted :=
  (runs_passes passes _).rooted (rooted_parse source path)

/-- **A deferred cascade is a sweep**: over a stylesheet that was read and had any passes run, in which no
rule and no at-rule is empty, a walk that decides by the number of a node alone does what detaching the
nodes that it removes and then removing all that is empty does, and counts the same. -/
theorem deferred_cascade_is_sweep (source : String) (path : Option String) (passes : List Pass) (act : Nat → Action)
    (full : ∀ b ∈ (passes.foldl Pass.apply (parse source path)).tree.attached, b.isEmptied = false) :
    (passes.foldl Pass.apply (parse source path)).tree.CascadesAsSweep act :=
  have rooted := rooted_passes source path passes
  rooted.numbered.cascadesAsSweep act rooted.root full

/-- In `@media screen{a{b:c}}` with a comment taken out before, the loss of the one selector takes the rule
and the at-rule with it. -/
theorem deferred_cascade_is_sweep_nested :
    let t := ([Pass.comments].foldl Pass.apply (parse "@media screen{a{b:c}/**/}" none)).tree
    let act : Nat → Action := fun id => if id = 8 then .remove else .descend
    (∀ b ∈ t.attached, b.isEmptied = false) ∧ t.CascadesAsSweep act
      ∧ (t.walk (.fixed act)).removed = 1 ∧ (t.walk (.fixed act)).emptied = 2 := by
  have full : ∀ b ∈ ([Pass.comments].foldl Pass.apply (parse "@media screen{a{b:c}/**/}" none)).tree.attached,
      b.isEmptied = false := by decide +kernel
  exact ⟨full, deferred_cascade_is_sweep _ none [.comments] _ full, by decide +kernel, by decide +kernel⟩

end Stylesheet

end AboveFold
