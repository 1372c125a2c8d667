import AboveFold.Proofs.Prune.Obeying
import Mathlib.Data.List.Forall2

/-!
# Walks that change kinds only

A visitor that relabels takes no node out and puts none in: all that it does is to give some nodes another
kind. Its walk keeps all nodes in their places (`Tree.Numbered.walk_places`). If it goes by the kinds of a node
and of those above it, and a kind that it gave is good for it, a second walk changes nothing
(`Tree.Numbered.walk_again`).
-/

namespace AboveFold
open Branch

/-- Two places that look alike: the nodes there and those above them are of the same kinds. -/
structure Site.Alike (s s' : Site) : Prop where
  above : s'.above.map Node.kind = s.above.map Node.kind
  kind : s'.branch.kind = s.branch.kind

/-- A visitor that does nothing but give some nodes another kind. -/
def Visitor.Relabels (v : Visitor) : Prop := ∀ s, v s = .descend ∨ v s = .skip ∨ ∃ k, v s = .become k

/-- A visitor that goes by the kinds of a node and of those above it, and keeps what has a kind that it gave. -/
structure Visitor.Settles (v : Visitor) : Prop where
  alike : ∀ s s' : Site, s.Alike s' → v s' = v s
  settled : ∀ s s' k, v s = .become k → s'.above.map Node.kind = s.above.map Node.kind → s'.branch.kind = k →
    v s' = .skip

namespace Branch

/-- What a visitor may make of the node at a place: it stays as it is, or gets the kind that the visitor says. -/
def Relabelled (v : Visitor) (l : Located) (b : Branch) : Prop :=
  b.id = l.branch.id ∧ (b.kind = l.branch.kind ∨ ∃ before after, v ⟨l.above, before, l.branch, after⟩ = .become b.kind)

/-- A branch that a visitor leaves as it is, wherever it stands below nodes of these kinds. -/
def Settled (v : Visitor) (above : List Node.Kind) (b : Branch) : Prop :=
  ∀ (nodes : List Node) (before after : List Branch) (trail : Trail),
    nodes.map Node.kind = above → (b.walk v nodes before after trail).touched = false

/-- What a visitor that relabels makes of branches: all nodes stay in their places, and if the visitor settles
them, a second walk changes nothing. -/
structure Passed.Relabels (v : Visitor) (above : List Node) (bs : List Branch) (trail : Trail) (r : Passed) : Prop where
  places : List.Forall₂ (Relabelled v) (locateAll above bs) (preorderAll r.branches)
  bereft : r.trail.bereft = trail.bereft
  settled : v.Settles → ∀ b ∈ r.branches, b.Settled v (above.map Node.kind)

variable {v : Visitor} {r rs : Passed} {n : Node} {b : Branch} {bs cs : List Branch} {above : List Node}
  {kinds : List Node.Kind} {trail : Trail}

theorem relabelled_refl (v : Visitor) (above : List Node) (bs : List Branch) :
    List.Forall₂ (Relabelled v) (locateAll above bs) (preorderAll bs) := by
  rw [← locateAll_branch above bs, List.forall₂_map_right_iff, List.forall₂_same]
  exact fun l _ => ⟨rfl, .inl rfl⟩

theorem relabelled_mk {n' : Node} {cs' : List Branch} (top : Relabelled v ⟨above, .mk n cs⟩ (.mk n' cs'))
    (below : List.Forall₂ (Relabelled v) (locateAll (n :: above) cs) (preorderAll cs')) :
    List.Forall₂ (Relabelled v) (locateAll above [.mk n cs]) (preorderAll [.mk n' cs']) := by
  rw [preorderAll_cons, preorderAll_nil, List.append_nil]
  simpa [locateAll, locate, preorder] using And.intro top below

theorem settled_of_skip (skips : ∀ s : Site, s.above.map Node.kind = kinds → s.branch = b → v s = .skip) :
    b.Settled v kinds := by
  intro nodes before after trail same
  obtain ⟨n, cs⟩ := b
  have answer := skips ⟨nodes, before, .mk n cs, after⟩ same rfl
  simp only [Branch.walk, answer]

/-- A walk over branches that are settled touches nothing. -/
theorem walkAll_of_settled (settled : ∀ b ∈ bs, b.Settled v (above.map Node.kind)) (before : List Branch)
    (trail : Trail) : (walkAll v above before bs trail).touched = false := by
  induction bs generalizing before trail with
  | nil => rfl
  | cons b bs ih =>
    rw [List.forall_mem_cons] at settled
    rw [walkAll, settled.1 above before bs trail rfl, ih settled.2]
    rfl

theorem settled_of_descend (descends : ∀ s : Site, s.above.map Node.kind = kinds → s.branch = .mk n cs → v s = .descend)
    (below : ∀ c ∈ cs, c.Settled v (n.kind :: kinds)) : (Branch.mk n cs).Settled v kinds := by
  intro nodes before after trail same
  have answer := descends ⟨nodes, before, .mk n cs, after⟩ same rfl
  simp only [Branch.walk, answer]
  refine walkAll_of_settled (fun c mem => ?_) _ _
  rw [List.map_cons, same]
  exact below c mem

/-- A walk over one branch, and then over those beside it. -/
theorem Passed.Relabels.beside (h : Passed.Relabels v above [b] trail r) (h' : Passed.Relabels v above bs r.trail rs) :
    Passed.Relabels v above (b :: bs) trail ⟨r.branches ++ rs.branches, r.touched || rs.touched, rs.trail⟩ where
  places := by
    have first := h.places
    rw [locateAll, locateAll, List.append_nil] at first
    rw [locateAll, preorderAll_append]
    exact List.rel_append first h'.places
  bereft := h'.bereft.trans h.bereft
  settled := fun settles => List.forall_mem_append.2 ⟨h.settled settles, h'.settled settles⟩

mutual

theorem relabels_walk (relabels : v.Relabels) :
    ∀ (b : Branch) (above : List Node) (before after : List Branch) (trail : Trail),
      Passed.Relabels v above [b] trail (b.walk v above before after trail)
  | .mk n cs, above, before, after, trail => by
    rcases relabels ⟨above, before, .mk n cs, after⟩ with answer | answer | ⟨k, answer⟩
    · simp only [Branch.walk, answer]
      have h := relabels_walkAll relabels cs (n :: above) [] { trail with visited := .mk n cs :: trail.visited }
      refine ⟨relabelled_mk ⟨rfl, .inl rfl⟩ h.places, h.bereft, fun settles => ?_⟩
      rw [List.forall_mem_singleton]
      refine settled_of_descend (fun s same here => ?_) (h.settled settles)
      have alike : Site.Alike ⟨above, before, .mk n cs, after⟩ s := ⟨same, by rw [here]; rfl⟩
      rw [settles.alike _ s alike, answer]
    · simp only [Branch.walk, answer]
      refine ⟨relabelled_refl v above _, rfl, fun settles => ?_⟩
      rw [List.forall_mem_singleton]
      refine settled_of_skip fun s same here => ?_
      have alike : Site.Alike ⟨above, before, .mk n cs, after⟩ s := ⟨same, congrArg kind here⟩
      rw [settles.alike _ s alike, answer]
    · simp only [Branch.walk, answer]
      have changed : Relabelled v ⟨above, .mk n cs⟩ (.mk { n with kind := k, modified := true } cs) :=
        ⟨rfl, .inr ⟨before, after, answer⟩⟩
      refine ⟨relabelled_mk changed (relabelled_refl v (n :: above) cs), rfl, fun settles => ?_⟩
      rw [List.forall_mem_singleton]
      exact settled_of_skip fun s same here => settles.settled _ s k answer same (congrArg kind here)

theorem relabels_walkAll (relabels : v.Relabels) :
    ∀ (bs : List Branch) (above : List Node) (before : List Branch) (trail : Trail),
      Passed.Relabels v above bs trail (walkAll v above before bs trail)
  | [], _, _, _ => ⟨.nil, rfl, fun _ _ mem => nomatch mem⟩
  | b :: bs, above, before, trail =>
    (relabels_walk relabels b above before bs trail).beside (relabels_walkAll relabels bs above _ _)

end

end Branch

namespace Tree

variable {t : Tree} {v : Visitor}

/-- A walk that relabels leaves nothing empty. -/
theorem Numbered.walk_of_relabels (h : t.Numbered) (relabels : v.Relabels) :
    (t.walk v).tree = t.unsettled v := by
  obtain ⟨-, e⟩ := h.walk_eq v
  have bereft : (t.passed v).trail.bereft = [] := (relabels_walk relabels t.sheet [] [] [] (.start t.size)).bereft
  rw [e, bereft]
  rfl

/-- **A walk that relabels keeps all nodes in their places.** -/
theorem Numbered.walk_places (h : t.Numbered) (relabels : v.Relabels) :
    List.Forall₂ (Relabelled v) (t.sheet.locate []) (t.walk v).tree.attached := by
  have places : List.Forall₂ (Relabelled v) (locateAll [] [t.sheet]) (preorderAll (t.passed v).branches) :=
    (relabels_walk relabels t.sheet [] [] [] (.start t.size)).places
  rw [passed_branches, ← h.walk_of_relabels relabels] at places
  simpa [locateAll, attached] using places

/-- **A second walk that relabels changes nothing** if the first one settled what it changed. -/
theorem Numbered.walk_again (h : t.Numbered) (relabels : v.Relabels) (settles : v.Settles) :
    ((t.walk v).tree.walk v).changed = 0 ∧ ((t.walk v).tree.walk v).tree = (t.walk v).tree := by
  have settled : ∀ b ∈ (t.passed v).branches, b.Settled v [] :=
    (relabels_walk relabels t.sheet [] [] [] (.start t.size)).settled settles
  rw [passed_branches, List.forall_mem_singleton, ← h.walk_of_relabels relabels] at settled
  have untouched : ((t.walk v).tree.passed v).touched = false := settled [] [] [] _ rfl
  rw [(h.walk v).numbered.walk_untouched untouched]
  exact ⟨rfl, rfl⟩

end Tree

end AboveFold
