import AboveFold.Proofs.Tree.Evolution
import AboveFold.Tree.Walk

/-!
# What walks keep

A walk takes branches out, puts new nodes in and marks what it changes. The nodes it was given are then
among what is left and what was taken out, together with the new ones; a branch it did not touch is left
as it was. The same holds of sweeping out empty rules.
-/

namespace AboveFold
open Branch

/-- How often `n` is among the numbers from `lo` to below `hi`. -/
def fresh (lo hi n : Nat) : Nat :=
  if lo ≤ n ∧ n < hi then 1 else 0

theorem fresh_cases (lo hi n : Nat) :
    (lo ≤ n ∧ n < hi) ∧ fresh lo hi n = 1 ∨ ¬(lo ≤ n ∧ n < hi) ∧ fresh lo hi n = 0 := by
  unfold fresh
  split
  next h => exact .inl ⟨h, rfl⟩
  next h => exact .inr ⟨h, rfl⟩

@[simp] theorem fresh_self (lo n : Nat) : fresh lo lo n = 0 := by
  have := fresh_cases lo lo n
  omega

theorem fresh_add {lo mid hi : Nat} (a : lo ≤ mid) (b : mid ≤ hi) (n : Nat) :
    fresh lo hi n = fresh lo mid n + fresh mid hi n := by
  have := fresh_cases lo hi n
  have := fresh_cases lo mid n
  have := fresh_cases mid hi n
  omega

/-- What a walk over the branches `bs` made of them, when `trail` is what it did before. -/
structure Passed.Of (trail : Trail) (bs : List Branch) (r : Passed) : Prop where
  size_le : trail.size ≤ r.trail.size
  count : ∀ n, (idsAll r.branches).count n + (idsAll r.trail.loose).count n
    = (idsAll bs).count n + (idsAll trail.loose).count n + fresh trail.size r.trail.size n
  branches : ∀ x ∈ preorderAll r.branches, x.node.modified = false → x ∈ preorderAll bs
  loose : ∀ x ∈ preorderAll r.trail.loose, x.node.modified = false → x ∈ preorderAll bs ∨ x ∈ preorderAll trail.loose
  untouched : r.touched = false → r.branches = bs

section

variable {trail : Trail} {b : Branch} {bs cs : List Branch} {r rs : Passed} {n : Node}

theorem Passed.Of.same (visited : List Branch) :
    Passed.Of trail bs ⟨bs, false, { trail with visited }⟩ where
  size_le := Nat.le_refl _
  count := by simp
  branches := fun _ mem _ => mem
  loose := fun _ mem _ => .inr mem
  untouched := fun _ => rfl

/-- It does not matter which branches the visitor was asked about. -/
theorem Passed.Of.of_visited {visited : List Branch} (h : Passed.Of { trail with visited } bs r) :
    Passed.Of trail bs r :=
  ⟨h.size_le, h.count, h.branches, h.loose, h.untouched⟩

/-- A walk over one branch, and then over those beside it. -/
theorem Passed.Of.beside (h : Passed.Of trail [b] r) (h' : Passed.Of r.trail bs rs) :
    Passed.Of trail (b :: bs) ⟨r.branches ++ rs.branches, r.touched || rs.touched, rs.trail⟩ where
  size_le := Nat.le_trans h.size_le h'.size_le
  count := by
    intro n
    have := h.count n
    have := h'.count n
    have := fresh_add h.size_le h'.size_le n
    simp only [idsAll_append, idsAll_cons, idsAll_nil, List.append_nil, List.count_append] at *
    omega
  branches := by
    intro x mem unmodified
    simp only [preorderAll_append, preorderAll_cons, List.mem_append] at mem ⊢
    exact mem.imp (fun mem => by simpa using h.branches x mem unmodified) fun mem => h'.branches x mem unmodified
  loose := by
    intro x mem unmodified
    simp only [preorderAll_cons, List.mem_append]
    rcases h'.loose x mem unmodified with mem | mem
    · exact .inl (.inr mem)
    · exact (h.loose x mem unmodified).imp_left fun mem => .inl (by simpa using mem)
  untouched := by
    intro untouched
    simp only [Bool.or_eq_false_iff] at untouched
    rw [h.untouched untouched.1, h'.untouched untouched.2]
    rfl

/-- A walk over the children of a branch marks its top if it touched any. -/
theorem Passed.Of.below (h : Passed.Of trail cs r) :
    Passed.Of trail [.mk n cs]
      ⟨[.mk { n with modified := n.modified || r.touched } r.branches], r.touched, r.trail⟩ where
  size_le := h.size_le
  count := by
    intro m
    have := h.count m
    simp only [idsAll_cons, idsAll_nil, List.append_nil, ids_mk, List.count_cons] at *
    omega
  branches := by
    intro x mem unmodified
    simp only [preorderAll_cons, preorderAll_nil, List.append_nil] at mem ⊢
    rcases mem_preorder.1 mem with rfl | mem
    · simp only [node, Bool.or_eq_false_iff] at unmodified
      rw [h.untouched unmodified.2, unmodified.2, Bool.or_false]
      exact self_mem_preorder _
    · exact mem_preorder.2 (.inr (h.branches x mem unmodified))
  loose := by
    intro x mem unmodified
    simp only [preorderAll_cons, preorderAll_nil, List.append_nil]
    exact (h.loose x mem unmodified).imp_left fun mem => mem_preorder.2 (.inr mem)
  untouched := by
    intro untouched
    simp only at untouched
    rw [h.untouched untouched, untouched, Bool.or_false]

/-- A branch that gets another kind keeps its children. -/
theorem Passed.Of.become (kind : Node.Kind) (visited : List Branch) (changed : Nat) :
    Passed.Of trail [.mk n cs]
      ⟨[.mk { n with kind, modified := true } cs], true, { trail with visited, changed }⟩ where
  size_le := Nat.le_refl _
  count := by simp
  branches := by
    intro x mem unmodified
    simp only [preorderAll_cons, preorderAll_nil, List.append_nil] at mem ⊢
    exact mem_preorder.2 (.inr (mem_of_unmarked mem rfl unmodified))
  loose := fun _ mem _ => .inr mem
  untouched := by simp

theorem Passed.Of.remove (visited : List Branch) (bereft : List Nat) :
    Passed.Of trail [b] ⟨[], true, { trail with visited, bereft, loose := b :: trail.loose }⟩ where
  size_le := Nat.le_refl _
  count := by simp [List.count_append]
  branches := by simp
  loose := by
    intro x mem _
    simpa using mem
  untouched := by simp

/-- A branch that is exchanged is taken out, and the new node is marked. -/
theorem Passed.Of.exchange (kind : Node.Kind) (visited : List Branch) (changed : Nat) :
    Passed.Of trail [b] ⟨[.mk ⟨trail.size, kind, none, true⟩ []], true,
      { trail with visited, changed, loose := b :: trail.loose, size := trail.size + 1 }⟩ where
  size_le := Nat.le_succ _
  count := by
    intro m
    have := fresh_cases trail.size (trail.size + 1) m
    simp only [idsAll_cons, idsAll_nil, List.append_nil, ids_mk, List.count_append, List.count_cons,
      List.count_nil, beq_iff_eq]
    split <;> omega
  branches := by
    intro x mem unmodified
    simp only [preorderAll_cons, preorderAll_nil, List.append_nil] at mem
    have := mem_of_unmarked mem rfl unmodified
    simp at this
  loose := by
    intro x mem _
    simpa using mem
  untouched := by simp

mutual

/-- A walk accounts for all nodes of the branch it goes over. -/
theorem Branch.walk_spec (v : Visitor) :
    ∀ (b : Branch) (above : List Node) (before after : List Branch) (trail : Trail),
      Passed.Of trail [b] (b.walk v above before after trail)
  | .mk n cs, above, before, after, trail => by
    cases verdict : v ⟨above, before, .mk n cs, after⟩ with
    | descend =>
      simp only [Branch.walk, verdict]
      have h := Branch.walkAll_spec v cs (n :: above) [] { trail with visited := .mk n cs :: trail.visited }
      exact h.below.of_visited
    | skip =>
      simp only [Branch.walk, verdict]
      exact .same _
    | become kind =>
      simp only [Branch.walk, verdict]
      exact .become kind _ _
    | remove =>
      cases above with
      | nil =>
        simp only [Branch.walk, verdict]
        exact .same _
      | cons parent up =>
        simp only [Branch.walk, verdict]
        exact .remove _ _
    | exchange kind =>
      cases above with
      | nil =>
        simp only [Branch.walk, verdict]
        exact .same _
      | cons parent up =>
        simp only [Branch.walk, verdict]
        exact .exchange kind _ _

theorem Branch.walkAll_spec (v : Visitor) :
    ∀ (bs : List Branch) (above : List Node) (before : List Branch) (trail : Trail),
      Passed.Of trail bs (Branch.walkAll v above before bs trail)
  | [], above, before, trail => .same trail.visited
  | b :: bs, above, before, trail => by
    have h := Branch.walk_spec v b above before bs trail
    exact h.beside (Branch.walkAll_spec v bs above _ _)

end

/-- The top of a tree stays in its place. -/
theorem Branch.walk_top (v : Visitor) (b : Branch) (before after : List Branch) (trail : Trail) :
    ∃ b', (b.walk v [] before after trail).branches = [b'] ∧ b'.id = b.id := by
  obtain ⟨n, cs⟩ := b
  cases verdict : v ⟨[], before, .mk n cs, after⟩ <;> simp only [Branch.walk, verdict]
  all_goals exact ⟨_, rfl, rfl⟩

end

/-- A branch with others in the place of one of its children. -/
def Branch.exchanging (id : Nat) (bs : List Branch) : Branch → Branch
  | mk n cs => mk { n with modified := true } (cs.flatMap fun c => if c.id = id then bs else [c])

namespace Tree

variable {t : Tree} {b : Branch} {bs : List Branch} {id : Nat}

theorem flatMap_split {l r : List Branch} (left : ∀ c ∈ l, c.id ≠ b.id) (right : ∀ c ∈ r, c.id ≠ b.id) :
    (l ++ b :: r).flatMap (fun c => if c.id = b.id then bs else [c]) = l ++ bs ++ r := by
  have apart {cs : List Branch} (h : ∀ c ∈ cs, c.id ≠ b.id) :
      cs.flatMap (fun c => if c.id = b.id then bs else [c]) = cs := by
    induction cs with
    | nil => rfl
    | cons c cs ih =>
      simp only [List.mem_cons, forall_eq_or_imp] at h
      rw [List.flatMap_cons, if_neg h.1, ih h.2]
      rfl
  rw [List.flatMap_append, List.flatMap_cons, apart left, apart right, if_pos rfl, List.append_assoc]

theorem Numbered.edit_exchanging (h : t.Numbered) {q : Branch} (hq : q ∈ t.branches) (child : b ∈ q.children)
    (bs : List Branch) : Grafted t b bs (t.edit q.id (exchanging b.id bs)) := by
  refine h.edit_child hq child bs (fun c => ?_) fun l r n left right => ?_
  · cases c
    rfl
  · simp only [exchanging, flatMap_split left right]

/-- What became of a branch is put back in its place, wherever that is. -/
theorem Numbered.graft (h : t.Numbered) (found : t.find? id = some b)
    (top : t.parent? id = none → ∃ b', bs = [b'] ∧ b'.id = b.id) : Grafted t b bs (t.graft id (t.parent? id) bs) := by
  cases up : t.parent? id with
  | none =>
    obtain ⟨b', rfl, same⟩ := top up
    obtain ⟨mem, rfl⟩ := mem_of_find? found
    rcases t.edit_spec b.id (fun _ => b') (fun _ _ => same) with ⟨absent, -⟩ | ⟨c, edited, size, root⟩
    · exact absurd (mem_ids.2 ⟨b, mem, rfl⟩) absent
    · obtain rfl := h.unique edited.mem mem edited.id_eq
      exact ⟨size, root, by simpa [ids, Tree.graft] using edited.count,
        by simpa [branches, Tree.graft] using edited.unmarked⟩
  | some p =>
    obtain ⟨q, hq, rfl, child⟩ := h.exists_parent up found
    obtain ⟨mem, rfl⟩ := mem_of_find? found
    exact h.edit_exchanging hq child bs

/-- A walk over one branch of a tree, before what it emptied is removed. -/
theorem Numbered.regraft (h : t.Numbered) {r : Passed} {u : Tree} (found : t.find? id = some b)
    (walked : Passed.Of (.start t.size) [b] r) (grafted : Grafted t b r.branches u) :
    t.Evolves { u with loose := r.trail.loose ++ u.loose, size := r.trail.size } where
  numbered := by
    intro n
    have before := h n
    have kept := walked.count n
    have put := grafted.count n
    have le : t.size ≤ r.trail.size := walked.size_le
    have new := fresh_cases t.size r.trail.size n
    simp only [Trail.start, count_ids, idsAll_append, idsAll_cons, idsAll_nil, List.append_nil, List.count_append,
      List.count_nil] at *
    omega
  root := grafted.root
  size_le := walked.size_le
  unmarked := by
    intro x mem unmodified
    obtain ⟨inside, -⟩ := mem_of_find? found
    have below : b.preorder ⊆ t.branches := (preorder_sublist_preorderAll t.forest b inside).subset
    have old {x : Branch} (mem : x ∈ u.branches) (unmodified : x.node.modified = false) : x ∈ t.branches := by
      rcases grafted.unmarked x mem unmodified with mem | mem
      · exact mem
      · exact below (by simpa using walked.branches x mem unmodified)
    rcases mem_branches.1 mem with mem | mem
    · exact old (mem_branches.2 (.inl mem)) unmodified
    · rw [preorderAll_append, List.mem_append] at mem
      rcases mem with mem | mem
      · exact below (by simpa [Trail.start] using walked.loose x mem unmodified)
      · exact old (mem_branches.2 (.inr mem)) unmodified

theorem Numbered.removeEmptiedAlong (h : t.Numbered) (path : List Nat) :
    t.Evolves (Tree.removeEmptiedAlong path t).2 := by
  induction path generalizing t with
  | nil => exact .refl h
  | cons id up ih =>
    unfold Tree.removeEmptiedAlong
    split
    next => exact .refl h
    next =>
      split
      next => exact .refl h
      next b found =>
        split
        next => exact ih h
        next => exact ih h
        next => exact ih h
        next =>
          have cut := (h.detach id).1
          split
          next =>
            split
            next u e =>
              rw [e] at cut
              exact cut.trans (ih cut.numbered)
            next u e =>
              rw [e] at cut
              exact cut
          next => exact .refl h

theorem Numbered.removeEmptiedFrom (h : t.Numbered) (id : Nat) : t.Evolves (t.removeEmptiedFrom id).2 :=
  h.removeEmptiedAlong _

theorem Numbered.remove (h : t.Numbered) (id : Nat) : t.Evolves (t.remove id).2 := by
  unfold Tree.remove
  split
  next => exact .refl h
  next p up =>
    have cut := (h.detach id).1
    exact cut.trans (cut.numbered.removeEmptiedFrom p.id)

/-- Removing what several nodes left empty, one after the other. -/
theorem Numbered.foldl_removeEmptiedFrom (h : t.Numbered) (bereft : List Nat) (n : Nat) :
    t.Evolves (bereft.foldl (fun (n, t) parent =>
      let (m, t) := t.removeEmptiedFrom parent
      (n + m, t)) (n, t)).2 := by
  induction bereft generalizing t n with
  | nil => exact .refl h
  | cons id ids ih =>
    have removed := h.removeEmptiedFrom id
    exact removed.trans (ih removed.numbered _)

theorem Numbered.walkFrom (h : t.Numbered) (id : Nat) (v : Visitor) : t.Evolves (t.walkFrom id v).tree := by
  unfold Tree.walkFrom
  split
  next => exact .refl h
  next b found =>
    simp only
    generalize (List.takeWhile _ _).reverse = before
    generalize (List.dropWhile _ _).tail = after
    have walked := b.walk_spec v (t.ancestors id) before after (.start t.size)
    have top (up : t.parent? id = none) :
        ∃ b', (b.walk v (t.ancestors id) before after (.start t.size)).branches = [b'] ∧ b'.id = b.id := by
      rw [List.head?_eq_none_iff.1 up]
      exact b.walk_top v before after _
    generalize b.walk v (t.ancestors id) before after (.start t.size) = r at *
    have grafted : Grafted t b r.branches (if r.touched then t.graft id (t.parent? id) r.branches else t) := by
      split
      next => exact h.graft found top
      next untouched =>
        rw [walked.untouched (by simpa using untouched)]
        exact ⟨rfl, rfl, by simp, fun x mem _ => .inl mem⟩
    have walkedTree := h.regraft found walked grafted
    exact walkedTree.trans (walkedTree.numbered.foldl_removeEmptiedFrom r.trail.bereft.reverse 0)

theorem Numbered.walk (h : t.Numbered) (v : Visitor) : t.Evolves (t.walk v).tree :=
  h.walkFrom _ v

/-! ## Sweeping -/

end Tree

/-- What sweeping made of the branches `bs`. -/
structure Swept.Of (bs : List Branch) (r : Swept) : Prop where
  count : ∀ n, (idsAll r.kept).count n + (idsAll r.gone).count n = (idsAll bs).count n
  unmarked : ∀ x ∈ preorderAll (r.kept ++ r.gone), x.node.modified = false → x ∈ preorderAll bs
  nothing : r.gone = [] → r.kept = bs

section

variable {n : Node} {b : Branch} {bs cs : List Branch} {r rs : Swept}

theorem Swept.Of.beside (h : Swept.Of [b] r) (h' : Swept.Of bs rs) :
    Swept.Of (b :: bs) ⟨r.kept ++ rs.kept, r.gone ++ rs.gone⟩ where
  count := by
    intro n
    have := h.count n
    have := h'.count n
    simp only [idsAll_append, idsAll_cons, idsAll_nil, List.append_nil, List.count_append] at *
    omega
  unmarked := by
    intro x mem unmodified
    have first := h.unmarked x
    have later := h'.unmarked x
    simp only [preorderAll_append, preorderAll_cons, preorderAll_nil, List.append_nil, List.mem_append]
      at mem first later ⊢
    rcases mem with (mem | mem) | (mem | mem)
    · exact .inl (first (.inl mem) unmodified)
    · exact .inr (later (.inl mem) unmodified)
    · exact .inl (first (.inr mem) unmodified)
    · exact .inr (later (.inr mem) unmodified)
  nothing := by
    intro nothing
    obtain ⟨none, none'⟩ := List.append_eq_nil_iff.1 nothing
    rw [h.nothing none, h'.nothing none']
    rfl

/-- The children of a branch are swept, and its top is marked if any went. -/
theorem Swept.Of.below (h : Swept.Of cs r) :
    Swept.Of [.mk n cs] ⟨[.mk { n with modified := n.modified || !r.gone.isEmpty } r.kept], r.gone⟩ where
  count := by
    intro m
    have := h.count m
    simp only [idsAll_cons, idsAll_nil, List.append_nil, ids_mk, List.count_cons] at *
    omega
  unmarked := by
    intro x mem unmodified
    have below := h.unmarked x
    simp only [preorderAll_append, preorderAll_cons, preorderAll_nil, List.append_nil, List.mem_append] at mem below ⊢
    rcases mem with mem | mem
    · rcases mem_preorder.1 mem with rfl | mem
      · simp only [node, Bool.or_eq_false_iff, Bool.not_eq_false', List.isEmpty_iff] at unmodified
        rw [unmodified.2, h.nothing unmodified.2]
        simp [self_mem_preorder]
      · exact mem_preorder.2 (.inr (below (.inl mem) unmodified))
    · exact mem_preorder.2 (.inr (below (.inr mem) unmodified))
  nothing := by
    intro nothing
    simp only at nothing
    simp [nothing, h.nothing nothing]

/-- A branch that is emptied goes with what already went. -/
theorem Swept.Of.drop {gone : List Branch} (h : Swept.Of [b] ⟨[.mk n cs], gone⟩) :
    Swept.Of [b] ⟨[], .mk n cs :: gone⟩ where
  count := by
    intro m
    have := h.count m
    simp only [idsAll_cons, idsAll_nil, List.append_nil, List.count_append, List.count_nil] at *
    omega
  unmarked := by
    intro x mem
    exact h.unmarked x (by simpa using mem)
  nothing := by simp

mutual

theorem Branch.sweep_spec : ∀ b : Branch, Swept.Of [b] b.sweep
  | .mk n cs => by
    have h := (Branch.sweepAll_spec cs).below (n := n)
    unfold Branch.sweep
    simp only
    split
    · exact h.drop
    · exact h

/-- Sweeping accounts for all nodes of the branches it goes over. -/
theorem Branch.sweepAll_spec : ∀ bs : List Branch, Swept.Of bs (Branch.sweepAll bs)
  | [] => ⟨by simp [Branch.sweepAll], by simp [Branch.sweepAll], fun _ => rfl⟩
  | b :: bs => (Branch.sweep_spec b).beside (Branch.sweepAll_spec bs)

end

end

namespace Tree

theorem Numbered.removeEmptied {t : Tree} (h : t.Numbered) : t.Evolves t.removeEmptied.2 := by
  obtain ⟨⟨n, cs⟩, loose, size⟩ := t
  have swept := (Branch.sweepAll_spec cs).below (n := n)
  refine ⟨fun m => ?_, rfl, Nat.le_refl _, fun x mem unmodified => ?_⟩
  · have before := h m
    have kept := swept.count m
    simp only [Tree.removeEmptied, count_ids, idsAll_append, idsAll_cons, idsAll_nil, List.append_nil,
      List.count_append] at *
    omega
  · have was := swept.unmarked x
    simp only [Tree.removeEmptied, mem_branches, preorderAll_append, preorderAll_cons, preorderAll_nil,
      List.append_nil, List.mem_append] at mem was ⊢
    rcases mem with mem | mem | mem
    · exact .inl (was (.inl mem) unmodified)
    · exact .inl (was (.inr mem) unmodified)
    · exact .inr mem

end Tree

end AboveFold
