import AboveFold.Proofs.Tree.Thinning

/-!
# Culled branches

Taking out rules, at-rules, declarations and selectors leaves the others of them where they are, and what a declaration
or a selector that stays holds is left as it was, down to the marks. `Culls p` says that one list of branches comes about
like this from another, where only nodes of the kinds `p` went. More is left of a branch that was culled than of one that
was thinned: whatever a component value, a declaration or a selector says, it goes on saying (`Culls.find?`,
`Culls.mem_of_isClosed`).
-/

namespace AboveFold.Node.Kind

/-- The kinds of node that can be empty. -/
def canBeEmpty (k : Kind) : Bool := k.isRule || k.isAtRule

/-- The kinds of node that pruning takes out, but for comments. -/
def isSolidPrunable (k : Kind) : Bool := k.isPrunable && !k.isPlain

variable {k : Kind}

theorem isSolidPrunable_of_canBeEmpty (h : k.canBeEmpty = true) : k.isSolidPrunable = true := by
  cases k <;> first | rfl | cases h

theorem isClosed_of_canBeEmpty (h : k.canBeEmpty = true) : k.isClosed = false := by
  cases k <;> first | rfl | cases h

theorem isSolidPrunable_iff : k.isSolidPrunable = true ↔ k.isPrunable = true ∧ k.isPlain = false := by
  rw [isSolidPrunable, Bool.and_eq_true_iff, Bool.not_eq_true']

theorem isPrunable_of_isSolidPrunable (h : k.isSolidPrunable = true) : k.isPrunable = true :=
  (isSolidPrunable_iff.1 h).1

end AboveFold.Node.Kind

namespace AboveFold.Branch
open Cut

/-- The branches `bs` may become `bs'` by the loss of nodes of the kinds `p`. -/
inductive Culls (p : Node.Kind → Bool) : (bs bs' : List Branch) → Prop
  | nil : Culls p [] []
  | same (b : Branch) {bs bs' : List Branch} (rest : Culls p bs bs') : Culls p (b :: bs) (b :: bs')
  /-- A node stays, perhaps with another mark, and loses some of what is below it. -/
  | keep {n n' : Node} {cs cs' bs bs' : List Branch} (id : n'.id = n.id) (kind : n'.kind = n.kind)
      (opens : n.kind.isClosed = false) (below : Culls p cs cs') (rest : Culls p bs bs') :
      Culls p (mk n cs :: bs) (mk n' cs' :: bs')
  | drop {b : Branch} {bs bs' : List Branch} (goes : p b.kind = true) (rest : Culls p bs bs') : Culls p (b :: bs) bs'

/-- A branch may become another by the loss of nodes of the kinds `p` below its top. -/
inductive Culled (p : Node.Kind → Bool) : (b b' : Branch) → Prop
  | refl (b : Branch) : Culled p b b
  | below {n n' : Node} {cs cs' : List Branch} (id : n'.id = n.id) (kind : n'.kind = n.kind)
      (opens : n.kind.isClosed = false) (below : Culls p cs cs') : Culled p (mk n cs) (mk n' cs')

variable {p q : Node.Kind → Bool} {b b' c d : Branch} {bs bs' cs cs' : List Branch} {k : Node.Kind}

theorem Culled.single (h : b.Culled p b') : Culls p [b] [b'] := by
  cases h with
  | refl => exact .same b .nil
  | below id kind opens below => exact .keep id kind opens below .nil

theorem Culls.refl (p : Node.Kind → Bool) (bs : List Branch) : Culls p bs bs := by
  induction bs with
  | nil => exact .nil
  | cons b bs ih => exact .same b ih

theorem Culls.append (h : Culls p bs bs') (h' : Culls p cs cs') : Culls p (bs ++ cs) (bs' ++ cs') := by
  induction h with
  | nil => exact h'
  | same b _ ih => exact .same b ih
  | keep id kind opens below _ _ ih => exact .keep id kind opens below ih
  | drop goes _ ih => exact .drop goes ih

theorem Culls.each {f : Branch → Cut} (h : ∀ b ∈ bs, Culls p [b] (f b).kept) : Culls p bs (each f bs).kept := by
  induction bs with
  | nil => exact .nil
  | cons b bs ih =>
    simp only [List.mem_cons, forall_eq_or_imp] at h
    rw [each_cons]
    exact h.1.append (ih h.2)

theorem Culls.mono (le : ∀ k, p k = true → q k = true) (h : Culls p bs bs') : Culls q bs bs' := by
  induction h with
  | nil => exact .nil
  | same b _ ih => exact .same b ih
  | keep id kind opens _ _ ih ih' => exact .keep id kind opens ih ih'
  | drop goes _ ih => exact .drop (le _ goes) ih

theorem Culled.mono (le : ∀ k, p k = true → q k = true) (h : b.Culled p b') : b.Culled q b' := by
  cases h with
  | refl => exact .refl b
  | below id kind opens below => exact .below id kind opens (below.mono le)

theorem Culls.trans (h : Culls p bs cs) (h' : Culls p cs cs') : Culls p bs cs' := by
  induction h generalizing cs' with
  | nil => exact h'
  | same b rest ih =>
    cases h' with
    | same _ rest' => exact .same b (ih rest')
    | keep id kind opens below rest' => exact .keep id kind opens below (ih rest')
    | drop goes rest' => exact .drop goes (ih rest')
  | @keep n n' cs _ bs _ id kind opens below rest ih ih' =>
    cases h' with
    | same _ rest' => exact .keep id kind opens below (ih' rest')
    | keep id' kind' _ below' rest' => exact .keep (id'.trans id) (kind'.trans kind) opens (ih below') (ih' rest')
    | drop goes rest' =>
      rw [kind_mk, kind] at goes
      exact .drop goes (ih' rest')
  | drop goes _ ih => exact .drop goes (ih h')

theorem Culled.trans (h : b.Culled p b') (h' : b'.Culled p c) : b.Culled p c := by
  cases h with
  | refl => exact h'
  | below id kind opens below =>
    cases h' with
    | refl => exact .below id kind opens below
    | below id' kind' _ below' => exact .below (id'.trans id) (kind'.trans kind) opens (below.trans below')

/-! ## What is left of a culled branch -/

theorem Culled.kind (h : b.Culled p b') : b'.kind = b.kind := by
  cases h with
  | refl => rfl
  | below id kind => exact kind

theorem Culled.children (h : b.Culled p b') : Culls p b.children b'.children := by
  cases h with
  | refl => exact .refl p _
  | below id kind opens below => exact below

/-- Component values, declarations and selectors are left as they are. -/
theorem Culled.eq_of_isClosed (h : b.Culled p b') (closed : b.kind.isClosed = true) : b' = b := by
  cases h with
  | refl => rfl
  | below id kind opens =>
    rw [kind_mk, opens] at closed
    cases closed

theorem Culls.thins (prunable : ∀ k, p k = true → k.isPrunable = true) (h : Culls p bs bs') (k : Node.Kind) :
    Thins k bs bs' := by
  induction h generalizing k with
  | nil => exact .nil
  | same b _ ih => exact ((Thinned.refl b).single k).append (ih k)
  | keep id kind _ _ _ ih ih' => exact .keep id kind (ih _) (ih' k)
  | drop goes _ ih => exact .drop (prunable _ goes) (ih k)

theorem Culled.thinned (prunable : ∀ k, p k = true → k.isPrunable = true) (h : b.Culled p b') : b.Thinned b' := by
  cases h with
  | refl => exact .refl b
  | below id kind _ below => exact ⟨id, kind, below.thins prunable _⟩

/-- Component values, declarations and selectors that are left were there before. -/
theorem Culls.mem_of_isClosed (h : Culls p bs bs') (mem : d ∈ preorderAll bs') (closed : d.kind.isClosed = true) :
    d ∈ preorderAll bs := by
  induction h with
  | nil => exact mem
  | same b _ ih =>
    simp only [preorderAll_cons, List.mem_append] at mem ⊢
    exact mem.imp_right ih
  | keep id kind opens below _ ih ih' =>
    simp only [preorderAll_cons, preorder, List.mem_append, List.mem_cons] at mem ⊢
    rcases mem with (rfl | mem) | mem
    · rw [kind_mk, kind, opens] at closed
      cases closed
    · exact .inl (.inr (ih mem))
    · exact .inr (ih' mem)
  | drop _ _ ih =>
    rw [preorderAll_cons]
    exact List.mem_append_right _ (ih mem)

theorem Culled.mem_of_isClosed (h : b.Culled p b') (mem : d ∈ b'.preorder) (closed : d.kind.isClosed = true) :
    d ∈ b.preorder := by
  have inside := h.single.mem_of_isClosed (d := d) (by simpa using mem) closed
  simpa using inside

/-- The first child of a kind that does not go is found again. -/
theorem Culls.find? (stays : ∀ k, q k = true → p k = false) (h : Culls p bs bs') :
    bs.find? (q ·.kind) = none ∧ bs'.find? (q ·.kind) = none
      ∨ ∃ c c', bs.find? (q ·.kind) = some c ∧ bs'.find? (q ·.kind) = some c' ∧ c.Culled p c' := by
  induction h with
  | nil => exact .inl ⟨rfl, rfl⟩
  | same b _ ih =>
    cases e : q b.kind with
    | true => exact .inr ⟨b, b, List.find?_cons_of_pos e, List.find?_cons_of_pos e, .refl b⟩
    | false =>
      rw [List.find?_cons_of_neg (by simp [e]), List.find?_cons_of_neg (by simp [e])]
      exact ih
  | @keep n n' cs cs' bs bs' id kind opens below _ _ ih =>
    cases e : q n.kind with
    | true =>
      refine .inr ⟨mk n cs, mk n' cs', List.find?_cons_of_pos e, ?_, .below id kind opens below⟩
      exact List.find?_cons_of_pos (by rw [kind_mk, kind, e])
    | false =>
      rw [List.find?_cons_of_neg (by simp [e]), List.find?_cons_of_neg (by simp [kind, e])]
      exact ih
  | @drop b bs bs' goes _ ih =>
    have other : q b.kind = false := by
      refine Bool.eq_false_iff.2 fun here => ?_
      rw [stays _ here] at goes
      cases goes
    rw [List.find?_cons_of_neg (by simp [other])]
    exact ih

/-- A component value, a declaration or a selector is found again as it is. -/
theorem Culls.find?_eq (stays : ∀ k, q k = true → p k = false ∧ k.isClosed = true) (h : Culls p bs bs') :
    bs'.find? (q ·.kind) = bs.find? (q ·.kind) := by
  rcases h.find? fun k here => (stays k here).1 with ⟨none, none'⟩ | ⟨c, c', found, found', culled⟩
  · rw [none, none']
  · have here : q c.kind = true := List.find?_some (p := fun c : Branch => q c.kind) found
    rw [found, found', culled.eq_of_isClosed (stays _ here).2]

end AboveFold.Branch
