import AboveFold.Proofs.Prune.Spacing
import Mathlib.Data.List.Forall2

/-!
# What pruning leaves, with its marks

Pruning takes rules, at-rules, declarations, selectors and comments out, and marks what holds them. `Pares` says how
branches may come out of it where comments stand between the entries of lists only: a node is marked exactly if a node
below it went (`Pares.eq_of_untouched`), and nothing below a declaration or a selector does.
-/

namespace AboveFold.Branch
open Cut

/-- What is left of the branches `bs`, and whether any node among them or below went. -/
inductive Pares : (bs : List Branch) → (touched : Bool) → (bs' : List Branch) → Prop where
  | nil : Pares [] false []
  | same {bs bs' : List Branch} {t : Bool} (b : Branch) (rest : Pares bs t bs') : Pares (b :: bs) t (b :: bs')
  | drop {b : Branch} {bs bs' : List Branch} {t : Bool} (prunable : b.kind.isPrunable = true) (rest : Pares bs t bs') :
      Pares (b :: bs) true bs'
  | mark {n : Node} {cs cs' bs bs' : List Branch} {t : Bool} (holder : n.kind.isClosed = false)
      (below : Pares cs true cs') (rest : Pares bs t bs') :
      Pares (mk n cs :: bs) true (mk { n with modified := true } cs' :: bs')

/-- Comments stand between the entries of lists only. -/
def Tidy (b : Branch) : Prop :=
  ∀ c ∈ b.preorder, c.kind.isClosed = true → ∀ d ∈ c.children, d.kind.isComment = false

instance (b : Branch) : Decidable b.Tidy :=
  inferInstanceAs (Decidable (∀ c ∈ b.preorder, c.kind.isClosed = true → ∀ d ∈ c.children, d.kind.isComment = false))

variable {b : Branch} {bs bs' cs cs' ds : List Branch} {t u : Bool} {n : Node}

theorem Pares.append (h : Pares bs t bs') (h' : Pares cs u cs') : Pares (bs ++ cs) (t || u) (bs' ++ cs') := by
  induction h with
  | nil => exact h'
  | same b _ ih => exact .same b ih
  | drop prunable _ ih => exact .drop prunable ih
  | mark holder below _ _ ih => exact .mark holder below ih

theorem Pares.trans (h : Pares bs t cs) (h' : Pares cs u ds) : Pares bs (t || u) ds := by
  induction h generalizing u ds with
  | nil => exact h'
  | same b _ ih =>
    cases h' with
    | same _ rest => exact .same b (ih rest)
    | drop prunable rest =>
      rw [Bool.or_true]
      exact .drop prunable (ih rest)
    | mark holder below rest =>
      rw [Bool.or_true]
      exact .mark holder below (ih rest)
  | drop prunable _ ih => exact .drop prunable (ih h')
  | mark holder below _ ihBelow ih =>
    cases h' with
    | same _ rest => exact .mark holder below (ih rest)
    | drop prunable rest => exact .drop prunable (ih rest)
    | mark _ below' rest => exact .mark holder (ihBelow below') (ih rest)

/-- Where nothing went, nothing is marked. -/
theorem Pares.eq_of_untouched (h : Pares bs t bs') (untouched : t = false) : bs' = bs := by
  induction h with
  | nil => rfl
  | same b _ ih => rw [ih untouched]
  | drop => cases untouched
  | mark => cases untouched

theorem Pares.whole (bs : List Branch) : Pares bs false bs := by
  induction bs with
  | nil => exact .nil
  | cons b bs ih => exact .same b ih

theorem Pares.each {f : Branch → Cut} (h : ∀ b ∈ bs, Pares [b] (f b).touched (f b).kept) :
    Pares bs (Cut.each f bs).touched (Cut.each f bs).kept := by
  induction bs with
  | nil => exact .nil
  | cons b bs ih =>
    rw [List.forall_mem_cons] at h
    rw [each_cons]
    exact h.1.append (ih h.2)

/-- Branches that all stay whole are in front of what is left of others. -/
theorem Pares.of_append (h : Pares (bs ++ cs) t ds)
    (closed : ∀ b ∈ bs, b.kind.isPrunable = false ∧ b.kind.isClosed = true) : ∃ cs', ds = bs ++ cs' ∧ Pares cs t cs' := by
  induction bs generalizing ds with
  | nil => exact ⟨ds, rfl, h⟩
  | cons b bs ih =>
    obtain ⟨⟨stays, whole⟩, closed⟩ := List.forall_mem_cons.1 closed
    cases h with
    | same _ rest =>
      obtain ⟨cs', rfl, left⟩ := ih rest closed
      exact ⟨cs', rfl, left⟩
    | drop prunable =>
      rw [stays] at prunable
      cases prunable
    | mark holder => exact absurd (whole.symm.trans holder) (by simp)

/-- What is left of a branch that stays is the branch, or marked over what is left below it. -/
theorem Pares.of_cons (h : Pares (b :: bs) t ds) (stays : b.kind.isPrunable = false) :
    (∃ bs', ds = b :: bs' ∧ Pares bs t bs') ∨ ∃ n cs cs' bs' u, b = mk n cs ∧ ds = mk { n with modified := true } cs' :: bs'
      ∧ t = true ∧ n.kind.isClosed = false ∧ Pares cs true cs' ∧ Pares bs u bs' := by
  cases h with
  | same b rest => exact .inl ⟨_, rfl, rest⟩
  | drop prunable =>
    rw [stays] at prunable
    cases prunable
  | mark holder below rest => exact .inr ⟨_, _, _, _, _, rfl, rfl, rfl, holder, below, rest⟩

/-- What is left of branches that are whole or go is some of them. -/
theorem Pares.forall₂ {α : Type} {R : α → Branch → Prop} {gs : List α} (h : Pares bs t bs')
    (closed : ∀ b ∈ bs, b.kind.isClosed = true) (each : List.Forall₂ R gs bs) :
    ∃ gs', gs'.Sublist gs ∧ List.Forall₂ R gs' bs' := by
  induction h generalizing gs with
  | nil =>
    cases each
    exact ⟨[], .slnil, .nil⟩
  | same b _ ih =>
    obtain ⟨g, gs, first, rest, rfl⟩ := List.forall₂_cons_right_iff.1 each
    obtain ⟨gs', sub, rest⟩ := ih (List.forall_mem_cons.1 closed).2 rest
    exact ⟨g :: gs', sub.cons_cons g, .cons first rest⟩
  | drop _ _ ih =>
    obtain ⟨g, gs, -, rest, rfl⟩ := List.forall₂_cons_right_iff.1 each
    obtain ⟨gs', sub, rest⟩ := ih (List.forall_mem_cons.1 closed).2 rest
    exact ⟨gs', sub.cons g, rest⟩
  | mark holder =>
    exact absurd ((List.forall_mem_cons.1 closed).1.symm.trans holder) (by simp)

/-- A node over what is left of its children. -/
theorem Pares.wrap {c : Cut} (holder : n.kind.isClosed = false) (h : Pares cs c.touched c.kept) :
    Pares [mk n cs] (c.wrap n).touched (c.wrap n).kept := by
  obtain ⟨kept, touched⟩ := c
  cases touched with
  | false =>
    obtain rfl := h.eq_of_untouched rfl
    change Pares [mk n kept] ((Cut.whole kept).wrap n).touched ((Cut.whole kept).wrap n).kept
    rw [wrap_whole]
    exact .whole _
  | true =>
    have marked : { n with modified := n.modified || true } = { n with modified := true } := by rw [Bool.or_true]
    simp only [Cut.wrap, Cut.under, marked]
    exact .mark holder h .nil

theorem Tidy.below {c : Branch} (h : Tidy (mk n cs)) (mem : c ∈ cs) : Tidy c :=
  fun _ inside => h _ (mem_preorder_of_child mem inside)

theorem Nested.isPlain_child {c : Branch} (h : (mk n cs).Nested) (closed : n.kind.isClosed = true) (mem : c ∈ cs) :
    c.kind.isPlain = true :=
  Node.Kind.isPlain_of_canHold (Node.Kind.isClosed_iff.1 closed) (nested_mk.1 h c mem).1

/-- Below a declaration, a selector or a component value there are no comments. -/
theorem Tidy.free (h : b.Tidy) (nested : b.Nested) (closed : b.kind.isClosed = true) (solid : b.kind.isComment = false) :
    ∀ c ∈ b.preorder, c.kind.isComment = false := by
  induction b using induct with
  | mk n cs ih =>
    intro c mem
    rcases mem_preorder.1 mem with rfl | mem
    · exact solid
    · obtain ⟨d, hd, inside⟩ := mem_preorderAll.1 mem
      have plain := nested.isPlain_child closed hd
      exact ih d hd (h.below hd) (nested_mk.1 nested d hd).2 (Node.Kind.isClosed_iff.2 (.inl plain))
        (h _ (self_mem_preorder _) closed d hd) c inside

theorem Tidy.uncommented (h : b.Tidy) (nested : b.Nested) (plain : b.kind.isPlain = true)
    (solid : b.kind.isComment = false) : b.uncommented = .whole [b] :=
  uncomment_eq_whole b false none none (h.free nested (Node.Kind.isClosed_iff.2 (.inl plain)) solid)

/-- What is left of a branch when what is marked goes, and comments do. -/
theorem pares_cut {μ : Mark} (regular : μ.Regular) (above : List Node.Kind) (nested : b.Nested) (tidy : b.Tidy) :
    Pares [b] (cut (.pruning μ uncommented) above b).touched (cut (.pruning μ uncommented) above b).kept := by
  induction b using induct generalizing above with
  | mk n cs ih =>
    cases plain : (mk n cs).kind.isPlain with
    | true =>
      rw [cut_plain plain]
      cases comment : (mk n cs).kind.isComment with
      | true =>
        have gone : uncommented (mk n cs) = .gone := uncomment_of_isComment comment
        rw [gone]
        exact .drop (Node.Kind.isPrunable_of_isComment comment) .nil
      | false =>
        rw [tidy.uncommented nested plain comment]
        exact .whole _
    | false =>
      cases marked : μ above (mk n cs) with
      | true =>
        rw [cut_marked plain marked]
        exact .drop (regular.prunable _ _ marked).1 .nil
      | false =>
        rw [cut_unmarked plain marked]
        cases holder : n.kind.isClosed with
        | false => exact .wrap holder (.each fun c mem => ih c mem _ (nested_mk.1 nested c mem).2 (tidy.below mem))
        | true =>
          have below : Cut.each (cut (.pruning μ uncommented) (n.kind :: above)) cs = .whole cs := by
            refine each_eq_whole fun c mem => ?_
            have plain := nested.isPlain_child holder mem
            rw [cut_plain plain]
            exact (tidy.below mem).uncommented (nested_mk.1 nested c mem).2 plain
              (tidy _ (self_mem_preorder _) holder c mem)
          rw [children_mk, kind_mk, node_mk, below, wrap_whole]
          exact .whole _

/-- What is left of a branch when what is empty goes. -/
theorem pares_clear (nested : b.Nested) : Pares [b] b.clear.touched b.clear.kept := by
  induction b using induct with
  | mk n cs ih =>
    cases emptied : (mk n cs).swept.isEmptied with
    | true =>
      rw [clear_of_isEmptied emptied]
      have prunable : (mk n cs).swept.kind.isPrunable = true := isPrunable_of_isEmptied emptied
      exact .drop prunable .nil
    | false =>
      rw [clear_of_not_isEmptied emptied]
      cases holder : n.kind.isClosed with
      | false => exact .wrap holder (.each fun c mem => ih c mem (nested_mk.1 nested c mem).2)
      | true =>
        have below : Cut.each clear cs = .whole cs := by
          refine each_eq_whole fun c mem => clear_eq_whole_of_isPlain ?_
          exact (nested_mk.1 nested c mem).2.isPlain (nested.isPlain_child holder mem)
        rw [children_mk, node_mk, below, wrap_whole]
        exact .whole _

/-- What is left of a branch whose top stays, when first what is marked goes and comments do, and then what is
empty. -/
theorem pares_swept_cutBelow {μ : Mark} (regular : μ.Regular) (above : List Node.Kind) (nested : b.Nested) (tidy : b.Tidy) :
    let b' := (cutBelow (.pruning μ uncommented) above b).swept
    ∃ t, b'.node = { b.node with modified := b.node.modified || t } ∧ Pares b.children t b'.children := by
  obtain ⟨n, cs⟩ := b
  have first : Pares cs _ _ := .each fun c mem =>
    pares_cut regular (n.kind :: above) (nested_mk.1 nested c mem).2 (tidy.below mem)
  have left := (thinned_cutBelow (thins_pruning regular airs_uncommented) above (mk n cs)).nested nested
  have later : Pares _ _ _ := .each fun c mem => pares_clear (nested_mk.1 left c mem).2
  have all := first.trans later
  refine ⟨_, ?_, all⟩
  exact congrArg (fun m => { n with modified := m }) (Bool.or_assoc ..)

end AboveFold.Branch
