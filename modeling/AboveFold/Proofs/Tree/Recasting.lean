import AboveFold.Proofs.Tree.Cascade

/-!
# What passes leave of the grammar

Every node of a stylesheet that was read holds children of the right kinds. Passes take nodes out, put a
space in the place of a comment and give urls and strings another text. `Recasts` says that branches come
about like this from others, and all that it does keeps children of the right kinds (`Recasts.formed`).
A visitor that answers with nothing else is modest, and its walk recasts what it goes over.
-/

namespace AboveFold.Node.Kind

/-- The same kind, but for the text of a url or of a string. -/
inductive Reworded : Kind → Kind → Prop where
  | same (k : Kind) : Reworded k k
  | url (text text' : String) (quote quote' : Option Char) : Reworded (url text quote) (url text' quote')
  | stringLit (value value' : String) (quote quote' : Char) :
      Reworded (stringLit value quote) (stringLit value' quote')

/-- The kinds that make up the frame of rules and declarations. No pass takes them out or changes them. -/
def isFrame : Kind → Bool
  | selectorList | block _ | prelude | value => true
  | _ => false

variable {k k' : Kind}

theorem Reworded.composes (h : Reworded k k') {cs : List Kind} (composes : k.Composes cs) : k'.Composes cs := by
  cases h <;> exact composes

/-- Only component values are reworded. -/
theorem Reworded.eq (h : Reworded k k') (other : k.isComponent = false ∨ k'.isComponent = false) : k' = k := by
  cases h with
  | same => rfl
  | url | stringLit => rcases other with h | h <;> cases h

theorem isComponent_of_isFrame (h : k.isFrame = true) : k.isComponent = false := by
  cases k <;> first | rfl | cases h

theorem isPrunable_of_isFrame (h : k.isFrame = true) : k.isPrunable = false := by
  cases k <;> first | rfl | cases h

/-- A class of kinds that passes do not leave below a node of kind `k`. -/
structure ClosedBelow (k : Kind) (P : Kind → Prop) : Prop where
  reworded : ∀ c c', Reworded c c' → P c → P c'
  space : Prune.holdsComponents k = true → ∀ c, c.isComment = true → P c → P whitespace

/-- Where no component values stand, a class is closed if no text of a url or string matters for it. -/
theorem closedBelow_of_not_holdsComponents {f : Kind → Bool} (blind : ∀ c c', Reworded c c' → f c' = f c)
    (h : Prune.holdsComponents k = false) : ClosedBelow k (f · = true) where
  reworded := fun c c' r hc => (blind c c' r).trans hc
  space := fun holds => by simp [h] at holds

theorem closedBelow_isComponent (k : Kind) : ClosedBelow k (·.isComponent = true) where
  reworded := by rintro _ _ ⟨⟩ h <;> exact h
  space := fun _ _ _ _ => rfl

theorem closedBelow_isMediaQuery (k : Kind) (is : Bool) : ClosedBelow k (·.isMediaQuery = is) where
  reworded := by rintro _ _ ⟨⟩ h <;> exact h
  space := by
    rintro - c comment h
    cases c <;> first | exact h | cases comment

theorem closedBelow_notComma (k : Kind) : ClosedBelow k (· ≠ comma) where
  reworded := by rintro _ _ ⟨⟩ h <;> simp_all
  space := fun _ _ _ _ => by simp

theorem ClosedBelow.and {P Q : Kind → Prop} (h : ClosedBelow k P) (h' : ClosedBelow k Q) :
    ClosedBelow k fun c => P c ∧ Q c :=
  ⟨fun c c' r hc => ⟨h.reworded c c' r hc.1, h'.reworded c c' r hc.2⟩,
    fun holds c comment hc => ⟨h.space holds c comment hc.1, h'.space holds c comment hc.2⟩⟩

theorem ClosedBelow.or {P Q : Kind → Prop} (h : ClosedBelow k P) (h' : ClosedBelow k Q) :
    ClosedBelow k fun c => P c ∨ Q c :=
  ⟨fun c c' r hc => hc.imp (h.reworded c c' r) (h'.reworded c c' r),
    fun holds c comment hc => hc.imp (h.space holds c comment) (h'.space holds c comment)⟩

end AboveFold.Node.Kind

namespace AboveFold.Branch
open Node.Kind

/-- The kinds of the children of a node, each with the kinds of its own children. -/
def outline (b : Branch) : List (Node.Kind × List Node.Kind) :=
  b.children.map fun c => (c.kind, c.children.map kind)

/-- A node whose children are of the right kinds. -/
def Formed (b : Branch) : Prop := b.kind.Forms b.outline

/-- Below a node of kind `k` the branches `bs` may become `bs'` by passes. -/
inductive Recasts : (k : Node.Kind) → (bs bs' : List Branch) → Prop
  | nil {k : Node.Kind} : Recasts k [] []
  /-- A node stays, perhaps with another text, and some of what is below it is recast. -/
  | keep {k : Node.Kind} {n n' : Node} {cs cs' bs bs' : List Branch} (kind : n.kind.Reworded n'.kind)
      (below : Recasts n.kind cs cs') (rest : Recasts k bs bs') : Recasts k (mk n cs :: bs) (mk n' cs' :: bs')
  | drop {k : Node.Kind} {b : Branch} {bs bs' : List Branch} (prunable : b.kind.isPrunable = true)
      (rest : Recasts k bs bs') : Recasts k (b :: bs) bs'
  /-- A space comes in the place of a comment. -/
  | space {k : Node.Kind} {b : Branch} {n : Node} {bs bs' : List Branch} (comment : b.kind.isComment = true)
      (holder : Prune.holdsComponents k = true) (blank : n.kind = .whitespace) (rest : Recasts k bs bs') :
      Recasts k (b :: bs) (mk n [] :: bs')

variable {b b' : Branch} {bs bs' cs cs' : List Branch} {k : Node.Kind}

/-- Branches that are pruned are recast. -/
theorem Thins.recasts (h : Thins k bs bs') : Recasts k bs bs' := by
  induction h with
  | nil => exact .nil
  | keep _ kind _ _ below rest => exact .keep (kind ▸ .same _) below rest
  | drop prunable _ rest => exact .drop prunable rest
  | space comment holder blank _ rest => exact .space comment holder blank rest

theorem Recasts.refl (k : Node.Kind) (bs : List Branch) : Recasts k bs bs :=
  (Thins.refl k bs).recasts

theorem Recasts.append (h : Recasts k bs bs') (h' : Recasts k cs cs') : Recasts k (bs ++ cs) (bs' ++ cs') := by
  induction h with
  | nil => exact h'
  | keep kind below _ _ ih => exact .keep kind below (ih h')
  | drop prunable _ ih => exact .drop prunable (ih h')
  | space comment holder blank _ ih => exact .space comment holder blank (ih h')

/-! ## Children keep to the grammar -/

/-- Children that are of a closed class stay in it. -/
theorem Recasts.closed {P : Node.Kind → Prop} (h : Recasts k bs bs') (closed : ClosedBelow k P)
    (all : ∀ c ∈ bs.map kind, P c) : ∀ c ∈ bs'.map kind, P c := by
  induction h with
  | nil => exact all
  | keep kind _ _ _ ih =>
    simp only [List.map_cons, List.mem_cons, forall_eq_or_imp, kind_mk] at all ⊢
    exact ⟨closed.reworded _ _ kind all.1, ih closed all.2⟩
  | drop _ _ ih =>
    simp only [List.map_cons, List.mem_cons, forall_eq_or_imp] at all
    exact ih closed all.2
  | space comment holder blank _ ih =>
    simp only [List.map_cons, List.mem_cons, forall_eq_or_imp, kind_mk, blank] at all ⊢
    exact ⟨closed.space holder _ comment all.1, ih closed all.2⟩

/-- Children that make up a frame all stay. -/
theorem Recasts.map_kind (h : Recasts k bs bs') (frame : ∀ c ∈ bs.map kind, c.isFrame = true) :
    bs'.map kind = bs.map kind := by
  induction h with
  | nil => rfl
  | keep kind _ _ _ ih =>
    simp only [List.map_cons, List.mem_cons, forall_eq_or_imp, kind_mk] at frame ⊢
    rw [kind.eq (.inl (isComponent_of_isFrame frame.1)), ih frame.2]
  | drop prunable _ _ =>
    simp only [List.map_cons, List.mem_cons, forall_eq_or_imp] at frame
    rw [isPrunable_of_isFrame frame.1] at prunable
    cases prunable
  | space comment _ _ _ _ =>
    simp only [List.map_cons, List.mem_cons, forall_eq_or_imp] at frame
    have prunable := isPrunable_of_isComment comment
    rw [isPrunable_of_isFrame frame.1] at prunable
    cases prunable

/-- What is no space was there before, with what it holds. -/
theorem Recasts.exists_of_mem (h : Recasts k bs bs') (mem : b' ∈ bs') (solid : b'.kind ≠ .whitespace) :
    ∃ b ∈ bs, b.kind.Reworded b'.kind ∧ Recasts b.kind b.children b'.children := by
  induction h with
  | nil => cases mem
  | @keep k n n' cs cs' bs bs' kind below _ _ ih =>
    rcases List.mem_cons.1 mem with rfl | mem
    · exact ⟨mk n cs, List.mem_cons_self .., kind, below⟩
    · obtain ⟨b, hb, found⟩ := ih mem
      exact ⟨b, List.mem_cons_of_mem _ hb, found⟩
  | drop _ _ ih =>
    obtain ⟨b, hb, found⟩ := ih mem
    exact ⟨b, List.mem_cons_of_mem _ hb, found⟩
  | space _ _ blank _ ih =>
    rcases List.mem_cons.1 mem with rfl | mem
    · exact absurd blank solid
    · obtain ⟨b, hb, found⟩ := ih mem
      exact ⟨b, List.mem_cons_of_mem _ hb, found⟩

/-- A single branch that is still there is of its kind still, unless it was a component value. -/
theorem Recasts.kind_eq (h : Recasts k [b] [b']) (other : b.kind.isComponent = false)
    (solid : b.kind.isComment = false) : b'.kind = b.kind := by
  cases h with
  | keep kind => exact kind.eq (.inl other)
  | drop _ rest => cases rest
  | space comment =>
    rw [solid] at comment
    cases comment

/-- The children of a node are of the right kinds still. -/
theorem Recasts.composes (h : Recasts k cs cs') (composes : k.Composes (cs.map kind)) :
    k.Composes (cs'.map kind) := by
  have component := closedBelow_isComponent k
  have entry : Prune.holdsComponents k = false → ClosedBelow k (·.isEntry = true) :=
    closedBelow_of_not_holdsComponents <| by rintro _ _ ⟨⟩ <;> rfl
  have declaration : Prune.holdsComponents k = false → ClosedBelow k (·.isDeclaration = true) :=
    closedBelow_of_not_holdsComponents <| by rintro _ _ ⟨⟩ <;> rfl
  have selector : Prune.holdsComponents k = false → ClosedBelow k (·.isSelector = true) :=
    closedBelow_of_not_holdsComponents <| by rintro _ _ ⟨⟩ <;> rfl
  have frame (all : ∀ c ∈ cs.map kind, c.isFrame = true) : k.Composes (cs'.map kind) := by
    rwa [h.map_kind all]
  cases k with
  | styleSheet => exact h.closed (entry rfl) composes
  | selectorList => exact h.closed (selector rfl) composes
  | block contents =>
    cases contents with
    | rules => exact h.closed (entry rfl) composes
    | declarations => exact h.closed ((entry rfl).or (declaration rfl)) composes
  | prelude => exact h.closed (component.or (closedBelow_isMediaQuery _ true)) composes
  | selector _ | mediaQuery _ => exact h.closed (component.and (closedBelow_notComma _)) composes
  | value | function _ | simpleBlock _ => exact h.closed component composes
  | atRule name =>
    apply frame
    intro c mem
    have := composes.subset mem
    simp only [List.mem_cons, List.not_mem_nil, or_false] at this
    rcases this with rfl | rfl <;> rfl
  | _ =>
    have parts : cs.map kind = _ := composes
    apply frame
    rw [parts]
    simp [isFrame]

theorem map_fst_outline (b : Branch) : b.outline.map Prod.fst = b.children.map kind := by
  simp [outline, Function.comp_def]

theorem Formed.composes (formed : b.Formed) : b.kind.Composes (b.children.map kind) :=
  map_fst_outline b ▸ formed.1

theorem nested_of_formed (formed : ∀ c ∈ b.preorder, c.Formed) : b.Nested :=
  fun c mem d child => canHold_of_composes (formed c mem).composes d.kind (List.mem_map_of_mem child)

/-- And so with what these hold. -/
theorem Recasts.forms {n n' : Node} (h : Recasts n.kind cs cs') (kind : n.kind.Reworded n'.kind)
    (formed : (mk n cs).Formed) : (mk n' cs').Formed := by
  obtain ⟨parts, media⟩ := formed
  refine ⟨?_, ?_⟩
  · rw [map_fst_outline] at parts ⊢
    exact kind.composes (h.composes parts)
  · intro name e p mem prelude
    obtain ⟨c', hc', rfl⟩ := List.mem_map.1 mem
    have prelude : c'.kind = .prelude := prelude
    obtain ⟨c, hc, same, below⟩ := h.exists_of_mem hc' (by simp [prelude])
    have e : n'.kind = .atRule name := e
    have before : n.kind = .atRule name := by rw [← e, kind.eq (.inr (e ▸ rfl))]
    have before' : c.kind = .prelude := by rw [← prelude, same.eq (.inr (prelude ▸ rfl))]
    apply below.closed (closedBelow_isMediaQuery _ _)
    exact media name before _ (List.mem_map_of_mem hc) before'

/-- Branches in which every node has children of the right kinds stay so. -/
theorem Recasts.formed (h : Recasts k bs bs') (formed : ∀ b ∈ preorderAll bs, b.Formed) :
    ∀ b ∈ preorderAll bs', b.Formed := by
  induction h with
  | nil => exact formed
  | @keep k n n' cs cs' bs bs' kind below _ ih ih' =>
    simp only [preorderAll_cons, preorder, List.mem_append, List.mem_cons, or_imp, forall_and, forall_eq] at formed ⊢
    obtain ⟨⟨top, inside⟩, later⟩ := formed
    have top' : (mk n' cs').Formed := Recasts.forms below kind top
    exact ⟨⟨top', ih inside⟩, ih' later⟩
  | drop _ _ ih =>
    refine ih fun b mem => formed b ?_
    rw [preorderAll_cons]
    exact List.mem_append_right _ mem
  | @space k b n bs bs' _ _ blank _ ih =>
    simp only [preorderAll_cons, preorder, preorderAll_nil, List.mem_append, List.mem_cons, List.not_mem_nil, or_false,
      or_imp, forall_and, forall_eq] at formed ⊢
    refine ⟨?_, ih formed.2⟩
    have parts : n.kind.Forms [] := .of_composes (by rw [blank]; rfl) (by rw [blank]; rfl)
    exact parts

/-- And so a single branch that becomes another. -/
theorem formed_of_recasts (h : Recasts k [b] [b']) (formed : ∀ c ∈ b.preorder, c.Formed) :
    ∀ c ∈ b'.preorder, c.Formed := by
  have all := h.formed
  simp only [preorderAll_cons, preorderAll_nil, List.append_nil] at all
  exact all formed

end AboveFold.Branch

namespace AboveFold
open Branch

/-! ## Modest visitors -/

/-- The answers of a modest visitor: it takes out nothing but what passes may take out, changes nothing but
the text of urls and strings, and exchanges nothing but comments among component values for spaces. -/
def Verdict.IsModest (site : Site) : Verdict → Prop
  | .descend | .skip => True
  | .remove => site.branch.kind.isPrunable = true
  | .become k => site.branch.kind.Reworded k
  | .exchange k => k = .whitespace ∧ site.branch.kind.isComment = true
    ∧ site.above.head?.any (Prune.holdsComponents ·.kind) = true

/-- A visitor that gives modest answers everywhere. -/
def Visitor.Modest (v : Visitor) : Prop :=
  ∀ site, (v site).IsModest site

namespace Branch

variable {v : Visitor}

mutual

/-- The walk of a modest visitor below a node, or over the top of a tree, recasts. -/
theorem walk_recasts (modest : v.Modest) :
    ∀ (b : Branch) (above : List Node) (before after : List Branch) (trail : Trail) (k : Node.Kind),
      (∀ m ∈ above.head?, m.kind = k) → Recasts k [b] (b.walk v above before after trail).branches
  | mk n cs, above, before, after, trail, k, here => by
    have answer := modest ⟨above, before, mk n cs, after⟩
    cases verdict : v ⟨above, before, mk n cs, after⟩ with
    | descend =>
      have below := walkAll_recasts modest cs (n :: above) [] { trail with visited := mk n cs :: trail.visited }
        n.kind (by simp)
      simp only [Branch.walk, verdict]
      exact .keep (.same _) below .nil
    | skip =>
      simp only [Branch.walk, verdict]
      exact .refl k _
    | become kind =>
      have reworded : n.kind.Reworded kind := by rwa [verdict] at answer
      simp only [Branch.walk, verdict]
      exact .keep reworded (.refl _ cs) .nil
    | remove =>
      have prunable : n.kind.isPrunable = true := by rwa [verdict] at answer
      cases above with
      | nil =>
        simp only [Branch.walk, verdict]
        exact .refl k _
      | cons m above =>
        simp only [Branch.walk, verdict]
        exact .drop prunable .nil
    | exchange kind =>
      rw [verdict] at answer
      obtain ⟨blank, comment, holder⟩ := answer
      cases above with
      | nil => simp at holder
      | cons m above =>
        obtain rfl : m.kind = k := by simpa using here
        simp only [Branch.walk, verdict]
        exact .space comment (by simpa using holder) blank .nil

theorem walkAll_recasts (modest : v.Modest) :
    ∀ (bs : List Branch) (above : List Node) (before : List Branch) (trail : Trail) (k : Node.Kind),
      (∀ m ∈ above.head?, m.kind = k) → Recasts k bs (walkAll v above before bs trail).branches
  | [], _, _, _, _, _ => .nil
  | b :: bs, above, before, trail, k, here => by
    have first := walk_recasts modest b above before bs trail k here
    have later := walkAll_recasts modest bs above ((b.walk v above before bs trail).branches.reverse ++ before)
      (b.walk v above before bs trail).trail k here
    exact first.append later

end

end Branch

namespace Tree

variable {t : Tree}

/-- A tree that keeps to the grammar of stylesheets. -/
structure Grammatical (t : Tree) : Prop where
  root : t.sheet.kind = .styleSheet
  formed : ∀ b ∈ t.attached, b.Formed

/-- The walk of a modest visitor over a whole style sheet, before what it leaves empty is removed. -/
theorem unsettled_recasts (t : Tree) {v : Visitor} (modest : v.Modest) :
    Recasts .styleSheet [t.sheet] [(t.unsettled v).sheet] := by
  have walked : Recasts .styleSheet [t.sheet] (t.passed v).branches :=
    walk_recasts modest t.sheet [] [] [] _ _ (by simp)
  rwa [t.passed_branches v] at walked

theorem Numbered.walk_formed (h : t.Numbered) {v : Visitor} (modest : v.Modest)
    (formed : ∀ b ∈ t.attached, b.Formed) : ∀ b ∈ (t.walk v).tree.attached, b.Formed := by
  have unsettled := formed_of_recasts (t.unsettled_recasts modest) formed
  have settled := ((h.walk_settles v).thinned.single .styleSheet).recasts
  exact formed_of_recasts settled unsettled

theorem Numbered.walk_root (h : t.Numbered) {v : Visitor} (modest : v.Modest) (root : t.sheet.kind = .styleSheet) :
    (t.walk v).tree.sheet.kind = .styleSheet := by
  have unsettled := (t.unsettled_recasts modest).kind_eq (by rw [root]; rfl) (by rw [root]; rfl)
  exact (h.walk_settles v).thinned.kind.trans (unsettled.trans root)

end Tree

end AboveFold
