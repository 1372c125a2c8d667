import AboveFold.Proofs.Prune.Marks

/-!
# Firm marks

A pass that is run again finds other branches than the first time: some of what they held went. What filters are asked
about an at-rule, and what family a font declares, depends on texts and on whether nodes have a mark, so that the marks
of these passes are not regular. But they are firm: no component value and no declaration that is left was touched, and
so they say the same of what is left as before. Where what is marked was taken out, nothing is marked any more.
-/

namespace AboveFold
open Branch

namespace Mark
open Cut

/-- A mark of nodes of the kinds `p`, rules and at-rules among them, that says the same of a branch when nodes of these
kinds went from below it. -/
structure Firm (p : Node.Kind → Bool) (μ : Mark) : Prop where
  kinds : ∀ k, p k = true → k.isSolidPrunable = true
  falls : ∀ k : Node.Kind, k.canBeEmpty = true → p k = true
  fits : ∀ above b, μ above b = true → p b.kind = true
  culled : ∀ above b b', b.Nested → b.Culled p b' → μ above b' = μ above b

variable {p : Node.Kind → Bool} {μ : Mark} {above : List Node.Kind} {b b' : Branch} {bs bs' : List Branch} {k : Node.Kind}

theorem Firm.solid (h : μ.Firm p) : μ.Solid :=
  fun above b marked => Node.Kind.isSolidPrunable_iff.1 (h.kinds _ (h.fits above b marked))

theorem Regular.firm (h : μ.Regular) : μ.Firm Node.Kind.isSolidPrunable where
  kinds _ here := here
  falls _ := Node.Kind.isSolidPrunable_of_canBeEmpty
  fits above b marked := Node.Kind.isSolidPrunable_iff.2 (h.solid above b marked)
  culled above b b' nested culled :=
    h.thinned above b b' nested (culled.thinned fun _ => Node.Kind.isPrunable_of_isSolidPrunable)

/-- Where nothing is marked, nothing is when some of it went. -/
theorem Firm.clean_of_culls (h : μ.Firm p) (culls : Culls p bs bs') (nested : ∀ b ∈ bs, b.Nested)
    (clean : ∀ b ∈ bs, μ.Clean above b) : ∀ b ∈ bs', μ.Clean above b := by
  induction culls generalizing above with
  | nil => exact clean
  | same b _ ih =>
    simp only [List.mem_cons, forall_eq_or_imp] at nested clean ⊢
    exact ⟨clean.1, ih nested.2 clean.2⟩
  | @keep n n' cs cs' bs bs' id kind opens below _ ih ih' =>
    simp only [List.mem_cons, forall_eq_or_imp] at nested clean ⊢
    obtain ⟨top, inside⟩ := clean_mk.1 clean.1
    refine ⟨.mk ?_ ?_, ih' nested.2 clean.2⟩
    · rw [h.culled _ _ _ nested.1 (.below id kind opens below), top]
    · rw [kind]
      exact ih (fun c mem => (nested_mk.1 nested.1 c mem).2) inside
  | drop _ _ ih =>
    simp only [List.mem_cons, forall_eq_or_imp] at nested clean
    exact ih nested.2 clean.2

theorem Firm.clean_of_culled (h : μ.Firm p) (culled : b.Culled p b') (nested : b.Nested) (clean : μ.Clean above b) :
    μ.Clean above b' :=
  h.clean_of_culls culled.single (by simpa using nested) (by simpa using clean) b' (List.mem_singleton_self b')

/-! ## Taking out what is marked -/

theorem Firm.culls_cut (h : μ.Firm p) (nested : b.Nested) : Culls p [b] (cut (.pruning μ keep) above b).kept := by
  induction b using induct generalizing above with
  | mk n cs ih =>
    cases marked : μ above (.mk n cs) with
    | true =>
      rw [cut_marked (h.solid _ _ marked).2 marked]
      exact .drop (h.fits _ _ marked) .nil
    | false =>
      rw [cut_spared nested marked]
      cases closed : (Branch.mk n cs).kind.isClosed with
      | true =>
        rw [each_cut_of_isClosed nested closed, children_mk, node_mk, wrap_whole]
        exact .refl p _
      | false => exact .keep rfl rfl closed (.each fun c mem => ih c mem (nested_mk.1 nested c mem).2) .nil

/-- Taking out what is marked below the top of a branch. -/
theorem Firm.culled_cutBelow (h : μ.Firm p) (nested : b.Nested) : b.Culled p (cutBelow (.pruning μ keep) above b) := by
  obtain ⟨n, cs⟩ := b
  cases closed : (Branch.mk n cs).kind.isClosed with
  | true =>
    rw [cutBelow, each_cut_of_isClosed nested closed, children_mk, node_mk, under_whole]
    exact .refl _
  | false => exact .below rfl rfl closed (.each fun c mem => h.culls_cut (nested_mk.1 nested c mem).2)

/-- When what is marked went, nothing is marked any more. -/
theorem Firm.clean_cut (h : μ.Firm p) (nested : b.Nested) :
    ∀ c ∈ (cut (.pruning μ keep) above b).kept, μ.Clean above c := by
  induction b using induct generalizing above with
  | mk n cs ih =>
    cases marked : μ above (.mk n cs) with
    | true =>
      rw [cut_marked (h.solid _ _ marked).2 marked]
      simp [gone]
    | false =>
      have top : μ above (cutBelow (.pruning μ keep) above (.mk n cs)) = μ above (.mk n cs) :=
        h.culled above _ _ nested (h.culled_cutBelow nested)
      rw [cut_spared nested marked]
      intro c mem
      obtain rfl := List.mem_singleton.1 mem
      refine .mk (top.trans marked) fun c mem => ?_
      obtain ⟨d, hd, left⟩ := List.mem_flatMap.1 mem
      exact ih d hd (nested_mk.1 nested d hd).2 c left

theorem Firm.clean_cutBelow (h : μ.Firm p) (nested : b.Nested) (top : μ above b = false) :
    μ.Clean above (cutBelow (.pruning μ keep) above b) := by
  have clean : ∀ c ∈ (cut (.pruning μ keep) above b).kept, μ.Clean above c := h.clean_cut nested
  rw [cut_spared nested top] at clean
  exact clean _ (List.mem_singleton_self _)

end Mark

/-! ## Walks that follow a firm mark -/

namespace Tree

variable {t : Tree} {v : Visitor} {reached : List Node → Prop} {μ : Mark} {p : Node.Kind → Bool}

/-- What a walk leaves of a style sheet is left as it was, and nothing in it is marked. -/
theorem Numbered.walk_firm (h : t.Numbered) (obeys : v.Obeys reached μ) (firm : μ.Firm p) (nested : t.sheet.Nested)
    (root : t.sheet.kind = .styleSheet) (descends : v ⟨[], [], t.sheet, []⟩ = .descend) (here : reached [t.sheet.node]) :
    t.sheet.Culled p (t.walk v).tree.sheet ∧ μ.Clean [] (t.walk v).tree.sheet := by
  have top : μ [] t.sheet = false := by
    refine Bool.eq_false_iff.2 fun marked => ?_
    have prunable := (firm.solid _ _ marked).1
    rw [root] at prunable
    cases prunable
  have settles := h.walk_settles v
  rw [unsettled_of_obeys obeys firm.solid nested descends here] at settles
  have cut : t.sheet.Culled p (cutBelow (.pruning μ keep) [] t.sheet) := firm.culled_cutBelow nested
  have nested' := (cut.thinned fun k goes => Node.Kind.isPrunable_of_isSolidPrunable (firm.kinds k goes)).nested nested
  have falling := (settles.culled nested').mono firm.falls
  exact ⟨cut.trans falling, firm.clean_of_culled falling nested' (firm.clean_cutBelow nested top)⟩

end Tree

/-! ## What filters and fonts go by -/

namespace Stylesheet

variable {s : Stylesheet} {b b' : Branch} {p : Node.Kind → Bool}

/-- Filters are asked the same of what is left. -/
theorem question?_of_culled (s : Stylesheet) (culled : b.Culled Node.Kind.isSolidPrunable b') :
    s.question? b' = s.question? b := by
  have prelude : b'.prelude? = b.prelude? := by
    refine culled.children.find?_eq (q := (· = .prelude)) fun k here => ?_
    obtain rfl : k = .prelude := of_decide_eq_true here
    exact ⟨rfl, rfl⟩
  have block : b'.block?.isSome = b.block?.isSome := by
    have part : ∀ k : Node.Kind, k.isBlock = true → k.isSolidPrunable = false := by
      intro k here
      cases k <;> first | rfl | cases here
    rcases culled.children.find? part with ⟨none, none'⟩ | ⟨c, c', found, found', -⟩
    · rw [block?, block?, child?, child?, none, none']
    · rw [block?, block?, child?, child?, found, found']
      rfl
  have kind := culled.kind
  cases k : b.kind with
  | declaration property important => rw [culled.eq_of_isClosed (by rw [k]; rfl)]
  | atRule name =>
    rw [k] at kind
    simp only [question?, kind, k, prelude, block]
  | _ =>
    rw [k] at kind
    simp only [question?, kind, k]

/-- A font declares the same family when rules and at-rules went from it. -/
theorem declaredFont?_of_culled (s : Stylesheet) (culled : b.Culled Node.Kind.canBeEmpty b') :
    s.declaredFont? b' = s.declaredFont? b := by
  have part : ∀ k : Node.Kind, k.isBlock = true → k.canBeEmpty = false := by
    intro k here
    cases k <;> first | rfl | cases here
  have family {c c' : Branch} (culled : c.Culled Node.Kind.canBeEmpty c') :
      c'.children.find? (fun d => d.kind.property?.any (Text.eqIgnoreCase · "font-family"))
        = c.children.find? fun d => d.kind.property?.any (Text.eqIgnoreCase · "font-family") := by
    refine culled.children.find?_eq (q := fun k => k.property?.any (Text.eqIgnoreCase · "font-family")) ?_
    intro k here
    cases k <;> first | exact ⟨rfl, rfl⟩ | cases here
  unfold declaredFont? block? child?
  rcases culled.children.find? part with ⟨none, none'⟩ | ⟨c, c', found, found', inside⟩
  · rw [none, none']
  · rw [found, found']
    simp only [Option.bind_eq_bind, Option.bind_some, family inside]

theorem firm_unkept (s : Stylesheet) (f : Filters) : (s.unkept f).Firm Node.Kind.isSolidPrunable where
  kinds _ here := here
  falls _ := Node.Kind.isSolidPrunable_of_canBeEmpty
  fits above b marked := Node.Kind.isSolidPrunable_iff.2 (s.solid_unkept f above b marked)
  culled above b b' _ culled := by rw [unkept, unkept, s.question?_of_culled culled]

end Stylesheet

end AboveFold
