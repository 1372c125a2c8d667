import AboveFold.Proofs.Prune.Obeying
import AboveFold.Proofs.Stylesheet.Editing

/-!
# What passes mark

Each pass that takes nodes out goes by what a node is, by what stays of it when parts of it go, and, for
selectors, by the kinds of the nodes above. So each has a regular mark, and its visitor obeys it: what the
visitor passes over holds nothing that it would take out.
-/

namespace AboveFold
open Branch

/-- Whether a node below these is a stop of an animation or stands in one. -/
def withinStop : List Node → Bool
  | [] => false
  | n :: above => n.kind.isRule && isKeyframeStop above || withinStop above

/-- A node of which nothing but its kind is known. -/
def Node.bare (kind : Node.Kind) : Node := ⟨0, kind, none, false⟩

theorem isKeyframeStop_bare (above : List Node) :
    isKeyframeStop ((above.map Node.kind).map Node.bare) = isKeyframeStop above := by
  have nearest : (enclosingAtRule? ((above.map Node.kind).map Node.bare)).map Node.kind
      = (enclosingAtRule? above).map Node.kind := by
    unfold enclosingAtRule?
    induction above with
    | nil => rfl
    | cons n above ih =>
      simp only [List.map_cons, List.find?_cons]
      have same : (Node.bare n.kind).kind.isAtRule = n.kind.isAtRule := rfl
      rw [same]
      cases n.kind.isAtRule with
      | true => rfl
      | false => exact ih
  have byKind (n : Option Node) : (n.any fun n => n.kind.atRuleName?.any fun name =>
      Text.hasSuffix "keyframes".toList (Text.lower name).toList)
      = (n.map Node.kind).any fun k => k.atRuleName?.any fun name =>
        Text.hasSuffix "keyframes".toList (Text.lower name).toList := by
    rw [Option.any_map]
  rw [isKeyframeStop, isKeyframeStop, byKind, byKind, nearest]

/-- Whether a node stands in a stop shows in the kinds of the nodes above it. -/
theorem withinStop_bare (above : List Node) :
    withinStop ((above.map Node.kind).map Node.bare) = withinStop above := by
  induction above with
  | nil => rfl
  | cons n above ih =>
    rw [List.map_cons, List.map_cons, withinStop, withinStop, ih, isKeyframeStop_bare]
    rfl

theorem withinStop_append (above up : List Node) (within : withinStop up = true) : withinStop (above ++ up) = true := by
  induction above with
  | nil => exact within
  | cons n above ih => rw [List.cons_append, withinStop, ih, Bool.or_true]

namespace Node.Kind

/-- The kinds below which there may be rules and declarations. -/
def isContainer : Kind → Bool
  | styleSheet | rule | atRule _ | block _ => true
  | _ => false

variable {k c : Kind}

theorem canHold_of_isContainer_eq_false (h : k.isContainer = false) (holds : k.canHold c = true) :
    c.isPlain = true ∨ c.isSelector = true := by
  cases k <;> simp_all [isContainer, canHold]

theorem isContainer_eq_false (h : c.isPlain = true ∨ c.isSelector = true) : c.isContainer = false := by
  cases c <;> simp_all [isContainer, isPlain, isSelector]

end Node.Kind

/-- Where there are no rules and declarations, there are selectors and plain nodes. -/
theorem Branch.Nested.isPlain_or_isSelector {b : Branch} (nested : b.Nested) (closed : b.kind.isContainer = false) :
    ∀ c ∈ preorderAll b.children, c.kind.isPlain = true ∨ c.kind.isSelector = true := by
  induction b using induct with
  | mk n cs ih =>
    intro c mem
    obtain ⟨d, hd, inside⟩ := mem_preorderAll.1 mem
    obtain ⟨holds, nested⟩ := nested_mk.1 nested d hd
    have here := Node.Kind.canHold_of_isContainer_eq_false closed holds
    rcases mem_preorder.1 inside with rfl | inside
    · exact here
    · exact ih d hd nested (Node.Kind.isContainer_eq_false here) c inside

/-- Where there are no rules and declarations, there are none further down. -/
theorem Branch.Nested.isContainer_eq_false {b : Branch} (nested : b.Nested) (closed : b.kind.isContainer = false) :
    ∀ c ∈ b.preorder, c.kind.isContainer = false := by
  intro c mem
  rcases mem_preorder.1 mem with rfl | mem
  · exact closed
  · exact Node.Kind.isContainer_eq_false (nested.isPlain_or_isSelector closed c mem)

/-! ## Marks -/

namespace Mark

variable {μ : Mark} {b : Branch} {above : List Node.Kind} {p : Node.Kind → Bool} {drop : Branch → Bool}

/-- Marks the nodes of some kinds that satisfy `drop`. -/
def among (p : Node.Kind → Bool) (drop : Branch → Bool) : Mark := fun _ b => p b.kind && drop b

/-- Marks the selectors that are not critical, except in the stops of animations. -/
def uncritical (critical : List String) : Mark := fun above b =>
  b.kind.selector?.any (!critical.contains ·) && !withinStop (above.map Node.bare)

/-- Whether what is said of nodes of some kinds stays when parts of them go. -/
structure Steady (p : Node.Kind → Bool) (drop : Branch → Bool) : Prop where
  thinned : ∀ b b', b.Nested → p b.kind = true → b.Thinned b' → drop b' = drop b
  blind : ∀ b, drop b.unnumbered = drop b

theorem steady_of_kind (p : Node.Kind → Bool) (q : Node.Kind → Bool) : Steady p fun b => q b.kind :=
  ⟨fun _ _ _ _ thinned => congrArg q thinned.kind, fun b => congrArg q (kind_unnumbered b)⟩

theorem regular_among (solid : ∀ k, p k = true → k.isPrunable = true ∧ k.isPlain = false) (steady : Steady p drop) :
    (among p drop).Regular where
  prunable := by
    intro above b marked
    exact solid _ (Bool.and_eq_true_iff.1 marked).1
  thinned := by
    intro above b b' nested thinned
    rw [among, among, thinned.kind]
    cases here : p b.kind with
    | false => rfl
    | true => rw [steady.thinned b b' nested here thinned]
  blind := by
    intro above b
    rw [among, among, kind_unnumbered, steady.blind]

theorem regular_declarations (steady : Steady Node.Kind.isDeclaration drop) :
    (among Node.Kind.isDeclaration drop).Regular :=
  regular_among (fun k h => by cases k <;> first | exact ⟨rfl, rfl⟩ | cases h) steady

theorem regular_atRules (steady : Steady Node.Kind.isAtRule drop) : (among Node.Kind.isAtRule drop).Regular :=
  regular_among (fun k h => by cases k <;> first | exact ⟨rfl, rfl⟩ | cases h) steady

theorem regular_uncritical (critical : List String) : (uncritical critical).Regular where
  prunable := by
    intro above b marked
    have selector := (Bool.and_eq_true_iff.1 marked).1
    cases k : b.kind <;> rw [k] at selector <;> first | exact ⟨rfl, rfl⟩ | cases selector
  thinned := by
    intro above b b' _ thinned
    rw [uncritical, uncritical, thinned.kind]
  blind := by
    intro above b
    rw [uncritical, uncritical, kind_unnumbered]

theorem among_eq_false (other : p b.kind = false) : among p drop above b = false := by
  rw [among, other]
  rfl

theorem uncritical_eq_false {critical : List String} (other : b.kind.isSelector = false) :
    uncritical critical above b = false := by
  unfold uncritical
  cases k : b.kind <;> rw [k] at other <;> first | rfl | cases other

/-- Outside of the stops of animations, the selectors that are not critical are marked. -/
theorem uncritical_of_selector {critical : List String} {above : List Node} {text : String}
    (selector : b.kind = .selector text) (outside : withinStop above = false) :
    uncritical critical (above.map Node.kind) b = !critical.contains text := by
  rw [uncritical, selector, withinStop_bare, outside]
  exact Bool.and_true _

/-- Where nothing is marked inside, nothing is. -/
theorem clean_of_forall (spared : ∀ c ∈ b.preorder, ∀ ks, μ (ks ++ above) c = false) : μ.Clean above b := by
  induction b using induct generalizing above with
  | mk n cs ih =>
    refine .mk (spared _ (self_mem_preorder _) []) fun c mem => ih c mem fun d inside ks => ?_
    have := spared d (mem_preorder_of_child mem inside) (ks ++ [n.kind])
    rwa [List.append_assoc] at this

/-- Below declarations and selectors nothing is marked. -/
theorem Solid.clean_of_closed (solid : μ.Solid) (nested : b.Nested)
    (closed : b.kind.isDeclaration = true ∨ b.kind.isSelector = true) (top : μ above b = false) : μ.Clean above b := by
  have below := nested.isPlain_below closed
  obtain ⟨n, cs⟩ := b
  refine .mk top fun c mem => solid.clean_of_isPlain fun d inside => ?_
  exact below d (mem_preorderAll.2 ⟨c, mem, inside⟩)

/-- Nothing is marked in the stop of an animation. -/
theorem clean_of_isKeyframeStop {critical : List String} {above : List Node} (rule : b.kind = .rule)
    (stop : isKeyframeStop above = true) : (uncritical critical).Clean (above.map Node.kind) b := by
  have within : withinStop (((b.node :: above).map Node.kind).map Node.bare) = true := by
    have rule : b.node.kind = .rule := rule
    rw [withinStop_bare, withinStop, stop, rule]
    rfl
  have top : uncritical critical (above.map Node.kind) b = false := uncritical_eq_false (by rw [rule]; rfl)
  obtain ⟨n, cs⟩ := b
  refine .mk top fun c _ => clean_of_forall fun d _ ks => ?_
  have within : withinStop ((ks ++ (n :: above).map Node.kind).map Node.bare) = true := by
    rw [List.map_append]
    exact withinStop_append _ _ within
  change uncritical critical (ks ++ (n :: above).map Node.kind) d = false
  rw [uncritical, within, Bool.not_true, Bool.and_false]

end Mark

/-! ## Visitors -/

namespace Prune

variable {drop : Branch → Bool}

theorem declarations_obeys (steady : Mark.Steady Node.Kind.isDeclaration drop) :
    (declarations drop).Obeys (fun _ => True) (.among Node.Kind.isDeclaration drop) := by
  have regular := Mark.regular_declarations steady
  rintro ⟨above, before, b, after⟩ - nested
  have other (e : b.kind.isDeclaration = false) :
      Mark.among Node.Kind.isDeclaration drop (above.map Node.kind) b = false := Mark.among_eq_false e
  cases k : b.kind with
  | declaration property important =>
    have closed : b.kind.isDeclaration = true := by rw [k]; rfl
    cases dropped : drop b with
    | true => exact .inr (.inr ⟨by simp [declarations, k, dropped], by rw [Mark.among, closed, dropped]; rfl⟩)
    | false =>
      refine .inr (.inl ⟨by simp [declarations, k, dropped], ?_⟩)
      exact regular.solid.clean_of_closed nested (.inl closed) (by rw [Mark.among, dropped, Bool.and_false])
  | prelude =>
    refine .inr (.inl ⟨by simp [declarations, k], ?_⟩)
    exact regular.solid.clean_of_isPlain (nested.isPlain (by rw [k]; rfl))
  | selectorList =>
    refine .inr (.inl ⟨by simp [declarations, k], Mark.clean_of_forall fun c mem ks => Mark.among_eq_false ?_⟩)
    rcases mem_preorder.1 mem with rfl | mem
    · rw [k]
      rfl
    · have := nested.isPlain_or_isSelector (by rw [k]; rfl) c mem
      cases k : c.kind <;> simp_all [Node.Kind.isPlain, Node.Kind.isSelector, Node.Kind.isDeclaration]
  | _ => exact .inl ⟨by simp [declarations, k], other (by rw [k]; rfl), trivial⟩

theorem atRules_obeys (drop : Branch → Bool) :
    (atRules drop).Obeys (fun _ => True) (.among Node.Kind.isAtRule drop) := by
  rintro ⟨above, before, b, after⟩ - nested
  have other (e : b.kind.isAtRule = false) : Mark.among Node.Kind.isAtRule drop (above.map Node.kind) b = false :=
    Mark.among_eq_false e
  -- what holds no rules holds no at-rules
  have outside (e : b.kind.isContainer = false) :
      (Mark.among Node.Kind.isAtRule drop).Clean (above.map Node.kind) b := by
    refine Mark.clean_of_forall fun c mem ks => Mark.among_eq_false ?_
    have := nested.isContainer_eq_false e c mem
    cases k : c.kind <;> rw [k] at this <;> first | rfl | cases this
  cases k : b.kind with
  | atRule name =>
    have here : b.kind.isAtRule = true := by rw [k]; rfl
    cases dropped : drop b with
    | true => exact .inr (.inr ⟨by simp [atRules, k, dropped], by rw [Mark.among, here, dropped]; rfl⟩)
    | false => exact .inl ⟨by simp [atRules, k, dropped], by rw [Mark.among, dropped, Bool.and_false], trivial⟩
  | styleSheet | rule | block _ => exact .inl ⟨by simp [atRules, k], other (by rw [k]; rfl), trivial⟩
  | _ => exact .inr (.inl ⟨by simp [atRules, k], outside (by rw [k]; rfl)⟩)

theorem uncritical_obeys (critical : List String) :
    (uncritical critical).Obeys (fun above => withinStop above = false) (.uncritical critical) := by
  have regular := Mark.regular_uncritical critical
  rintro ⟨above, before, b, after⟩ outside nested
  have other (e : b.kind.isSelector = false) : Mark.uncritical critical (above.map Node.kind) b = false :=
    Mark.uncritical_eq_false e
  have deeper (e : b.kind.isRule = false) : withinStop (b.node :: above) = false := by
    have : b.node.kind.isRule = false := e
    rw [withinStop, this, outside]
    rfl
  cases k : b.kind with
  | rule =>
    cases stop : isKeyframeStop above with
    | true => exact .inr (.inl ⟨by simp [uncritical, k, stop], Mark.clean_of_isKeyframeStop k stop⟩)
    | false =>
      have outside : withinStop above = false := outside
      refine .inl ⟨by simp [uncritical, k, stop], other (by rw [k]; rfl), ?_⟩
      change withinStop (b.node :: above) = false
      rw [withinStop, stop, outside, Bool.and_false, Bool.or_false]
  | selector text =>
    have here : b.kind.isSelector = true := by rw [k]; rfl
    have mark : Mark.uncritical critical (above.map Node.kind) b = !critical.contains text :=
      Mark.uncritical_of_selector k outside
    cases known : critical.contains text with
    | true =>
      refine .inr (.inl ⟨by simp only [uncritical, k, known, if_true], ?_⟩)
      exact regular.solid.clean_of_closed nested (.inr here) (by rw [mark, known]; rfl)
    | false =>
      exact .inr (.inr ⟨by simp only [uncritical, k, known, Bool.false_eq_true, if_false], by rw [mark, known]; rfl⟩)
  | prelude =>
    refine .inr (.inl ⟨by simp [uncritical, k], ?_⟩)
    exact regular.solid.clean_of_isPlain (nested.isPlain (by rw [k]; rfl))
  | declaration property important =>
    refine .inr (.inl ⟨by simp [uncritical, k], ?_⟩)
    exact regular.solid.clean_of_closed nested (.inl (by rw [k]; rfl)) (other (by rw [k]; rfl))
  | _ => exact .inl ⟨by simp [uncritical, k], other (by rw [k]; rfl), deeper (by rw [k]; rfl)⟩

end Prune

/-! ## Filters -/

namespace Stylesheet

/-- Marks the declarations and at-rules that the filters do not keep. -/
def unkept (s : Stylesheet) (f : Filters) : Mark := fun _ b => !(s.question? b).all f.keeps

variable {s : Stylesheet} {f : Filters} {b : Branch} {above : List Node.Kind}

theorem unkept_keepAll (s : Stylesheet) : s.unkept .keepAll = .never := by
  funext above b
  have kept : (s.question? b).all Filters.keepAll.keeps = true := by
    rw [Option.all_eq_true]
    intro q _
    cases q <;> rfl
  rw [unkept, kept]
  rfl

/-- Filters are asked about declarations and at-rules only. -/
theorem unkept_eq_false (other : b.kind.isDeclaration = false ∧ b.kind.isAtRule = false) : s.unkept f above b = false := by
  have none : s.question? b = none := by
    unfold question?
    cases k : b.kind <;> simp_all [Node.Kind.isDeclaration, Node.Kind.isAtRule]
  rw [unkept, none]
  rfl

theorem solid_unkept (s : Stylesheet) (f : Filters) : (s.unkept f).Solid := by
  intro above b marked
  cases k : b.kind with
  | declaration property important => exact ⟨rfl, rfl⟩
  | atRule name => exact ⟨rfl, rfl⟩
  | _ =>
    rw [unkept_eq_false (by rw [k]; exact ⟨rfl, rfl⟩)] at marked
    cases marked

theorem filterVisitor_obeys (s : Stylesheet) (f : Filters) :
    (s.filterVisitor f).Obeys (fun _ => True) (s.unkept f) := by
  rintro ⟨above, before, b, after⟩ - nested
  cases k : b.kind with
  | declaration property important =>
    cases kept : (s.question? b).all f.keeps with
    | true =>
      refine .inr (.inl ⟨by simp [filterVisitor, k, kept], ?_⟩)
      exact (s.solid_unkept f).clean_of_closed nested (.inl (by rw [k]; rfl)) (by rw [unkept, kept]; rfl)
    | false => exact .inr (.inr ⟨by simp [filterVisitor, k, kept], by rw [unkept, kept]; rfl⟩)
  | atRule name =>
    cases kept : (s.question? b).all f.keeps with
    | true => exact .inl ⟨by simp [filterVisitor, k, kept], by rw [unkept, kept]; rfl, trivial⟩
    | false => exact .inr (.inr ⟨by simp [filterVisitor, k, kept], by rw [unkept, kept]; rfl⟩)
  | prelude =>
    refine .inr (.inl ⟨by simp [filterVisitor, k], ?_⟩)
    exact (s.solid_unkept f).clean_of_isPlain (nested.isPlain (by rw [k]; rfl))
  | selectorList =>
    refine .inr (.inl ⟨by simp [filterVisitor, k], Mark.clean_of_forall fun c mem ks => unkept_eq_false ?_⟩)
    rcases mem_preorder.1 mem with rfl | mem
    · rw [k]
      exact ⟨rfl, rfl⟩
    · have := nested.isPlain_or_isSelector (by rw [k]; rfl) c mem
      cases k : c.kind <;> simp_all [Node.Kind.isPlain, Node.Kind.isSelector, Node.Kind.isDeclaration, Node.Kind.isAtRule]
  | _ => exact .inl ⟨by simp [filterVisitor, k], unkept_eq_false (by rw [k]; exact ⟨rfl, rfl⟩), trivial⟩

end Stylesheet

end AboveFold
