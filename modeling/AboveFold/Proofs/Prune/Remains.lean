import AboveFold.Proofs.Prune.Falling
import Mathlib.Data.List.Forall2

/-!
# What is left

A pass takes out what it marks, and then what says nothing any more. That is just what falls with the marked
nodes (`Tree.Numbered.goes_iff`), and what is left are the places of all other nodes, in the order they were
in (`Tree.Numbered.left`). A walk counts the places that are marked, if none is below another
(`Tree.Numbered.takesOut`).
-/

namespace AboveFold
open Branch

section

variable {α β γ : Type} {R : α → β → Prop} {f : α → γ} {g : β → γ} {xs : List α} {ys : List β} {x : α}

theorem map_of_forall₂ (related : List.Forall₂ R xs ys) (same : ∀ x ∈ xs, ∀ y, R x y → g y = f x) :
    ys.map g = xs.map f := by
  induction related with
  | nil => rfl
  | cons r _ ih =>
    simp only [List.mem_cons, forall_eq_or_imp] at same
    rw [List.map_cons, List.map_cons, same.1 _ r, ih same.2]

theorem exists_of_forall₂ (related : List.Forall₂ R xs ys) (mem : x ∈ xs) : ∃ y ∈ ys, R x y := by
  induction related with
  | nil => cases mem
  | cons r _ ih =>
    rcases List.mem_cons.1 mem with rfl | mem
    · exact ⟨_, List.mem_cons_self .., r⟩
    · obtain ⟨y, hy, r⟩ := ih mem
      exact ⟨y, List.mem_cons_of_mem _ hy, r⟩

end

/-- The numbers of the nodes that are marked. -/
def Tree.taken (t : Tree) (μ : Mark) : Set Nat :=
  {i | ∃ l ∈ t.sheet.locate [], μ (l.above.map Node.kind) l.branch = true ∧ l.branch.id = i}

/-! ## One mark and one sweep -/

namespace Branch
open Cut

/-- What is left of a branch whose top stays. -/
def rest (μ : Mark) (above : List Node.Kind) (b : Branch) : Branch :=
  (cutBelow (.pruning μ keep) above b).swept

/-- Whether a branch is marked, or says nothing any more when what is marked in it is gone. -/
def goes (μ : Mark) (above : List Node.Kind) (b : Branch) : Bool :=
  μ above b || (rest μ above b).isEmptied

variable {μ : Mark} {above : List Node.Kind} {b c block : Branch} {p : Node.Kind → Bool}

@[simp] theorem kind_rest (μ : Mark) (above : List Node.Kind) (b : Branch) : (rest μ above b).kind = b.kind := rfl

@[simp] theorem id_rest (μ : Mark) (above : List Node.Kind) (b : Branch) : (rest μ above b).id = b.id := rfl

@[simp] theorem unmarked_rest (μ : Mark) (above : List Node.Kind) (b : Branch) :
    (rest μ above b).node.unmarked = b.node.unmarked := rfl

/-- A branch that is cut and swept is gone, or what is left of it is there. -/
theorem kept_cut_bind_clear (solid : μ.Solid) (nested : b.Nested) :
    ((cut (.pruning μ keep) above b).bind clear).kept = if goes μ above b then [] else [rest μ above b] := by
  cases marked : μ above b with
  | true =>
    rw [cut_marked (solid above b marked).2 marked, goes, marked]
    rfl
  | false =>
    have left : rest μ above b
        = ((each (cut (.pruning μ keep) (b.kind :: above)) b.children).bind clear).under b.node := swept_under _ _
    rw [cut_spared nested marked, wrap_bind_clear, goes, marked, Bool.false_or, left]
    split <;> rfl

theorem children_rest (solid : μ.Solid) (nested : b.Nested) :
    (rest μ above b).children
      = (b.children.filter (!goes μ (b.kind :: above) ·)).map (rest μ (b.kind :: above)) := by
  obtain ⟨n, cs⟩ := b
  have inside := nested_mk.1 nested
  have children : (rest μ above (mk n cs)).children
      = ((each (cut (.pruning μ keep) (n.kind :: above)) cs).bind clear).kept := rfl
  rw [children, bind_each, children_mk, kind_mk]
  clear children nested
  induction cs with
  | nil => rfl
  | cons c cs ih =>
    simp only [List.mem_cons, forall_eq_or_imp] at inside
    rw [each_cons, beside, kept_cut_bind_clear solid inside.1.2, ih inside.2]
    cases e : goes μ (n.kind :: above) c <;> simp [e]

/-- What pruning never takes out does not go. -/
theorem goes_eq_false (solid : μ.Solid) (fixed : b.kind.isPrunable = false) : goes μ above b = false := by
  rw [goes, Bool.or_eq_false_iff, Bool.eq_false_iff, Bool.eq_false_iff]
  refine ⟨fun marked => ?_, fun emptied => ?_⟩
  · rw [(solid above b marked).1] at fixed
    cases fixed
  · rw [← kind_rest μ above b, isPrunable_of_isEmptied emptied] at fixed
    cases fixed

/-- What is neither a rule nor an at-rule goes when it is marked. -/
theorem goes_eq_mark (other : b.kind.isRule = false ∧ b.kind.isAtRule = false) : goes μ above b = μ above b := by
  have full : (rest μ above b).isEmptied = false := by
    rw [isEmptied, kind_rest]
    cases k : b.kind <;> simp_all [Node.Kind.isRule, Node.Kind.isAtRule]
  rw [goes, full, Bool.or_false]

/-- Parts that pruning never takes out are found again. -/
theorem child?_rest (solid : μ.Solid) (nested : b.Nested) (fixed : ∀ k, p k = true → k.isPrunable = false) :
    (rest μ above b).child? p = (b.child? p).map (rest μ (b.kind :: above)) := by
  have stays (c : Branch) : ((!goes μ (b.kind :: above) c) = true ∧ p c.kind = true) ↔ p c.kind = true :=
    and_iff_right_of_imp fun e => by rw [goes_eq_false solid (fixed _ e)]; rfl
  rw [child?, child?, children_rest solid nested, List.find?_map, List.find?_filter]
  simp only [Function.comp_apply, kind_rest, stays, Bool.decide_eq_true]

theorem block?_rest (above : List Node.Kind) (solid : μ.Solid) (nested : b.Nested) :
    (rest μ above b).block? = b.block?.map (rest μ (b.kind :: above)) :=
  child?_rest solid nested fun _ block => (Node.Kind.isPrunable_eq_false_of_isBlock block).1

theorem selectorList?_rest (solid : μ.Solid) (nested : b.Nested) :
    (rest μ above b).selectorList? = b.selectorList?.map (rest μ (b.kind :: above)) :=
  child?_rest (p := (· = .selectorList)) solid nested fun k list => by simp_all [Node.Kind.isPrunable]

theorem Nested.child (h : b.Nested) (mem : c ∈ b.children) : c.Nested :=
  h.inside (mem_preorder.2 (.inr (mem_preorderAll_of_mem mem)))

/-- The selectors that are left. -/
theorem selectors_rest (solid : μ.Solid) (nested : b.Nested) :
    (rest μ above b).selectors
      = (b.selectors.filter (!goes μ (.selectorList :: b.kind :: above) ·)).map
        (rest μ (.selectorList :: b.kind :: above)) := by
  rw [selectors, selectors, selectorList?_rest solid nested]
  cases found : b.selectorList? with
  | none => rfl
  | some list =>
    obtain ⟨child, kind⟩ := mem_children_of_child? found
    have kind : list.kind = .selectorList := of_decide_eq_true kind
    simp only [Option.map_some, Option.getD_some]
    rw [children_rest solid (nested.child child), kind]

theorem hasContent_rest (above : List Node.Kind) (solid : μ.Solid) (nested : b.Nested) :
    (rest μ above b).hasContent = false
      ↔ ∀ c ∈ b.children, c.kind.isComment = false → goes μ (b.kind :: above) c = true := by
  rw [hasContent, children_rest solid nested, List.any_map, List.any_filter, List.any_eq_false]
  refine forall₂_congr fun c _ => ?_
  cases comment : c.kind.isComment <;> simp [comment]

/-! ## One after another -/

/-- What is left after one mark and then another is what both leave. -/
theorem rest_rest {ν : Mark} (hμ : μ.Regular) (hν : ν.Regular) (nested : b.Nested) :
    rest ν above (rest μ above b) = rest (μ.or ν) above b := by
  have keep_keep : (fun b => (keep b).bind keep) = keep := funext fun b => each_single keep b
  have nested' := (thinned_cutBelow (thins_pruning hμ airs_keep) above b).nested nested
  rw [rest, rest, swept_cutBelow_swept hν airs_keep nested', cutBelow_pruning hμ hν airs_keep nested, keep_keep]
  rfl

theorem rest_never (full : ∀ c ∈ b.preorder, c.isEmptied = false) : rest .never above b = b := by
  rw [rest, cutBelow_never, swept_eq_self full]

/-- Where no place is marked, nothing is. -/
theorem clean_of_places {above : List Node}
    (unmarked : ∀ l ∈ b.locate above, μ (l.above.map Node.kind) l.branch = false) :
    μ.Clean (above.map Node.kind) b := by
  induction b using induct generalizing above with
  | mk n cs ih =>
    refine .mk (unmarked ⟨above, mk n cs⟩ (mem_locate.2 (.inl rfl))) fun c mem => ?_
    exact @ih c mem (n :: above) fun l inside =>
      unmarked l (mem_locate.2 (.inr (mem_locateAll.2 ⟨c, mem, inside⟩)))

/-! ## What says nothing any more -/

theorem isEmptied_iff_of_rule (rule : b.kind = .rule) (found : b.block? = some block) :
    b.isEmptied = true ↔ b.selectors = [] ∨ block.hasContent = false := by
  rw [isEmptied, rule, isEmptyRule, selectors, found]
  cases b.selectorList? with
  | none => simp
  | some list => cases h : list.children <;> simp [h]

theorem isEmptied_iff_of_isAtRule (atRule : b.kind.isAtRule = true) :
    b.isEmptied = true ↔ ∃ block, b.block? = some block ∧ block.hasContent = false := by
  cases k : b.kind with
  | atRule name => simp [isEmptied, k, isEmptyAtRule, Option.any_eq_true]
  | _ =>
    rw [k] at atRule
    cases atRule

/-- A rule that says something has a block with content. -/
theorem exists_block (rule : b.kind = .rule) (full : b.isEmptied = false) : ∃ block, b.block? = some block := by
  rw [isEmptied, rule] at full
  simp only [isEmptyRule, Bool.not_eq_false', Bool.and_eq_true, Option.any_eq_true] at full
  obtain ⟨-, block, found, -⟩ := full
  exact ⟨block, found⟩

/-- A rule that says something has a selector. -/
theorem exists_selector (rule : b.kind = .rule) (full : b.isEmptied = false) : ∃ c, c ∈ b.selectors := by
  obtain ⟨block, found⟩ := exists_block rule full
  refine List.exists_mem_of_ne_nil _ fun none => ?_
  rw [(isEmptied_iff_of_rule rule found).2 (.inl none)] at full
  cases full

/-- What is left of a rule or at-rule says nothing any more if its selectors went or the content of its
block. -/
theorem isEmptied_rest_iff (above : List Node.Kind) (solid : μ.Solid) (nested : b.Nested) (full : b.isEmptied = false) :
    (rest μ above b).isEmptied = true
      ↔ (b.kind = .rule ∧ ∀ c ∈ b.selectors, goes μ (.selectorList :: b.kind :: above) c = true)
        ∨ (b.kind.isRule ∨ b.kind.isAtRule) ∧ ∃ block, b.block? = some block
          ∧ ∀ c ∈ block.children, c.kind.isComment = false → goes μ (block.kind :: b.kind :: above) c = true := by
  have blocks := block?_rest above solid nested
  have content {block : Branch} (found : b.block? = some block) :=
    hasContent_rest (b.kind :: above) solid (nested.child (mem_children_of_child? found).1)
  cases k : b.kind with
  | rule =>
    obtain ⟨block, found⟩ := exists_block k full
    have found' : (rest μ above b).block? = some (rest μ (b.kind :: above) block) := by rw [blocks, found]; rfl
    rw [isEmptied_iff_of_rule (b := rest μ above b) k found', content found, selectors_rest solid nested,
      List.map_eq_nil_iff, List.filter_eq_nil_iff, k]
    simp [found, Node.Kind.isRule]
  | atRule name =>
    have atRule : (rest μ above b).kind.isAtRule = true := by rw [kind_rest, k]; rfl
    rw [isEmptied_iff_of_isAtRule atRule, blocks]
    constructor
    · rintro ⟨_, e, empty⟩
      obtain ⟨block, found, rfl⟩ := Option.map_eq_some_iff.1 e
      exact .inr ⟨.inr rfl, block, found, k ▸ (content found).1 empty⟩
    · rintro (⟨rule, -⟩ | ⟨-, block, found, goes⟩)
      · cases rule
      · exact ⟨_, Option.map_eq_some_iff.2 ⟨block, found, rfl⟩, (content found).2 (k ▸ goes)⟩
  | _ => simp [isEmptied, k, Node.Kind.isRule, Node.Kind.isAtRule]

end Branch

/-! ## What goes is what falls -/

namespace Tree

variable {t : Tree} {μ : Mark} {chosen : Set Nat} {l : Located} {b block c : Branch}

theorem Numbered.mem_taken (h : t.Numbered) (place : l ∈ t.sheet.locate []) :
    l.branch.id ∈ t.taken μ ↔ μ (l.above.map Node.kind) l.branch = true := by
  constructor
  · rintro ⟨l', place', marked, same⟩
    exact h.place_unique place' place same ▸ marked
  · exact fun marked => ⟨l, place, marked, rfl⟩

/-- A mark and one sweep take out what falls with the marked nodes, and nothing else. -/
theorem Numbered.goes_iff (h : t.Numbered) (nested : t.sheet.Nested) (full : ∀ b ∈ t.attached, b.isEmptied = false)
    (solid : μ.Solid) (place : l ∈ t.sheet.locate []) :
    goes μ (l.above.map Node.kind) l.branch = true ↔ t.Falls (t.taken μ) l.branch.id := by
  have emptied {l : Located} (place : l ∈ t.sheet.locate []) :=
    isEmptied_rest_iff (l.above.map Node.kind) solid (nested.inside (mem_attached_of_place place))
      (full _ (mem_attached_of_place place))
  constructor
  · -- by induction on the branch; what a rule or at-rule goes by stands two levels below it
    have inside : ∀ c ∈ l.branch.preorder, ∀ l ∈ t.sheet.locate [], l.branch = c →
        goes μ (l.above.map Node.kind) l.branch = true → t.Falls (t.taken μ) l.branch.id := by
      induction l.branch using Branch.induct with
      | mk n cs ih =>
        intro c mem
        rcases mem_preorder.1 mem with rfl | mem
        · intro l place e gone
          have deeper : ∀ d ∈ l.branch.children, ∀ c ∈ d.children,
              goes μ (d.kind :: l.branch.kind :: l.above.map Node.kind) c = true → t.Falls (t.taken μ) c.id := by
            intro d hd c child
            have place := place_child (place_child place hd) child
            rw [e] at hd
            exact ih d hd c (mem_preorder.2 (.inr (mem_preorderAll_of_mem child))) _ place rfl
          rw [goes, Bool.or_eq_true] at gone
          rcases gone with marked | empty
          · exact .chosen ⟨l, place, marked, rfl⟩
          · rcases (emptied place).1 empty with ⟨rule, selectors⟩ | ⟨statement, block, found, content⟩
            · refine .unselected (mem_attached_of_place place) rule fun c mem => ?_
              obtain ⟨list, hd, kind, child⟩ := mem_selectors mem
              exact deeper list hd c child (kind ▸ selectors c mem)
            · refine .hollow (mem_attached_of_place place) statement found fun c child solid => ?_
              exact deeper block (mem_children_of_child? found).1 c child (content c child solid)
        · obtain ⟨d, hd, inside⟩ := mem_preorderAll.1 mem
          exact ih d hd c inside
    exact inside _ (self_mem_preorder _) l place rfl
  · intro falls
    generalize e : l.branch.id = i at falls
    induction falls generalizing l with
    | chosen mem =>
      subst e
      rw [goes, (h.mem_taken place).1 mem, Bool.true_or]
    | unselected attached rule _ ih =>
      obtain ⟨l', place', rfl⟩ := exists_place attached
      obtain rfl := h.place_unique place place' e
      have empty := (emptied place).2 (.inl ⟨rule, fun c mem => ?_⟩)
      · rw [goes, empty, Bool.or_true]
      · obtain ⟨list, hd, kind, child⟩ := mem_selectors mem
        rw [← kind]
        exact ih c mem (place_child (place_child place hd) child) rfl
    | hollow attached statement found _ ih =>
      obtain ⟨l', place', rfl⟩ := exists_place attached
      obtain rfl := h.place_unique place place' e
      have empty := (emptied place).2 (.inr ⟨statement, _, found, fun c child solid => ?_⟩)
      · rw [goes, empty, Bool.or_true]
      · exact ih c child solid (place_child (place_child place (mem_children_of_child? found).1) child) rfl

/-! ## The places that are left -/

/-- A place, and the same place after what falls is gone. -/
structure Left (μ : Mark) (l l' : Located) : Prop where
  above : l'.above.map Node.unmarked = l.above.map Node.unmarked
  branch : l'.branch = rest μ (l.above.map Node.kind) l.branch

theorem Left.path {l' : Located} (left : Left μ l l') : l'.path = l.path := by
  simp only [Located.path, List.map_cons, left.above, left.branch, unmarked_rest]

theorem map_path_of_left {places places' : List Located} (left : List.Forall₂ (Left μ) places places') :
    places'.map Located.path = places.map Located.path :=
  map_of_forall₂ left fun _ _ _ left => left.path

theorem Left.kinds {l' : Located} (left : Left μ l l') : l'.above.map Node.kind = l.above.map Node.kind := by
  have kinds (ns : List Node) : ns.map Node.kind = (ns.map Node.unmarked).map Node.kind := by
    rw [List.map_map]
    rfl
  rw [kinds, left.above, ← kinds]

/-- Of a branch that stays, the places that stay are left, one by one. -/
theorem Numbered.left_locate (h : t.Numbered) (nested : t.sheet.Nested)
    (full : ∀ b ∈ t.attached, b.isEmptied = false) (solid : μ.Solid) {up up' : List Node}
    (place : ⟨up, b⟩ ∈ t.sheet.locate []) (stays : t.Stays (t.taken μ) ⟨up, b⟩)
    (same : up'.map Node.unmarked = up.map Node.unmarked) :
    List.Forall₂ (Left μ) (t.staying (t.taken μ) (b.locate up)) ((rest μ (up.map Node.kind) b).locate up') := by
  induction b using Branch.induct generalizing up up' with
  | mk n cs ih =>
    have nestedHere := nested.inside (mem_attached_of_place place)
    obtain ⟨n', left⟩ : ∃ n', rest μ (up.map Node.kind) (Branch.mk n cs)
        = Branch.mk n' ((cs.filter (!goes μ ((n :: up).map Node.kind) ·)).map (rest μ ((n :: up).map Node.kind))) :=
      ⟨_, congrArg (Branch.mk _) (children_rest solid nestedHere)⟩
    have here : n'.unmarked = n.unmarked := by
      have := unmarked_rest μ (up.map Node.kind) (Branch.mk n cs)
      rwa [left] at this
    have children : ∀ ds : List Branch, (∀ d ∈ ds, d ∈ cs) →
        List.Forall₂ (Left μ) (t.staying (t.taken μ) (locateAll (n :: up) ds))
          (locateAll (n' :: up')
            ((ds.filter (!goes μ ((n :: up).map Node.kind) ·)).map (rest μ ((n :: up).map Node.kind)))) := by
      intro ds inside
      induction ds with
      | nil => exact .nil
      | cons d ds ih' =>
        simp only [List.mem_cons, forall_eq_or_imp] at inside
        have placed : ⟨n :: up, d⟩ ∈ t.sheet.locate [] := place_child place inside.1
        have falls := h.goes_iff nested full solid placed
        rw [locateAll, staying_append]
        cases gone : goes μ ((n :: up).map Node.kind) d with
        | true =>
          rw [staying_locate_eq_nil (falls.1 gone), List.filter_cons_of_neg (by rw [gone]; decide)]
          exact ih' inside.2
        | false =>
          rw [List.filter_cons_of_pos (by rw [gone]; rfl), List.map_cons, locateAll]
          refine List.rel_append (ih d inside.1 placed ?_ ?_) (ih' inside.2)
          · intro m mem
            rcases List.mem_cons.1 mem with rfl | mem
            · exact fun fallen => Bool.false_ne_true (gone.symm.trans (falls.2 fallen))
            · exact stays m mem
          · rw [List.map_cons, List.map_cons, here, same]
    have top : t.staying (t.taken μ) ((Branch.mk n cs).locate up)
        = ⟨up, Branch.mk n cs⟩ :: t.staying (t.taken μ) (locateAll (n :: up) cs) := by
      rw [locate, staying, List.filter_cons_of_pos (by simpa using stays)]
      rfl
    rw [top, left, locate, ← left]
    exact .cons ⟨same, rfl⟩ (children cs fun _ mem => mem)

/-- The root does not fall. -/
theorem Numbered.not_falls_root (h : t.Numbered) (nested : t.sheet.Nested)
    (full : ∀ b ∈ t.attached, b.isEmptied = false) (solid : μ.Solid) (root : t.sheet.kind = .styleSheet) :
    ¬ t.Falls (t.taken μ) t.sheet.id := by
  have place : ⟨[], t.sheet⟩ ∈ t.sheet.locate [] := mem_locate.2 (.inl rfl)
  rw [← h.goes_iff nested full solid place, goes_eq_false solid (by rw [root]; rfl)]
  exact Bool.false_ne_true

/-- **What is left of a style sheet**, when what is marked and then what says nothing any more is gone, are
the places at which nothing falls, in the order they were in. -/
theorem Numbered.left (h : t.Numbered) (nested : t.sheet.Nested) (full : ∀ b ∈ t.attached, b.isEmptied = false)
    (solid : μ.Solid) (root : t.sheet.kind = .styleSheet) :
    List.Forall₂ (Left μ) (t.staying (t.taken μ) (t.sheet.locate [])) ((rest μ [] t.sheet).locate []) := by
  refine h.left_locate nested full solid (mem_locate.2 (.inl rfl)) ?_ rfl
  intro n mem
  obtain rfl := List.mem_singleton.1 mem
  exact h.not_falls_root nested full solid root

end Tree

/-! ## What a walk counts -/

/-- The places that are marked. -/
def Branch.Located.isMarked (μ : Mark) (l : Located) : Bool := μ (l.above.map Node.kind) l.branch

namespace Mark

variable {μ : Mark}

/-- Below what is marked nothing is. -/
def Lone (μ : Mark) : Prop :=
  ∀ (above : List Node) (b : Branch), b.Nested → μ (above.map Node.kind) b = true →
    ∀ l ∈ locateAll (b.node :: above) b.children, l.isMarked μ = false

/-- Declarations and selectors hold nothing that can be marked. -/
theorem Solid.lone (solid : μ.Solid)
    (closed : ∀ above b, μ above b = true → b.kind.isDeclaration = true ∨ b.kind.isSelector = true) : μ.Lone :=
  fun _ _ nested marked _ mem =>
    solid.eq_false_of_isPlain (nested.isPlain_below (closed _ _ marked) _ (Located.branch_mem mem))

end Mark

namespace Branch

variable {v : Visitor} {reached : List Node → Prop} {μ : Mark}

mutual

theorem count_walk (obeys : v.Obeys reached μ) (lone : μ.Lone) :
    ∀ (b : Branch) (above : List Node) (before after : List Branch) (trail : Trail),
      above ≠ [] → reached above → b.Nested →
      (b.walk v above before after trail).trail.bereft.length
        = trail.bereft.length + (b.locate above).countP (Located.isMarked μ)
  | mk n cs, above, before, after, trail, below, here, nested => by
    obtain ⟨m, above, rfl⟩ := List.exists_cons_of_ne_nil below
    rcases obeys ⟨m :: above, before, mk n cs, after⟩ here nested with
      ⟨answer, unmarked, deeper⟩ | ⟨answer, clean⟩ | ⟨answer, marked⟩
    · have children := count_walkAll obeys lone cs (n :: m :: above) []
        { trail with visited := mk n cs :: trail.visited } (by simp) deeper fun c mem => (nested_mk.1 nested c mem).2
      simp only [Branch.walk, answer]
      rw [children, locate, List.countP_cons_of_neg (by simpa [Located.isMarked] using unmarked)]
    · simp only [Branch.walk, answer]
      have none : ((mk n cs).locate (m :: above)).countP (Located.isMarked μ) = 0 := by
        rw [List.countP_eq_zero]
        intro l mem
        simpa [Located.isMarked] using clean.unmarked l mem
      rw [none]
      rfl
    · have none : (locateAll (n :: m :: above) cs).countP (Located.isMarked μ) = 0 := by
        rw [List.countP_eq_zero]
        intro l mem
        rw [lone _ _ nested marked l mem]
        exact Bool.false_ne_true
      simp only [Branch.walk, answer]
      rw [locate, List.countP_cons_of_pos (by simpa [Located.isMarked] using marked), none]
      rfl

theorem count_walkAll (obeys : v.Obeys reached μ) (lone : μ.Lone) :
    ∀ (bs : List Branch) (above : List Node) (before : List Branch) (trail : Trail),
      above ≠ [] → reached above → (∀ b ∈ bs, b.Nested) →
      (walkAll v above before bs trail).trail.bereft.length
        = trail.bereft.length + (locateAll above bs).countP (Located.isMarked μ)
  | [], _, _, _, _, _, _ => rfl
  | b :: bs, above, before, trail, below, here, nested => by
    simp only [List.mem_cons, forall_eq_or_imp] at nested
    have first := count_walk obeys lone b above before bs trail below here nested.1
    have later := count_walkAll obeys lone bs above
      ((b.walk v above before bs trail).branches.reverse ++ before) (b.walk v above before bs trail).trail below here
      nested.2
    rw [walkAll, locateAll, List.countP_append]
    exact later.trans (by rw [first, Nat.add_assoc])

end

end Branch

/-! ## Passes that take out what is marked -/

namespace Visitor

theorem removes_uncritical (critical : List String) : (Prune.uncritical critical).Removes := by
  intro site
  unfold Prune.uncritical
  split
  next => split <;> simp
  next => split <;> simp
  all_goals simp

theorem removes_declarations (drop : Branch → Bool) : (Prune.declarations drop).Removes := by
  intro site
  unfold Prune.declarations
  split
  next => split <;> simp
  all_goals simp

end Visitor

namespace Tree

variable {t : Tree} {v : Visitor} {reached : List Node → Prop} {μ : Mark}

/-- What a walk does that takes out what is marked. -/
structure TakesOut (μ : Mark) (t : Tree) (w : Walked) : Prop where
  sheet : w.tree.sheet = rest μ [] t.sheet
  full : ∀ b ∈ w.tree.attached, b.isEmptied = false
  count : w.removed = (t.sheet.locate []).countP (Located.isMarked μ)

theorem Numbered.takesOut (h : t.Numbered) (nested : t.sheet.Nested) (full : ∀ b ∈ t.attached, b.isEmptied = false)
    (solid : μ.Solid) (root : t.sheet.kind = .styleSheet) (lone : μ.Lone)
    (obeys : v.Obeys reached μ) (removes : v.Removes) (descends : v ⟨[], [], t.sheet, []⟩ = .descend)
    (here : reached [t.sheet.node]) : t.TakesOut μ (t.walk v) := by
  obtain ⟨sheet, -, -, nothing⟩ := h.walk_eq_removeEmptied removes root full
  obtain ⟨-, e⟩ := h.walk_eq v
  refine ⟨?_, nothing, ?_⟩
  · rw [sheet, removeEmptied_sheet, unsettled_of_obeys obeys solid nested descends here]
    rfl
  · rw [e]
    have walked : t.passed v = t.sheet.walk v [] [] [] (.start t.size) := rfl
    rw [walked]
    generalize t.sheet = sheet at nested descends here root
    obtain ⟨n, cs⟩ := sheet
    have children := count_walkAll obeys lone cs [n] []
      { Trail.start t.size with visited := [Branch.mk n cs] } (by simp) here fun c mem => (nested_mk.1 nested c mem).2
    have top : μ [] (Branch.mk n cs) = false := by
      rw [Bool.eq_false_iff]
      intro marked
      have kind := (solid _ _ marked).1
      rw [root] at kind
      cases kind
    simp only [Branch.walk, descends]
    rw [locate, List.countP_cons_of_neg (by simpa [Located.isMarked] using top)]
    exact children.trans (Nat.zero_add _)

end Tree

end AboveFold
