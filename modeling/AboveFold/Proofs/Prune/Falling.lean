import AboveFold.Proofs.Prune.Marks
import AboveFold.Proofs.Tree.Recasting
import AboveFold.Proofs.Tree.Removal
import Mathlib.Data.List.Nodup
import Mathlib.Data.Set.Basic

/-!
# What falls

When nodes are taken out of a style sheet, a rule of which no selector is left falls with them, and so does
a rule or at-rule of which no content is left, and this may go on upwards. `Tree.Falls` is the least set of
nodes that is closed under this. In a tree that keeps to the grammar, what does not fall by itself has
nothing above it that falls (`Tree.Numbered.stays_of_not_falls`).
-/

namespace AboveFold
open Branch

/-- The nodes that go with the nodes `chosen`: these themselves, the rules of which every selector goes,
and the rules and at-rules with a block of which everything goes but comments. -/
inductive Tree.Falls (t : Tree) (chosen : Set Nat) : Nat → Prop
  | chosen {i : Nat} (mem : i ∈ chosen) : Falls t chosen i
  | unselected {b : Branch} (attached : b ∈ t.attached) (rule : b.kind = .rule)
      (selectors : ∀ c ∈ b.selectors, Falls t chosen c.id) : Falls t chosen b.id
  | hollow {b block : Branch} (attached : b ∈ t.attached) (statement : b.kind.isRule ∨ b.kind.isAtRule)
      (found : b.block? = some block)
      (content : ∀ c ∈ block.children, c.kind.isComment = false → Falls t chosen c.id) : Falls t chosen b.id

/-- A place at which neither the branch falls nor a node above it. -/
def Tree.Stays (t : Tree) (chosen : Set Nat) (l : Located) : Prop :=
  ∀ n ∈ l.branch.node :: l.above, ¬ t.Falls chosen n.id

/-- A node as it was before it was marked. -/
def Node.unmarked (n : Node) : Node := { n with modified := false }

/-- The node at a place and the nodes above it, apart from marks. -/
def Branch.Located.path (l : Located) : List Node := (l.branch.node :: l.above).map Node.unmarked

namespace Branch

variable {b c : Branch} {p : Node.Kind → Bool}

theorem mem_children_of_child? (found : b.child? p = some c) : c ∈ b.children ∧ p c.kind = true := by
  rw [child?] at found
  exact ⟨List.mem_of_find?_eq_some found, List.find?_some (p := fun c : Branch => p c.kind) found⟩

/-- The selectors of a rule are what its list of selectors holds. -/
theorem mem_selectors (mem : c ∈ b.selectors) :
    ∃ list ∈ b.children, list.kind = .selectorList ∧ c ∈ list.children := by
  unfold selectors at mem
  cases found : b.selectorList? with
  | none => simp [found] at mem
  | some list =>
    obtain ⟨child, kind⟩ := mem_children_of_child? found
    simp only [found, Option.map_some, Option.getD_some] at mem
    exact ⟨list, child, of_decide_eq_true kind, mem⟩

end Branch

namespace Tree

variable {t : Tree} {chosen chosen' : Set Nat} {i : Nat} {l : Located} {b c : Branch}

theorem Falls.mono (sub : chosen ⊆ chosen') (h : t.Falls chosen i) : t.Falls chosen' i := by
  induction h with
  | chosen mem => exact .chosen (sub mem)
  | unselected attached rule _ ih => exact .unselected attached rule ih
  | hollow attached statement found _ ih => exact .hollow attached statement found ih

theorem Stays.mono (sub : chosen ⊆ chosen') (h : t.Stays chosen' l) : t.Stays chosen l :=
  fun n mem falls => h n mem (falls.mono sub)

/-! ## Places -/

theorem mem_attached_of_place (place : l ∈ t.sheet.locate []) : l.branch ∈ t.attached := by
  rw [Tree.attached, ← locate_branch []]
  exact List.mem_map_of_mem place

theorem exists_place (attached : b ∈ t.attached) : ∃ l ∈ t.sheet.locate [], l.branch = b := by
  rw [Tree.attached, ← locate_branch []] at attached
  exact List.mem_map.1 attached

theorem place_child (place : l ∈ t.sheet.locate []) (child : c ∈ l.branch.children) :
    ⟨l.branch.node :: l.above, c⟩ ∈ t.sheet.locate [] := by
  have located {l : Located} : l ∈ t.sheet.locate [] ↔ l ∈ locateAll [] [t.sheet] := by simp [mem_locateAll]
  exact located.2 (Located.child_mem (located.1 place) child)

theorem Numbered.attached_unique (h : t.Numbered) (hb : b ∈ t.attached) (hc : c ∈ t.attached) (e : b.id = c.id) :
    b = c :=
  h.unique (mem_branches.2 (.inl hb)) (mem_branches.2 (.inl hc)) e

/-- No node has two places. -/
theorem Numbered.place_unique (h : t.Numbered) {l' : Located} (place : l ∈ t.sheet.locate [])
    (place' : l' ∈ t.sheet.locate []) (same : l.branch.id = l'.branch.id) : l = l' := by
  have ids : (t.sheet.locate []).map (fun l => l.branch.id) = t.sheet.ids := by
    rw [Branch.ids, ← locate_branch [] t.sheet, List.map_map]
    rfl
  exact List.inj_on_of_nodup_map (ids ▸ h.sheet_ids_nodup) place place' same

/-- Each selector of a rule has its place below a list of selectors. -/
theorem exists_place_selector (nested : t.sheet.Nested) (place : l ∈ t.sheet.locate [])
    (mem : c ∈ l.branch.selectors) : ∃ list : Node, list.kind = .selectorList
      ∧ ⟨list :: l.branch.node :: l.above, c⟩ ∈ t.sheet.locate [] ∧ c.kind.isSelector = true := by
  obtain ⟨list, inside, kind, child⟩ := mem_selectors mem
  have placed := place_child place inside
  have holds := nested list (mem_attached_of_place placed) c child
  rw [kind] at holds
  exact ⟨list.node, kind, place_child placed child, holds⟩

open Classical in
/-- The places at which nothing falls, in document order. -/
noncomputable def staying (t : Tree) (chosen : Set Nat) (places : List Located) : List Located :=
  places.filter fun l => decide (t.Stays chosen l)

theorem mem_staying {places : List Located} : l ∈ t.staying chosen places ↔ l ∈ places ∧ t.Stays chosen l := by
  simp [staying]

theorem staying_append (places places' : List Located) :
    t.staying chosen (places ++ places') = t.staying chosen places ++ t.staying chosen places' := by
  simp [staying]

/-- Below a node that falls nothing stays. -/
theorem staying_locate_eq_nil {above : List Node} (falls : t.Falls chosen b.id) :
    t.staying chosen (b.locate above) = [] := by
  rw [List.eq_nil_iff_forall_not_mem]
  intro l mem
  obtain ⟨mem, stays⟩ := mem_staying.1 mem
  refine stays b.node ?_ falls
  rcases Located.node_mem_above mem with here | deeper
  · exact here ▸ List.mem_cons_self ..
  · exact List.mem_cons_of_mem _ deeper

end Tree

/-! ## What a fall needs -/

namespace Node.Kind

variable {k c : Kind} {cs : List Kind}

/-- What is neither plain nor a selector is held by style sheets, blocks, rules and at-rules. -/
theorem Composes.isContainer (h : k.Composes cs) (mem : c ∈ cs) (solid : c.isPlain = false)
    (other : c.isSelector = false) : k.isContainer = true := by
  cases container : k.isContainer with
  | true => rfl
  | false =>
    rcases canHold_of_isContainer_eq_false container (canHold_of_composes h c mem) with plain | selector
    · rw [plain] at solid
      cases solid
    · rw [selector] at other
      cases other

/-- Rules and at-rules hold a frame: one part that is no block, and then a block. -/
theorem Composes.frame (h : k.Composes cs) (statement : k.isRule = true ∨ k.isAtRule = true) :
    ∃ part contents, (part = selectorList ∨ part = prelude) ∧ cs.Sublist [part, block contents] := by
  cases k with
  | rule =>
    obtain rfl : cs = [selectorList, block .declarations] := h
    exact ⟨_, _, .inl rfl, .refl _⟩
  | atRule name => exact ⟨_, _, .inr rfl, h⟩
  | _ => simp [isRule, isAtRule] at statement

/-- Rules, at-rules and declarations stand in blocks and at the top. -/
theorem Composes.holds_statement (h : k.Composes cs) (mem : c ∈ cs) (statement : c.isStatement = true) :
    k = styleSheet ∨ k.isBlock = true := by
  have container : k.isContainer = true := by
    apply h.isContainer mem <;> cases c <;> first | rfl | cases statement
  cases k with
  | styleSheet => exact .inl rfl
  | block _ => exact .inr rfl
  | rule | atRule _ =>
    obtain ⟨part, contents, known, sub⟩ := h.frame (by simp [isRule, isAtRule])
    have := sub.subset mem
    simp only [List.mem_cons, List.not_mem_nil, or_false] at this
    rcases this with rfl | rfl
    · rcases known with rfl | rfl <;> cases statement
    · cases statement
  | _ => cases container

/-- Blocks belong to rules and at-rules, which have one at most. -/
theorem Composes.holds_block (h : k.Composes cs) (mem : c ∈ cs) (block : c.isBlock = true) :
    (k.isRule = true ∨ k.isAtRule = true) ∧ cs.filter isBlock = [c] := by
  have container : k.isContainer = true := by
    apply h.isContainer mem <;> cases c <;> first | rfl | cases block
  have only (statement : k.isRule = true ∨ k.isAtRule = true) : cs.filter isBlock = [c] := by
    obtain ⟨part, contents, known, sub⟩ := h.frame statement
    have other : part.isBlock = false := by rcases known with rfl | rfl <;> rfl
    have blocks := sub.filter isBlock
    rw [List.filter_cons_of_neg (by simp [other])] at blocks
    have here : c ∈ cs.filter isBlock := List.mem_filter.2 ⟨mem, block⟩
    rcases List.sublist_singleton.1 blocks with none | one
    · rw [none] at here
      cases here
    · rw [one] at here ⊢
      rw [List.mem_singleton.1 here]
  cases k with
  | rule => exact ⟨.inl rfl, only (.inl rfl)⟩
  | atRule name => exact ⟨.inr rfl, only (.inr rfl)⟩
  | styleSheet =>
    have entry : c.isEntry = true := h c mem
    cases c <;> simp_all [isBlock, isEntry]
  | block contents =>
    have entry : c.isEntry = true ∨ c.isDeclaration = true := by
      cases contents with
      | rules => exact .inl (h c mem)
      | declarations => exact h c mem
    cases c <;> simp_all [isBlock, isEntry, isDeclaration]
  | _ => cases container

/-- Style sheets stand nowhere but at the top. -/
theorem Composes.styleSheet_not_mem (h : k.Composes cs) : styleSheet ∉ cs := by
  intro mem
  have container := h.isContainer mem rfl rfl
  cases k with
  | styleSheet => cases h _ mem
  | block contents =>
    cases contents with
    | rules => cases h _ mem
    | declarations => simpa [isEntry, isDeclaration] using h _ mem
  | rule | atRule _ =>
    obtain ⟨part, contents, known, sub⟩ := h.frame (by simp [isRule, isAtRule])
    have := sub.subset mem
    rcases known with rfl | rfl <;> simp at this
  | _ => cases container

end Node.Kind

namespace Tree

variable {t : Tree} {chosen : Set Nat} {l p : Located} {b c : Branch}

/-- What a node falls by. -/
theorem Numbered.falls_cases (h : t.Numbered) (attached : b ∈ t.attached) (falls : t.Falls chosen b.id) :
    b.id ∈ chosen ∨ (b.kind = .rule ∧ ∀ c ∈ b.selectors, t.Falls chosen c.id)
      ∨ (b.kind.isRule ∨ b.kind.isAtRule) ∧ ∃ block, b.block? = some block
        ∧ ∀ c ∈ block.children, c.kind.isComment = false → t.Falls chosen c.id := by
  have unique {c : Branch} (here : c ∈ t.attached) (same : c.id = b.id) : c = b :=
    h.attached_unique here attached same
  generalize e : b.id = i at falls
  cases falls with
  | chosen mem => exact .inl mem
  | unselected here rule selectors =>
    obtain rfl := unique here e.symm
    exact .inr (.inl ⟨rule, selectors⟩)
  | hollow here statement found content =>
    obtain rfl := unique here e.symm
    exact .inr (.inr ⟨statement, _, found, content⟩)

/-- Nothing but rules and at-rules falls without being chosen. -/
theorem Numbered.not_falls (h : t.Numbered) (attached : b ∈ t.attached) (spared : b.id ∉ chosen)
    (other : b.kind.isRule = false ∧ b.kind.isAtRule = false) : ¬ t.Falls chosen b.id := by
  intro falls
  rcases h.falls_cases attached falls with mem | ⟨rule, -⟩ | ⟨statement, -⟩
  · exact spared mem
  · rw [rule] at other
    cases other.1
  · simp [other] at statement

/-- A place other than the top is that of a child. -/
theorem place_cases (place : l ∈ t.sheet.locate []) :
    l = ⟨[], t.sheet⟩ ∨ ∃ p ∈ t.sheet.locate [], l.above = p.branch.node :: p.above ∧ l.branch ∈ p.branch.children :=
  locate_cases t.sheet [] l place

theorem block?_eq_some (formed : b.Formed) (child : c ∈ b.children) (block : c.kind.isBlock = true) :
    (b.kind.isRule = true ∨ b.kind.isAtRule = true) ∧ b.block? = some c := by
  obtain ⟨statement, only⟩ := formed.composes.holds_block (List.mem_map_of_mem child) block
  refine ⟨statement, ?_⟩
  have one : (b.children.filter (·.kind.isBlock)).length = 1 := by
    rw [List.filter_map, List.map_eq_singleton_iff] at only
    obtain ⟨d, e, -⟩ := only
    exact congrArg List.length e
  obtain ⟨d, e⟩ := List.length_eq_one_iff.1 one
  have here : c ∈ b.children.filter (·.kind.isBlock) := List.mem_filter.2 ⟨child, block⟩
  rw [e, List.mem_singleton] at here
  rw [block?, child?, ← List.head?_filter, e, here]
  rfl

/-- A rule or at-rule does not fall if it keeps some content and, if it is a rule, some selector. -/
theorem Numbered.not_falls_of_content (h : t.Numbered) (attached : b ∈ t.attached) (spared : b.id ∉ chosen)
    {block : Branch} (found : b.block? = some block)
    (content : ∃ c ∈ block.children, c.kind.isComment = false ∧ ¬ t.Falls chosen c.id)
    (selected : b.kind = .rule → ∃ c ∈ b.selectors, ¬ t.Falls chosen c.id) : ¬ t.Falls chosen b.id := by
  intro falls
  rcases h.falls_cases attached falls with mem | ⟨rule, selectors⟩ | ⟨-, block', found', all⟩
  · exact spared mem
  · obtain ⟨c, mem, stands⟩ := selected rule
    exact stands (selectors c mem)
  · obtain rfl := Option.some.inj (found.symm.trans found')
    obtain ⟨c, mem, solid, stands⟩ := content
    exact stands (all c mem solid)

/-- The place `l` is in the block of the rule or at-rule at the place `p`. -/
structure InBlock (t : Tree) (p : Located) (block : Branch) (l : Located) : Prop where
  place : p ∈ t.sheet.locate []
  holder : p.branch.kind.isRule = true ∨ p.branch.kind.isAtRule = true
  found : p.branch.block? = some block
  above : l.above = block.node :: p.branch.node :: p.above
  child : l.branch ∈ block.children

theorem InBlock.attached_isBlock {block : Branch} (inside : t.InBlock p block l) :
    block ∈ t.attached ∧ block.kind.isBlock = true := by
  obtain ⟨child, isBlock⟩ := mem_children_of_child? inside.found
  exact ⟨mem_attached_of_place (place_child inside.place child), isBlock⟩

/-- A rule, at-rule or declaration stands at the top of the style sheet, or in the block of a rule or
at-rule. -/
theorem statement_cases (root : t.sheet.kind = .styleSheet) (formed : ∀ b ∈ t.attached, b.Formed)
    (place : l ∈ t.sheet.locate []) (statement : l.branch.kind.isStatement = true) :
    l.above = [t.sheet.node] ∨ ∃ p block, t.InBlock p block l := by
  have composes {p : Located} (place : p ∈ t.sheet.locate []) :
      p.branch.kind.Composes (p.branch.children.map kind) :=
    (formed _ (mem_attached_of_place place)).composes
  rcases place_cases place with rfl | ⟨p, hp, up, child⟩
  · rw [root] at statement
    cases statement
  · rcases (composes hp).holds_statement (List.mem_map_of_mem child) statement with sheet | block
    · rcases place_cases hp with rfl | ⟨q, hq, -, below⟩
      · exact .inl up
      · exact absurd (sheet ▸ List.mem_map_of_mem below) (composes hq).styleSheet_not_mem
    · rcases place_cases hp with rfl | ⟨q, hq, up', below⟩
      · rw [root] at block
        cases block
      · obtain ⟨holder, found⟩ := block?_eq_some (formed _ (mem_attached_of_place hq)) below block
        exact .inr ⟨q, _, hq, holder, found, up.trans (congrArg _ up'), child⟩

/-- Nothing but declarations and selectors is chosen. -/
def Loosens (t : Tree) (chosen : Set Nat) : Prop :=
  ∀ b ∈ t.attached, b.id ∈ chosen → b.kind.isDeclaration = true ∨ b.kind.isSelector = true

theorem Loosens.spares (h : t.Loosens chosen) (attached : b ∈ t.attached)
    (other : b.kind.isDeclaration = false) (other' : b.kind.isSelector = false) : b.id ∉ chosen := by
  intro mem
  rcases h b attached mem with kind | kind
  · rw [kind] at other
    cases other
  · rw [kind] at other'
    cases other'

/-- If nothing above is chosen and every rule above keeps a selector, a rule, at-rule or declaration that does not
fall stays, since all above it has content. -/
theorem Numbered.stays_of_spared (h : t.Numbered) (root : t.sheet.kind = .styleSheet)
    (formed : ∀ b ∈ t.attached, b.Formed) (place : l ∈ t.sheet.locate []) (statement : l.branch.kind.isStatement = true)
    (stands : ¬ t.Falls chosen l.branch.id)
    (spared : ∀ p ∈ t.sheet.locate [], p.branch.node ∈ l.above → p.branch.kind.isDeclaration = false →
      p.branch.kind.isSelector = false → p.branch.id ∉ chosen)
    (selected : ∀ p ∈ t.sheet.locate [], p.branch.node ∈ l.above → p.branch.kind = .rule →
      ∃ c ∈ p.branch.selectors, ¬ t.Falls chosen c.id) : t.Stays chosen l := by
  -- two levels at a time
  induction e : l.above.length using Nat.strong_induction_on generalizing l with
  | _ k ih =>
    rcases statement_cases root formed place statement with top | ⟨q, b, inside⟩
    · have sheet : ¬ t.Falls chosen t.sheet.id := by
        have here : ⟨[], t.sheet⟩ ∈ t.sheet.locate [] := mem_locate.2 (.inl rfl)
        refine h.not_falls (mem_attached_of_place here) (spared _ here (by rw [top]; simp) ?_ ?_) ?_ <;> rw [root]
        · rfl
        · rfl
        · exact ⟨rfl, rfl⟩
      rw [Stays, top]
      simp only [List.mem_cons, List.not_mem_nil, or_false, forall_eq_or_imp, forall_eq]
      exact ⟨stands, sheet⟩
    · obtain ⟨hb, block⟩ := inside.attached_isBlock
      obtain ⟨hq, holder, found, up, child⟩ := inside
      have solid : l.branch.kind.isComment = false := by
        cases k : l.branch.kind <;> rw [k] at statement <;> first | rfl | cases statement
      have middle : ¬ t.Falls chosen b.id := by
        have placed := place_child hq (mem_children_of_child? found).1
        refine h.not_falls hb (spared _ placed (by rw [up]; simp) ?_ ?_) ?_ <;> cases k : b.kind <;> rw [k] at block <;>
          first | rfl | exact ⟨rfl, rfl⟩ | cases block
      have attached := mem_attached_of_place hq
      have spared' : q.branch.id ∉ chosen := by
        refine spared _ hq (by rw [up]; simp) ?_ ?_ <;> rcases holder with k | k <;> cases k' : q.branch.kind <;>
          rw [k'] at k <;> first | rfl | cases k
      have outer : ¬ t.Falls chosen q.branch.id :=
        h.not_falls_of_content attached spared' found ⟨_, child, solid, stands⟩
          fun rule => selected q hq (by rw [up]; simp) rule
      have above : t.Stays chosen q := by
        refine ih q.above.length (by rw [← e, up, List.length_cons, List.length_cons]; omega) hq ?_ outer ?_ ?_ rfl
        · rcases holder with k | k <;> simp [Node.Kind.isStatement, k]
        · exact fun p hp mem => spared p hp (by rw [up]; simp [mem])
        · exact fun p hp mem rule => selected p hp (by rw [up]; simp [mem]) rule
      rw [Stays, up]
      simp only [List.mem_cons, forall_eq_or_imp]
      exact ⟨stands, middle, outer, fun n mem => above n (List.mem_cons_of_mem _ mem)⟩

/-- If every rule above keeps a selector, what does not fall stays when nothing but declarations and selectors is
chosen. -/
theorem Numbered.stays_of_not_falls (h : t.Numbered) (root : t.sheet.kind = .styleSheet)
    (formed : ∀ b ∈ t.attached, b.Formed) (loosens : t.Loosens chosen)
    (place : l ∈ t.sheet.locate []) (statement : l.branch.kind.isStatement = true)
    (stands : ¬ t.Falls chosen l.branch.id)
    (selected : ∀ p ∈ t.sheet.locate [], p.branch.node ∈ l.above → p.branch.kind = .rule →
      ∃ c ∈ p.branch.selectors, ¬ t.Falls chosen c.id) : t.Stays chosen l :=
  h.stays_of_spared root formed place statement stands
    (fun _ hp _ => loosens.spares (mem_attached_of_place hp)) selected

end Tree

end AboveFold
