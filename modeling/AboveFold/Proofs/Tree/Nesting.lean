import AboveFold.Proofs.Grammar.Shape
import AboveFold.Proofs.Tree.Cut
import AboveFold.Proofs.Tree.Numbering
import AboveFold.Stylesheet.Basic

/-!
# What can stand where

Pruning relies on little of the grammar of a stylesheet: there are no rules, declarations or selectors
below declarations, selectors and component values, none but selectors in a list of selectors, and
nothing at all in comments. A branch in which this is so is `Nested`, and what is read is nested.
-/

namespace AboveFold.Node.Kind

/-- Whether this is neither a rule nor a declaration nor a selector, nor made to hold some. -/
def isPlain : Kind → Bool
  | styleSheet | rule | atRule _ | block _ | selectorList | selector _ | declaration _ _ => false
  | _ => true

/-- Whether a node of the first kind can be the parent of one of the second. -/
def canHold : Kind → Kind → Bool
  | styleSheet, _ | rule, _ | atRule _, _ | block _, _ => true
  | selectorList, c => c.isSelector
  | comment _, _ => false
  | _, c => c.isPlain

/-- Whether only plain nodes can stand below this. -/
def isClosed (k : Kind) : Bool := k.isPlain || k.isDeclaration || k.isSelector

variable {k c : Kind}

theorem isPlain_of_isComponent (h : c.isComponent = true) : c.isPlain = true := by
  cases c <;> first | rfl | cases h

/-- Plain nodes, declarations and selectors hold plain nodes only. -/
theorem isPlain_of_canHold (closed : k.isPlain = true ∨ k.isDeclaration = true ∨ k.isSelector = true)
    (holds : k.canHold c = true) : c.isPlain = true := by
  cases k <;> simp_all [isPlain, canHold, isDeclaration, isSelector]

theorem isClosed_iff : k.isClosed = true ↔ k.isPlain = true ∨ k.isDeclaration = true ∨ k.isSelector = true := by
  rw [isClosed, Bool.or_eq_true, Bool.or_eq_true, or_assoc]

/-- Nodes that are read are nested. -/
theorem canHold_of_composes {cs : List Kind} (h : k.Composes cs) : ∀ c ∈ cs, k.canHold c = true := by
  intro c mem
  have component (h : ∀ c ∈ cs, c.isComponent = true) : c.isPlain = true :=
    isPlain_of_isComponent (h c mem)
  cases k with
  | styleSheet | rule | atRule _ | block _ => rfl
  | selectorList => exact h c mem
  | declaration property important =>
    obtain rfl : cs = [value] := h
    obtain rfl : c = value := by simpa using mem
    rfl
  | prelude =>
    rcases h c mem with h | h
    · exact isPlain_of_isComponent h
    · cases c <;> first | rfl | cases h
  | selector _ | mediaQuery _ => exact component fun c mem => (h c mem).1
  | value | function _ | simpleBlock _ => exact component h
  | _ =>
    obtain rfl : cs = [] := h
    cases mem

end AboveFold.Node.Kind

namespace AboveFold
open Branch

namespace Branch

/-- A branch in which every node can hold its children. -/
def Nested (b : Branch) : Prop :=
  ∀ c ∈ b.preorder, ∀ d ∈ c.children, c.kind.canHold d.kind = true

variable {b c : Branch} {n : Node} {cs : List Branch}

theorem nested_mk : (mk n cs).Nested ↔ ∀ c ∈ cs, n.kind.canHold c.kind = true ∧ c.Nested := by
  constructor
  · intro h c mem
    refine ⟨h _ (self_mem_preorder _) c mem, ?_⟩
    exact fun d inside => h d (mem_preorder_of_child mem inside)
  · intro h c mem d child
    rcases mem_preorder.1 mem with rfl | mem
    · exact (h d child).1
    · obtain ⟨e, he, inside⟩ := mem_preorderAll.1 mem
      exact (h e he).2 c inside d child

theorem Nested.inside (h : b.Nested) (mem : c ∈ b.preorder) : c.Nested :=
  fun d inside => h d ((preorder_sublist_preorder b c mem).subset inside)

/-- Below plain nodes there are plain nodes only. -/
theorem Nested.isPlain (h : b.Nested) (plain : b.kind.isPlain = true) : ∀ c ∈ b.preorder, c.kind.isPlain = true := by
  induction b using induct with
  | mk n cs ih =>
    intro c mem
    rcases mem_preorder.1 mem with rfl | mem
    · exact plain
    · obtain ⟨d, hd, inside⟩ := mem_preorderAll.1 mem
      obtain ⟨holds, nested⟩ := nested_mk.1 h d hd
      exact ih d hd nested (Node.Kind.isPlain_of_canHold (.inl plain) holds) c inside

/-- Below a declaration there are plain nodes only, and so below a selector. -/
theorem Nested.isPlain_below (h : b.Nested) (closed : b.kind.isDeclaration = true ∨ b.kind.isSelector = true) :
    ∀ c ∈ preorderAll b.children, c.kind.isPlain = true := by
  obtain ⟨n, cs⟩ := b
  intro c mem
  obtain ⟨d, hd, inside⟩ := mem_preorderAll.1 mem
  obtain ⟨holds, nested⟩ := nested_mk.1 h d hd
  exact nested.isPlain (Node.Kind.isPlain_of_canHold (.inr closed) holds) c inside

/-- Rules and at-rules are not plain, so where all is plain nothing is swept. -/
theorem clear_eq_whole_of_isPlain (plain : ∀ c ∈ b.preorder, c.kind.isPlain = true) : b.clear = .whole [b] := by
  apply clear_eq_whole
  intro c mem
  have := plain c mem
  unfold isEmptied
  cases k : c.kind <;> first | rfl | (rw [k] at this; cases this)

end Branch

/-! ## What is read is nested -/

namespace Parsed

theorem kind_number (next : Nat) (p : Parsed) : (number next p).1.kind = p.kind := by
  cases p
  rfl

mutual

theorem nested_number (next : Nat) : ∀ p : Parsed, p.Every Formed → (number next p).1.Nested
  | node kind span ps, h => by
    obtain ⟨formed, below⟩ := every_node.1 h
    have holds := Node.Kind.canHold_of_composes formed.1
    rw [map_fst_outline] at holds
    simp only [number]
    rw [nested_mk]
    exact nested_numberAll (next + 1) ps (fun p mem => ⟨holds p.kind (List.mem_map_of_mem mem), below p mem⟩)

theorem nested_numberAll (next : Nat) {k : Node.Kind} : ∀ ps : List Parsed,
    (∀ p ∈ ps, k.canHold p.kind = true ∧ p.Every Formed) →
    ∀ b ∈ (numberAll next ps).1, k.canHold b.kind = true ∧ b.Nested
  | [], _, b, mem => by simp [numberAll] at mem
  | p :: ps, h, b, mem => by
    simp only [List.mem_cons, forall_eq_or_imp] at h
    simp only [numberAll, List.mem_cons] at mem
    rcases mem with rfl | mem
    · exact ⟨(kind_number next p).symm ▸ h.1.1, nested_number next p h.1.2⟩
    · exact nested_numberAll _ ps h.2 b mem

end

end Parsed

/-- The style sheet that was read is nested. -/
theorem Stylesheet.parse_nested (source : String) (path : Option String) :
    (parse source path).tree.sheet.kind = .styleSheet ∧ (parse source path).tree.sheet.Nested := by
  obtain ⟨kind, formed⟩ := (Grammar.Input.mk source path).read_formed (Token.tokens source path)
  exact ⟨(Parsed.kind_number 0 _).trans kind, Parsed.nested_number 0 _ formed⟩

end AboveFold
