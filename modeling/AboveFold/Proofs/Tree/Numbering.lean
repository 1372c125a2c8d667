import AboveFold.Proofs.Grammar.Layout
import AboveFold.Tree.Basic

/-!
# Numbered trees

Numbering makes a branch of a tree that was read. It keeps kinds, spans and the order of nodes, marks
no node, and gives each its place in document order as its number.
-/

namespace AboveFold
open Source

/-- The top of a branch is as it was read. -/
structure Branch.Reflects (b : Branch) (p : Parsed) : Prop where
  kind : b.kind = p.kind
  span : b.node.span = some p.span
  pristine : b.node.modified = false
  children : b.children.map (·.node.span) = p.children.map (fun c => some c.span)

namespace Parsed

theorem span_number (next : Nat) (p : Parsed) : (number next p).1.node.span = some p.span := by
  cases p
  rfl

theorem spans_numberAll (next : Nat) (ps : List Parsed) :
    (numberAll next ps).1.map (·.node.span) = ps.map (fun c => some c.span) := by
  induction ps generalizing next with
  | nil => rfl
  | cons p ps ih => simp only [numberAll, List.map_cons, span_number, ih]

mutual

/-- Every node of a numbered tree is one that was read and numbered. -/
theorem exists_number (next : Nat) : ∀ p : Parsed, ∀ b ∈ (number next p).1.preorder,
    ∃ q ∈ p.nodes, ∃ n, b = (number n q).1
  | node kind span ps, b, mem => by
    simp only [number, Branch.preorder, List.mem_cons] at mem
    rcases mem with rfl | mem
    · exact ⟨node kind span ps, by simp [nodes], next, rfl⟩
    · obtain ⟨q, hq, numbered⟩ := exists_numberAll (next + 1) ps b mem
      exact ⟨q, by simp [nodes, hq], numbered⟩

theorem exists_numberAll (next : Nat) : ∀ ps : List Parsed, ∀ b ∈ Branch.preorderAll (numberAll next ps).1,
    ∃ q ∈ nodesAll ps, ∃ n, b = (number n q).1
  | [], b, mem => by simp only [numberAll, Branch.preorderAll, List.not_mem_nil] at mem
  | p :: ps, b, mem => by
    simp only [numberAll, Branch.preorderAll, List.mem_append] at mem
    rcases mem with mem | mem
    · obtain ⟨q, hq, numbered⟩ := exists_number next p b mem
      exact ⟨q, by simp [nodesAll, hq], numbered⟩
    · obtain ⟨q, hq, numbered⟩ := exists_numberAll _ ps b mem
      exact ⟨q, by simp [nodesAll, hq], numbered⟩

end

theorem reflects_top (next : Nat) (p : Parsed) : (number next p).1.Reflects p := by
  obtain ⟨kind, span, ps⟩ := p
  exact ⟨rfl, rfl, rfl, spans_numberAll (next + 1) ps⟩

/-- Every node of a numbered tree is as it was read. -/
theorem reflects_number (next : Nat) (p : Parsed) :
    ∀ b ∈ (number next p).1.preorder, ∃ q ∈ p.nodes, b.Reflects q := by
  intro b mem
  obtain ⟨q, hq, n, rfl⟩ := exists_number next p b mem
  exact ⟨q, hq, reflects_top n q⟩

theorem reflects_numberAll (next : Nat) (ps : List Parsed) :
    ∀ b ∈ Branch.preorderAll (numberAll next ps).1, ∃ q ∈ nodesAll ps, b.Reflects q := by
  intro b mem
  obtain ⟨q, hq, n, rfl⟩ := exists_numberAll next ps b mem
  exact ⟨q, hq, reflects_top n q⟩

mutual

/-- Numbers are given in document order, without a gap. -/
theorem ids_number (next : Nat) : ∀ p : Parsed,
    (number next p).1.ids = List.range' next p.nodes.length ∧ (number next p).2 = next + p.nodes.length
  | node kind span ps => by
    obtain ⟨ids, after⟩ := ids_numberAll (next + 1) ps
    refine ⟨?_, ?_⟩
    · simp only [Branch.ids, number, Branch.preorder, nodes, List.map_cons, ids, List.length_cons]
      rfl
    · simp only [number, nodes, List.length_cons, after]
      omega

theorem ids_numberAll (next : Nat) : ∀ ps : List Parsed,
    (Branch.preorderAll (numberAll next ps).1).map Branch.id = List.range' next (nodesAll ps).length
      ∧ (numberAll next ps).2 = next + (nodesAll ps).length
  | [] => ⟨rfl, rfl⟩
  | p :: ps => by
    obtain ⟨ids, after⟩ := ids_number next p
    obtain ⟨later, last⟩ := ids_numberAll (number next p).2 ps
    rw [after] at later last
    refine ⟨?_, ?_⟩
    · simp only [Branch.ids] at ids
      simp only [numberAll, Branch.preorderAll, nodesAll, List.map_append, ids, later, after, List.length_append]
      rw [List.range'_append_1]
    · simp only [numberAll, nodesAll, List.length_append, last, after]
      omega

end

end Parsed

end AboveFold
