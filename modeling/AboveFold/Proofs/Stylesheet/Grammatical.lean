import AboveFold.Proofs.Stylesheet.Passes

/-!
# Stylesheets keep to the grammar

A stylesheet that was read keeps to the grammar of its kinds of node: numbering gives each node the
children that were read. Neither the walk of a modest visitor nor a sweep leads out of the grammar, and so
it holds after any passes (`Stylesheet.passes_grammatical`).
-/

namespace AboveFold
open Branch

/-! ## What is read -/

namespace Parsed

theorem kinds_numberAll (next : Nat) (ps : List Parsed) :
    (numberAll next ps).1.map Branch.kind = ps.map kind := by
  induction ps generalizing next with
  | nil => rfl
  | cons p ps ih => simp only [numberAll, List.map_cons, kind_number, ih]

theorem kinds_number (next : Nat) (p : Parsed) : (number next p).1.children.map Branch.kind = p.children.map kind := by
  cases p
  exact kinds_numberAll ..

/-- A node is numbered with the children that were read. -/
theorem outlines_numberAll (next : Nat) (ps : List Parsed) :
    (numberAll next ps).1.map (fun c => (c.kind, c.children.map Branch.kind))
      = ps.map fun c => (c.kind, c.children.map kind) := by
  induction ps generalizing next with
  | nil => rfl
  | cons p ps ih =>
    obtain ⟨k, span, children⟩ := p
    simp only [numberAll, List.map_cons, ih, number, children_mk, kinds_numberAll]
    rfl

mutual

theorem formed_number (next : Nat) : ∀ p : Parsed, p.Every Formed → ∀ b ∈ (number next p).1.preorder, b.Formed
  | node kind span ps, h, b, mem => by
    obtain ⟨top, below⟩ := every_node.1 h
    simp only [number, preorder, List.mem_cons] at mem
    rcases mem with rfl | mem
    · rw [Branch.Formed, Branch.outline, children_mk, outlines_numberAll]
      exact top
    · exact formed_numberAll (next + 1) ps below b mem

theorem formed_numberAll (next : Nat) : ∀ ps : List Parsed,
    (∀ p ∈ ps, p.Every Formed) → ∀ b ∈ preorderAll (numberAll next ps).1, b.Formed
  | [], _, b, mem => by simp [numberAll] at mem
  | p :: ps, h, b, mem => by
    simp only [List.mem_cons, forall_eq_or_imp] at h
    simp only [numberAll, preorderAll_cons, List.mem_append] at mem
    rcases mem with mem | mem
    · exact formed_number next p h.1 b mem
    · exact formed_numberAll _ ps h.2 b mem

end

end Parsed

namespace Stylesheet

variable {s s' : Stylesheet}

/-- A stylesheet whose tree is in order and keeps to the grammar. -/
structure Grammatical (s : Stylesheet) : Prop where
  rooted : s.Rooted
  formed : ∀ b ∈ s.tree.attached, b.Formed

theorem Grammatical.inOrder (h : s.Grammatical) : s.InOrder :=
  ⟨h.rooted, nested_of_formed h.formed⟩

theorem grammatical_parse (source : String) (path : Option String) : (parse source path).Grammatical where
  rooted := rooted_parse source path
  formed := by
    obtain ⟨-, formed⟩ := (Grammar.Input.mk source path).read_formed (Token.tokens source path)
    exact Parsed.formed_number 0 _ formed

theorem Grammatical.pruneBy (h : s.Grammatical) {v : Visitor} (modest : v.Modest) : (s.pruneBy v).2.Grammatical where
  rooted := h.rooted.pruneBy modest
  formed := h.rooted.numbered.walk_formed modest h.formed

theorem Grammatical.pruneEmptied (h : s.Grammatical) : s.pruneEmptied.2.Grammatical := by
  have sheet : s.pruneEmptied.2.tree.sheet = s.tree.sheet.swept := s.tree.removeEmptied_sheet
  have recasts : Recasts .styleSheet [s.tree.sheet] [s.pruneEmptied.2.tree.sheet] :=
    sheet ▸ ((thinned_swept s.tree.sheet).single .styleSheet).recasts
  exact ⟨h.rooted.removeEmptied, formed_of_recasts recasts h.formed⟩

theorem Runs.grammatical (runs : s.Runs s') (h : s.Grammatical) : s'.Grammatical := by
  induction runs with
  | done => exact h
  | walk modest _ ih => exact ih (h.pruneBy modest)
  | sweep _ ih => exact ih h.pruneEmptied

/-- No pass leads out of the grammar. -/
theorem Grammatical.pass (h : s.Grammatical) (p : Pass) : (p.apply s).Grammatical :=
  (runs_pass s p).grammatical h

theorem Grammatical.passes (h : s.Grammatical) (passes : List Pass) : (passes.foldl Pass.apply s).Grammatical :=
  (runs_passes passes s).grammatical h

end Stylesheet

end AboveFold
