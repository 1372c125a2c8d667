import AboveFold.Proofs.Grammar.EntryPhrases
import AboveFold.Proofs.Prune.Spacing
import AboveFold.Proofs.Token.Uncommenting

/-!
# Component values without their comments

When comments are taken out of component values, what is left of each is written as some words (`Shows`). These
words come about from those that were read by taking comments out there, and a space is left wherever the
relation between words asks for one (`Says.uncomment`). So a value that was read and lost its comments means
the same.
-/

namespace AboveFold
open Branch Token

/-- Branches side by side are component values and written as these words. Whitespace is written as blanks. -/
def Branch.Shows (source : String) : List Branch → List Written → Prop
  | [], vs => vs = []
  | b :: bs, vs => ∃ us ws, vs = us ++ ws ∧ (b.render (some source)).toList = textOf us ∧ b.kind.isComponent = true
    ∧ (b.kind.isWhitespace = true → ∀ u ∈ us, u.kind = .whitespace) ∧ Shows source bs ws

namespace Branch

variable {source : String} {bs cs : List Branch} {b : Branch} {vs us : List Written}

theorem Shows.single (text : (b.render (some source)).toList = textOf vs) (component : b.kind.isComponent = true)
    (white : b.kind.isWhitespace = true → ∀ v ∈ vs, v.kind = .whitespace) : Shows source [b] vs :=
  ⟨vs, [], (List.append_nil vs).symm, text, component, white, rfl⟩

theorem Shows.append (h : Shows source bs vs) (h' : Shows source cs us) : Shows source (bs ++ cs) (vs ++ us) := by
  induction bs generalizing vs with
  | nil =>
    obtain rfl : vs = [] := h
    exact h'
  | cons b bs ih =>
    obtain ⟨us', ws, rfl, text, component, white, rest⟩ := h
    exact ⟨us', ws ++ us, List.append_assoc .., text, component, white, ih rest⟩

theorem Shows.of_append (h : Shows source (bs ++ cs) vs) :
    ∃ us ws, vs = us ++ ws ∧ Shows source bs us ∧ Shows source cs ws := by
  induction bs generalizing vs with
  | nil => exact ⟨[], vs, rfl, rfl, h⟩
  | cons b bs ih =>
    obtain ⟨us, ws, rfl, text, component, white, rest⟩ := h
    obtain ⟨us', ws, rfl, left, right⟩ := ih rest
    exact ⟨us ++ us', ws, (List.append_assoc ..).symm, ⟨us, us', rfl, text, component, white, left⟩, right⟩

theorem renderAll_eq (source : Option String) (bs : List Branch) :
    renderAll source bs = bs.map fun b => ⟨b.kind, b.render source⟩ := by
  induction bs with
  | nil => rfl
  | cons b bs ih => rw [renderAll, ih, List.map_cons]

theorem Shows.joined (h : Shows source bs vs) : (Piece.joined (renderAll (some source) bs)).toList = textOf vs := by
  induction bs generalizing vs with
  | nil =>
    obtain rfl : vs = [] := h
    rfl
  | cons b bs ih =>
    obtain ⟨us, ws, rfl, text, -, -, rest⟩ := h
    have later := ih rest
    simp only [Piece.joined, renderAll, List.map_cons, String.join_cons, String.toList_append] at later ⊢
    rw [later, text, textOf_append]

/-- Whitespace shows as blanks. -/
theorem Shows.white (h : Shows source bs vs) (all : ∀ b ∈ bs, b.kind.isWhitespace = true) :
    ∀ v ∈ vs, v.kind = .whitespace := by
  induction bs generalizing vs with
  | nil =>
    obtain rfl : vs = [] := h
    simp
  | cons b bs ih =>
    rw [List.forall_mem_cons] at all
    obtain ⟨us, ws, rfl, -, -, white, rest⟩ := h
    rw [List.forall_mem_append]
    exact ⟨white all.1, ih rest all.2⟩

theorem Shows.any_isMediaQuery (h : Shows source bs vs) :
    (renderAll (some source) bs).any (·.kind.isMediaQuery) = false := by
  induction bs generalizing vs with
  | nil => rfl
  | cons b bs ih =>
    obtain ⟨us, ws, rfl, -, component, -, rest⟩ := h
    rw [renderAll, List.any_cons, ih rest, Bool.or_false]
    show b.kind.isMediaQuery = false
    cases k : b.kind <;> rw [k] at component <;> first | rfl | cases component

/-- Without the whitespace at their ends, branches are written without the blanks at the ends of the words. -/
theorem Shows.trim (h : Shows source bs vs) : ∃ lead mid trail, vs = lead ++ mid ++ trail
    ∧ (∀ v ∈ lead ++ trail, v.kind = .whitespace)
    ∧ (Piece.joined (Text.trimBy (·.kind.isWhitespace) (renderAll (some source) bs))).toList = textOf mid := by
  obtain ⟨front, back, e, white⟩ := Text.exists_trimBy (fun b : Branch => b.kind.isWhitespace) bs
  rw [List.forall_mem_append] at white
  rw [renderAll_eq, Text.trimBy_map, ← renderAll_eq]
  simp only [Function.comp_def]
  generalize Text.trimBy (fun b : Branch => b.kind.isWhitespace) bs = inner at e ⊢
  rw [e] at h
  obtain ⟨_, trail, rfl, h, last⟩ := h.of_append
  obtain ⟨lead, mid, rfl, first, inside⟩ := h.of_append
  refine ⟨lead, mid, trail, rfl, ?_, inside.joined⟩
  rw [List.forall_mem_append]
  exact ⟨first.white white.1, last.white white.2⟩

end Branch

/-! ## Comments go -/

namespace Parsed
open Branch

variable {source : String} {k : Node.Kind} {ws : List Written}

theorem number_node (n : Nat) (k : Node.Kind) (span : Source.ByteSpan) (ps : List Parsed) :
    (number n (node k span ps)).1 = .mk ⟨n, k, some span, false⟩ (numberAll (n + 1) ps).1 := rfl

theorem head?_numberAll (n : Nat) (ps : List Parsed) :
    (((numberAll n ps).1.map Branch.unnumbered).head?.map Branch.kind) = ps.head?.map kind := by
  cases ps with
  | nil => rfl
  | cons p ps => simp [numberAll, kind_number]

/-- A whitespace node is read from blanks. -/
theorem Bounds.white (h : Bounds k ws) (white : k.isWhitespace = true) : ∀ w ∈ ws, w.kind = .whitespace := by
  obtain ⟨w, rfl, trivia, comment⟩ := h.alone (by simp [Node.Kind.isTrivia, white])
  have none : k.isComment = false := by
    cases k <;> first | rfl | cases white
  rw [List.forall_mem_singleton]
  cases e : w.kind <;> rw [e] at trivia comment <;> first | rfl | cases trivia
  rw [none] at comment
  cases comment

/-- The last word of a value does not join what is behind it, unless the value does. -/
theorem Bounds.behind (h : Bounds k ws) {vs : List Written} (same : vs.getLast? = ws.getLast?)
    (before : Option Token.Kind)
    (joins : ((vs.getLast?.map Written.kind).or before).any Token.Kind.joinsBehind = true) :
    Prune.isSolid k = true := by
  obtain ⟨w, last, solid, -⟩ := h.last
  rw [same, Option.mem_def.1 last] at joins
  exact solid joins

mutual

/-- What is left of a value when comments are taken out of it. -/
theorem Says.uncomment : ∀ (p : Parsed) (n : Nat) (prev next : Option Node.Kind) (before after : Option Token.Kind)
    {ws : List Written}, p.Says source ws →
    (before.any Token.Kind.joinsBehind = true → prev.any Prune.isSolid = true) →
    (after.any Token.Kind.joinsBefore = true → next.any Prune.isSolid = true) →
    ∃ vs, Uncomments after before ws vs ∧ Shows source (uncomment true prev next (number n p).1.unnumbered).kept vs
      ∧ (((vs.getLast?.map Written.kind).or before).any Token.Kind.joinsBehind = true →
        (((uncomment true prev next (number n p).1.unnumbered).kept.getLast?.map Branch.kind).or prev).any
          Prune.isSolid = true)
  | node k span ps, n, prev, next, before, after, ws, ⟨bounds, text, inner⟩, behind, ahead => by
    rw [number_node, unnumbered_mk]
    cases comment : k.isComment with
    | true =>
      rw [uncomment_of_isComment (n := ⟨0, k, some span, false⟩) comment]
      obtain ⟨w, rfl, -, e⟩ := bounds.alone (by simp [Node.Kind.isTrivia, comment])
      rw [comment] at e
      split
      next =>
        refine ⟨[.space], .space e .nil, .single ?_ rfl ?_, fun joins => by cases joins⟩
        · simp [Branch.blank, render, Node.unchangedText?, layout, Written.space]
        · simp [Written.space]
      next apart =>
        refine ⟨[], .drop e ?_ .nil, rfl, behind⟩
        simp only [Bool.true_and, Bool.and_eq_true, not_and] at apart
        rw [Bool.eq_false_iff]
        intro joins
        obtain ⟨left, right⟩ := Bool.and_eq_true_iff.1 joins
        exact apart (behind left) (ahead right)
    | false =>
      rw [uncomment_of_not_isComment (n := ⟨0, k, some span, false⟩) comment]
      generalize e : uncommentAll (Prune.holdsComponents k) none ((numberAll (n + 1) ps).1.map Branch.unnumbered) = c
      cases touched : c.touched with
      | false =>
        refine ⟨ws, .refl _ _ ws, .single ?_ bounds.component bounds.white, bounds.behind rfl before⟩
        simp [Cut.under, render, Node.unchangedText?, touched, text]
      | true =>
        rcases inner with rfl | ⟨opener, inside, closer, rfl, brackets, said⟩
        · rw [← e] at touched
          cases touched
        · obtain ⟨vs, taken, shows⟩ := SaysAll.uncomment ps (n + 1) none (some opener.kind) (some closer.kind) said
            (by simp [brackets.inside]) (by simp [brackets.outside])
          rw [brackets.holds] at e
          rw [e] at shows
          have last (xs : List Written) : (opener :: (xs ++ [closer])).getLast? = some closer := by
            rw [← List.cons_append, List.getLast?_concat]
          have same : (opener :: (vs ++ [closer])).getLast? = (opener :: (inside ++ [closer])).getLast? := by
            rw [last, last]
          refine ⟨opener :: (vs ++ [closer]), .keep (.append taken (.refl _ _ _)), .single ?_ bounds.component ?_,
            bounds.behind same before⟩
          · simp [Cut.under, render, Node.unchangedText?, touched, brackets.layout, shows.joined]
          · intro (white : k.isWhitespace = true)
            have group := brackets.holds
            cases k <;> first | (cases white; done) | cases group

/-- What is left of values side by side when comments are taken out of them. -/
theorem SaysAll.uncomment : ∀ (ps : List Parsed) (n : Nat) (prev : Option Node.Kind)
    (before after : Option Token.Kind) {ws : List Written}, SaysAll source ps ws →
    (before.any Token.Kind.joinsBehind = true → prev.any Prune.isSolid = true) →
    after.any Token.Kind.joinsBefore = false →
    ∃ vs, Uncomments after before ws vs
      ∧ Shows source (uncommentAll true prev ((numberAll n ps).1.map Branch.unnumbered)).kept vs
  | [], n, prev, before, after, ws, said, behind, ahead => by
    obtain rfl : ws = [] := said
    exact ⟨[], .nil, rfl⟩
  | p :: ps, n, prev, before, after, ws, ⟨us, ws', e, first, rest⟩, behind, ahead => by
    subst e
    have next : ((ws'.head?.map Written.kind).or after).any Token.Kind.joinsBefore = true →
        (ps.head?.map kind).any Prune.isSolid = true := by
      cases ps with
      | nil =>
        obtain rfl : ws' = [] := rest
        simp [ahead]
      | cons q ps =>
        obtain ⟨us', ws', rfl, next, -⟩ := rest
        obtain ⟨w, head, solid⟩ := next.bounds.first
        simpa [Option.mem_def.1 head] using solid
    obtain ⟨vs, taken, shows, joins⟩ := Says.uncomment p n prev _ before _ first behind next
    rw [← head?_numberAll (number n p).2 ps] at shows joins
    obtain ⟨vs', taken', shows'⟩ := SaysAll.uncomment ps (number n p).2 _ _ after rest joins ahead
    refine ⟨vs ++ vs', taken.append taken', ?_⟩
    rw [numberAll, List.map_cons, uncommentAll]
    exact shows.append shows'

end

theorem Worded.render_eq {p : Parsed} (h : p.Worded source ws) (n : Nat) :
    (number n p).1.render (some source) = String.ofList (textOf ws) := by
  obtain ⟨k, span, ps⟩ := p
  have cut : span.slice source = some (String.ofList (textOf ws)) := h.text
  simp [number_node, render, Node.unchangedText?, cut]

/-- What a value or a prelude is written as without its comments, but for blanks at its ends. -/
theorem Worded.uncomments {p : Parsed} (h : p.Worded source ws) (kind : p.kind = .value ∨ p.kind = .prelude)
    (n : Nat) : ∃ lead vs trail, Uncomments none none ws (lead ++ vs ++ trail)
      ∧ (∀ v ∈ lead ++ trail, v.kind = .whitespace)
      ∧ ((number n p).1.unnumbered.stripped.render (some source)).toList = textOf vs := by
  obtain ⟨k, span, ps⟩ := p
  obtain ⟨text, said, stands, sound⟩ := h
  obtain ⟨vs, taken, shows⟩ := SaysAll.uncomment ps (n + 1) none none none said (by simp) rfl
  have holds : Prune.holdsComponents k = true := by
    rcases kind with e | e <;> (obtain rfl : k = _ := e; rfl)
  rw [number_node, unnumbered_mk, stripped, kind_mk, children_mk, node_mk, holds]
  generalize uncommentAll true none ((numberAll (n + 1) ps).1.map Branch.unnumbered) = c at shows
  cases touched : c.touched with
  | false =>
    have cut : span.slice source = some (String.ofList (textOf ws)) := text
    refine ⟨[], ws, [], ?_, by simp, by simp [Cut.under, render, Node.unchangedText?, touched, cut]⟩
    rw [List.nil_append, List.append_nil]
    exact .refl _ _ ws
  | true =>
    have laid : (c.under ⟨0, k, some span, false⟩).render (some source)
        = layout k (renderAll (some source) c.kept) := by
      simp [Cut.under, render, Node.unchangedText?, touched]
    rw [laid]
    rcases kind with e | e
    · obtain ⟨lead, mid, trail, rfl, white, same⟩ := shows.trim
      obtain rfl : k = .value := e
      exact ⟨lead, mid, trail, taken, white, same⟩
    · obtain rfl : k = .prelude := e
      refine ⟨[], vs, [], ?_, by simp, ?_⟩
      · rw [List.nil_append, List.append_nil]
        exact taken
      · rw [layout, shows.any_isMediaQuery, if_neg Bool.false_ne_true, shows.joined]

/-- A value or a prelude goes on saying the same without its comments, unless one of these kept a blank from an
escape. -/
theorem Worded.meaning_eq {p : Parsed} (h : p.Worded source ws) (kind : p.kind = .value ∨ p.kind = .prelude)
    (shielded : Shielded ws) (n : Nat) :
    meaning ((number n p).1.unnumbered.stripped.render (some source)).toList = meaning (textOf ws) := by
  obtain ⟨lead, vs, trail, taken, white, same⟩ := h.uncomments kind n
  rw [same]
  exact taken.meaning_trim white h.stands h.sound shielded

/-- A value, or a prelude that lists no media queries, goes on saying the same without its comments. -/
theorem HoldsWords.meaning_eq {p : Parsed} (h : HoldsWords source p) (kind : p.kind = .value ∨ p.kind = .prelude)
    (other : ∀ c ∈ p.children, c.kind.isMediaQuery = false) (n : Nat)
    (shielded : Shielded (written ((number n p).1.render (some source)).toList)) :
    meaning ((number n p).1.unnumbered.stripped.render (some source)).toList
      = meaning ((number n p).1.render (some source)).toList := by
  rcases h kind with ⟨-, nothing | ⟨c, mem, query⟩⟩ | ⟨ws, worded⟩
  · obtain ⟨k, span, ps⟩ := p
    obtain rfl : ps = [] := nothing
    have same : (number n (.node k span [])).1.unnumbered.stripped = (number n (.node k span [])).1.unnumbered := rfl
    rw [same, render_unnumbered]
  · rw [other c mem] at query
    cases query
  · rw [worded.render_eq, String.toList_ofList, worded.stands.written_eq] at shielded
    rw [worded.render_eq, String.toList_ofList]
    exact worded.meaning_eq kind shielded n

end Parsed

end AboveFold
