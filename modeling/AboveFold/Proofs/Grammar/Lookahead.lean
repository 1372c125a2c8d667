import AboveFold.Grammar.Rule
import AboveFold.Proofs.Grammar.Nesting

/-!
# Looking ahead for a nested rule

An identifier in a block starts a nested rule if a brace opens before the statement ends. `startsNestedRule` finds out
by looking at one token after the other, whatever brackets they stand in, whereas what is read then is read by groups.
The two agree where the lookahead ends outside of all groups: the entry is read as a rule (`entries_nested`), and no brace
opens outside of groups in an entry that is read as a declaration (`fault_of_brace`).
-/

namespace AboveFold.Grammar
open Source Node Token

/-- Whether the lookahead ends at a token. -/
def endsLookahead : Token.Kind → Bool
  | .curlyOpen | .eof | .semicolon | .curlyClose | .fault _ => true
  | _ => false

/-- Whether the token at which the lookahead ends stands outside of all groups. -/
def Nest.seesOutside (room : Nat) (n : Nest) : List Token → Bool
  | [] => true
  | t :: ts => if endsLookahead t.kind then n.isOutside t.kind else seesOutside room (n.after room t.kind) ts

variable {room : Nat} {stop : Token.Kind → Bool} {n : Nest} {t : Token} {ts : List Token} {inp : Input} {st : State}
  {name : String} {place : Place} {k : Token.Kind}

theorem blockFollows_cons (t : Token) (ts : List Token) :
    blockFollows (t :: ts) = if endsLookahead t.kind then decide (t.kind = .curlyOpen) else blockFollows ts := by
  cases k : t.kind <;> simp [blockFollows, endsLookahead, k]

theorem endsSelectors_eq_false (place : Place) (goesOn : endsLookahead k = false) : endsSelectors place k = false := by
  cases k <;> simp [endsLookahead, endsSelectors] at *

theorem endsDeclaration_eq_false (goesOn : endsLookahead k = false) : endsDeclaration k = false := by
  cases k <;> simp [endsLookahead, endsDeclaration] at *

/-- The machine goes past the tokens that the lookahead goes past. -/
theorem Nest.survey_of_goesOn (stops : ∀ k, endsLookahead k = false → stop k = false)
    (goesOn : endsLookahead t.kind = false) : n.survey room stop (t :: ts)
      = (if n.isOutside t.kind then t :: ((n.after room t.kind).survey room stop ts).1
          else ((n.after room t.kind).survey room stop ts).1,
        ((n.after room t.kind).survey room stop ts).2) := by
  have inside : t.kind ≠ .eof := by
    rintro eof
    simp [eof, endsLookahead] at goesOn
  simp [survey, inside, stops _ goesOn]

/-- Where the lookahead finds a brace outside of groups, the machine stops there. -/
theorem Nest.survey_of_blockFollows (stops : ∀ k, endsLookahead k = false → stop k = false)
    (brace : stop .curlyOpen = true) (outside : n.seesOutside room ts = true) (follows : blockFollows ts = true) :
    ∃ t more, (n.survey room stop ts).2 = t :: more ∧ t.kind = .curlyOpen := by
  induction ts generalizing n with
  | nil => cases follows
  | cons t ts ih =>
    rw [blockFollows_cons] at follows
    rw [seesOutside] at outside
    cases ends : endsLookahead t.kind with
    | true =>
      rw [ends, if_pos rfl] at follows outside
      have opens : t.kind = .curlyOpen := of_decide_eq_true follows
      exact ⟨t, ts, by rw [survey_stops outside (.inr (opens ▸ brace))], opens⟩
    | false =>
      rw [ends] at follows outside
      rw [survey_of_goesOn stops ends]
      exact ih outside follows

/-- Where the lookahead finds no brace and ends outside of groups, the machine stops there too, or at a token that is
no token of the language. -/
theorem Nest.fault_of_survey (outside : n.seesOutside room ts = true) (follows : blockFollows ts = false)
    (found : ∃ t ∈ (n.survey room endsDeclaration ts).1, t.kind = .curlyOpen) :
    ∃ t fault, ts.find? (endsLookahead ·.kind) = some t ∧ t.kind = .fault fault := by
  induction ts generalizing n with
  | nil => simp [survey] at found
  | cons t ts ih =>
    rw [blockFollows_cons] at follows
    rw [seesOutside] at outside
    cases ends : endsLookahead t.kind with
    | true =>
      rw [ends, if_pos rfl] at follows outside
      have stays (stops : t.kind = .eof ∨ endsDeclaration t.kind = true) : False := by
        rw [survey_stops outside stops] at found
        simp at found
      cases k : t.kind with
      | fault fault => exact ⟨t, fault, by simp [k, endsLookahead], k⟩
      | eof | semicolon | curlyClose => exact (stays (by simp [k, endsDeclaration])).elim
      | curlyOpen => simp [k] at follows
      | _ => simp [k, endsLookahead] at ends
    | false =>
      rw [ends] at follows outside
      rw [survey_of_goesOn (fun _ => endsDeclaration_eq_false) ends] at found
      obtain ⟨brace, mem, opens⟩ := found
      have later : brace ∈ ((n.after room t.kind).survey room endsDeclaration ts).1 := by
        split at mem
        next =>
          rcases List.mem_cons.1 mem with rfl | later
          · simp [opens, endsLookahead] at ends
          · exact later
        next => exact mem
      obtain ⟨t', fault, first, kind⟩ := ih outside follows ⟨brace, later, opens⟩
      exact ⟨t', fault, by rw [List.find?_cons_of_neg (by simp [ends]), first], kind⟩

/-! ## The entry -/

/-- A style rule has a block exactly if a brace ends what stands outside of groups before it. -/
theorem ruleHead_block_iff (inp : Input) (place : Place) (st : State) :
    (∃ list, (ruleHead inp place st).1 = .block list (st.nextSpan inp).start.offset)
      ↔ ∃ t more, (Nest.outer.survey (maxDepth - st.depth) (endsSelectors place) st.rest).2 = t :: more
        ∧ t.kind = .curlyOpen := by
  obtain ⟨-, rest⟩ := components_survey inp (endsSelectors place) st
  rw [← rest]
  unfold ruleHead
  simp only
  generalize components inp (endsSelectors place) st = read
  obtain ⟨atoms, st'⟩ := read
  cases e : st'.rest with
  | nil => simp [State.nextKind, e]
  | cons t more =>
    simp only [State.nextKind, e]
    split
    next opens => simp [opens]
    next eof => simp [eof]
    next other _ => simpa using other

section

variable (e : st.rest = t :: ts) (ident : t.kind = .ident name)
include e ident

theorem survey_ident (stop : Token.Kind → Bool) (more : stop (.ident name) = false) :
    Nest.outer.survey room stop st.rest
      = (t :: (Nest.outer.survey room stop ts).1, (Nest.outer.survey room stop ts).2) := by
  rw [e, Nest.survey_outer_cons, Nest.after_outer (by rw [ident]; rfl), ident, more]
  rfl

/-- **What the lookahead takes for a nested rule is read as one**, if the brace that it finds stands outside of all
groups. -/
theorem entries_nested (fuel : Nat) (starts : startsNestedRule name ts = true)
    (outside : Nest.outer.seesOutside (maxDepth - st.depth) ts = true) :
    ∃ list block rest, (entries inp .declarations (fuel + 1) st).1
      = .node .rule ⟨t.start, block.span.stop⟩ [list, block] :: rest := by
  have follows : blockFollows ts = true := (Bool.and_eq_true_iff.1 starts).2
  have stops := Nest.survey_of_blockFollows (fun _ => endsSelectors_eq_false .declarations) rfl outside follows
  rw [← congrArg Prod.snd (survey_ident e ident (endsSelectors .declarations) rfl)] at stops
  obtain ⟨list, head⟩ := (ruleHead_block_iff inp .declarations st).2 stops
  have entry : entryOf .declarations (t :: ts) = .styleRule := by simp [entryOf, ident, starts]
  rw [State.nextSpan, e] at head
  rw [entries.eq_def]
  simp only [e, entry]
  split
  next raw => simp [raw] at head
  next read =>
    rw [read] at head
    obtain ⟨rfl, rfl⟩ := RuleHead.block.inj head
    exact ⟨_, _, _, rfl⟩

/-- The lookahead sees the brace in the parentheses of `b:(c{d})` and takes a declaration for a rule, which then has no
block. -/
example :
    let ts := tokens "b:(c\x7bd\x7d)\x7d" none
    startsNestedRule "b" ts.tail = true ∧ Nest.outer.seesOutside maxDepth ts.tail = false
      ∧ (ruleHead ⟨"b:(c\x7bd\x7d)\x7d", none⟩ .declarations (.start ts)).2.errors.length = 1 := by decide +kernel

/-- **In what is read as a declaration no brace opens outside of groups**, unless a token that is none comes first, if
the lookahead ends outside of all groups. The value of a custom property may have braces. -/
theorem fault_of_brace (declares : startsNestedRule name ts = false) (plain : name.startsWith "--" = false)
    (outside : Nest.outer.seesOutside room ts = true)
    (found : ∃ brace ∈ (Nest.outer.survey room endsDeclaration st.rest).1, brace.kind = .curlyOpen) :
    ∃ t fault, ts.find? (endsLookahead ·.kind) = some t ∧ t.kind = .fault fault := by
  have follows : blockFollows ts = false := by simpa [startsNestedRule, plain] using declares
  refine Nest.fault_of_survey outside follows ?_
  rw [survey_ident e ident endsDeclaration rfl] at found
  obtain ⟨brace, mem, opens⟩ := found
  rcases List.mem_cons.1 mem with rfl | later
  · simp [ident] at opens
  · exact ⟨brace, later, opens⟩

end

/-- The lookahead stops at the semicolon in the parentheses of `b:hover(c;d){e:f}`, and misses the brace. -/
example :
    let ts := tokens "b:hover(c;d)\x7be:f\x7d" none
    startsNestedRule "b" ts.tail = false ∧ Nest.outer.seesOutside maxDepth ts.tail = false
      ∧ ∃ brace ∈ (Nest.outer.survey maxDepth endsDeclaration ts).1, brace.kind = .curlyOpen := by decide +kernel

end AboveFold.Grammar
