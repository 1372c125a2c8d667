import AboveFold.Grammar.Rule
import AboveFold.Proofs.Grammar.Nesting

/-!
# Passing over is reading without looking

What follows a malformed declaration is passed over by counting brackets (`State.skipComponent`), whatever their type,
whereas a component value is read up to the bracket that its group waits for. Where brackets are properly nested
(`WellNested`) the two take the same tokens, so that a malformed declaration ends where a well-formed one with the same
value does (`skipDeclaration_rest`). Elsewhere they part: counting takes any closing bracket for the one that is due.
-/

namespace AboveFold.Grammar
open Source Node Token

/-- Brackets that are properly nested, at most `room` deep: each that opens is closed by one of its own type, and none
closes that did not open. -/
inductive WellNested : (room : Nat) → List Token → Prop where
  | nil {room : Nat} : WellNested room []
  /-- A token that is no bracket. -/
  | single {room : Nat} {t : Token} {ts : List Token} (opens : t.kind.closer? = none) (closes : t.kind.closing? = none)
      (later : WellNested room ts) : WellNested room (t :: ts)
  /-- A group from its opening bracket to the closing one that it waits for. -/
  | group {room : Nat} {opener closer : Token} {inner ts : List Token} {c : Char} (opens : opener.kind.closer? = some c)
      (inside : WellNested room inner) (closes : closer.kind.closing? = some c) (later : WellNested (room + 1) ts) :
      WellNested (room + 1) (opener :: inner ++ closer :: ts)

variable {room room' nested : Nat} {t opener closer : Token} {ts us inner value more : List Token} {c : Char}
  {stop : Token.Kind → Bool} {inp : Input} {st : State}

theorem WellNested.append (h : WellNested room ts) (h' : WellNested room us) : WellNested room (ts ++ us) := by
  induction h with
  | nil => exact h'
  | single opens closes _ ih => exact .single opens closes (ih h')
  | group opens inside closes _ _ ih =>
    rw [List.append_assoc]
    exact .group opens inside closes (ih h')

theorem WellNested.mono (h : WellNested room ts) (le : room ≤ room') : WellNested room' ts := by
  induction h generalizing room' with
  | nil => exact .nil
  | single opens closes _ ih => exact .single opens closes (ih le)
  | group opens _ closes _ ih ih' =>
    obtain ⟨n, rfl⟩ : ∃ n, room' = n + 1 := Nat.exists_eq_succ_of_ne_zero (by omega)
    exact .group opens (ih (Nat.le_of_succ_le_succ le)) closes (ih' le)

theorem closing?_of_closer? {k : Token.Kind} (opens : k.closer? = some c) : k.closing? = none := by
  cases k <;> first | rfl | cases opens

theorem closer?_of_closing? {k : Token.Kind} (closes : k.closing? = some c) : k.closer? = none := by
  cases k <;> first | rfl | cases closes

/-- A group ends at closing brackets only. -/
theorem closing?_of_endsGroup (k : Token.Kind) (ends : Nest.endsGroup c k = true) : k.closing? ≠ none := by
  rcases Bool.or_eq_true _ _ ▸ ends with own | brace
  · simp [of_decide_eq_true own]
  · simp [of_decide_eq_true brace, Kind.closing?]

/-! ## Counting -/

/-- Counting comes out of properly nested brackets as it went in. -/
theorem skipFrom_append (h : WellNested room ts) (inside : ∀ t ∈ ts, t.kind ≠ .eof) (more : List Token)
    (nested offset : Nat) (last : Option Position) :
    ∃ offset' last', State.skipFrom nested offset last (ts ++ more) = State.skipFrom nested offset' last' more := by
  induction h generalizing nested offset last more with
  | nil => exact ⟨offset, last, rfl⟩
  | @single _ t ts opens closes _ ih =>
    obtain ⟨offset', last', e⟩ := ih (fun u mem => inside u (by simp [mem])) more nested t.stop (some t.span.stop)
    refine ⟨offset', last', ?_⟩
    simpa [State.skipFrom, inside t, opens, closes] using e
  | @group _ opener closer inner ts c opens _ closes _ ih ih' =>
    obtain ⟨offset', last', e⟩ := ih (fun u mem => inside u (by simp [mem])) (closer :: ts ++ more)
      (nested + 1) opener.stop (some opener.span.stop)
    obtain ⟨offset'', last'', e'⟩ := ih' (fun u mem => inside u (by simp [mem])) more nested closer.stop
      (some closer.span.stop)
    refine ⟨offset'', last'', ?_⟩
    have single := closer?_of_closing? closes
    have : State.skipFrom nested offset last (opener :: (inner ++ (closer :: ts ++ more)))
        = State.skipFrom (nested + 1) opener.stop (some opener.span.stop) (inner ++ (closer :: ts ++ more)) := by
      simp [State.skipFrom, inside opener, opens]
    rw [List.append_assoc, List.cons_append, this, e, ← e', List.cons_append]
    simp [State.skipFrom, inside closer, single, closes]

/-- Passing over a group takes it up to its closing bracket. -/
theorem skipComponent_group (e : st.rest = opener :: inner ++ closer :: more) (opens : opener.kind.closer? = some c)
    (nested : WellNested room inner) (inside : ∀ t ∈ inner, t.kind ≠ .eof) (closes : closer.kind.closing? = some c) :
    st.skipComponent.2.rest = more := by
  have single := closer?_of_closing? closes
  have more' : closer.kind ≠ .eof := by
    rintro eof
    simp [eof, Kind.closing?] at closes
  obtain ⟨offset, last, skipped⟩ := skipFrom_append nested inside (closer :: more) 0 st.advance.lastOffset
    st.advance.lastEnd
  have restAfter : st.advance.rest = inner ++ closer :: more := by rw [State.advance_of_rest e]; rfl
  unfold State.skipComponent
  simp only [e, List.cons_append, opens, Option.isSome_some, if_true, State.skipNested, restAfter, skipped]
  simp [State.skipFrom, more', single, closes]

/-- Passing over a token that opens no group takes this token. -/
theorem skipComponent_single (e : st.rest = t :: ts) (opens : t.kind.closer? = none) :
    st.skipComponent.2.rest = ts := by
  unfold State.skipComponent
  simp [e, opens, State.advance_of_rest e]

/-! ## Reading -/

/-- Behind the closing bracket of a group reading is outside again, if it goes past what stands inside. -/
theorem survey_group (inside : ∀ more, (Nest.outer.survey room (Nest.endsGroup c) (inner ++ more)).2
      = (Nest.outer.survey room (Nest.endsGroup c) more).2)
    (opens : opener.kind.closer? = some c) (closes : closer.kind.closing? = some c) :
    (Nest.outer.after (room + 1) opener.kind).survey (room + 1) stop (inner ++ closer :: more)
      = Nest.outer.survey (room + 1) stop more := by
  have entered : Nest.outer.after (room + 1) opener.kind = Nest.outer.within c := by
    simp [Nest.after, Nest.outer, Nest.within, opens]
  have ends : Nest.endsGroup c closer.kind = true := by simp [Nest.endsGroup, closes]
  rw [entered, Nest.survey_within, inside, Nest.survey_stops (Nest.isOutside_outer _) (.inr ends)]
  simp [Nest.behind, closes]

/-- Reading that stops only at closing brackets goes past properly nested ones. -/
theorem survey_append (h : WellNested room ts) (inside : ∀ t ∈ ts, t.kind ≠ .eof)
    (stops : ∀ k, stop k = true → k.closing? ≠ none) (more : List Token) :
    (Nest.outer.survey room stop (ts ++ more)).2 = (Nest.outer.survey room stop more).2 := by
  induction h generalizing stop more with
  | nil => rfl
  | @single _ t ts opens closes _ ih =>
    have goesOn : stop t.kind = false := Bool.eq_false_iff.2 fun yes => stops _ yes closes
    have later := ih (fun u mem => inside u (by simp [mem])) stops more
    rw [List.cons_append, Nest.survey_outer_cons, Nest.after_outer opens, ← later]
    simp [inside t, goesOn]
  | @group _ opener closer inner ts c opens _ closes _ ih ih' =>
    have goesOn : stop opener.kind = false := Bool.eq_false_iff.2 fun yes => stops _ yes (closing?_of_closer? opens)
    have later := ih' (fun u mem => inside u (by simp [mem])) stops more
    rw [List.append_assoc, List.cons_append, List.cons_append, Nest.survey_outer_cons,
      survey_group (ih (fun u mem => inside u (by simp [mem])) closing?_of_endsGroup) opens closes, ← later]
    simp [inside opener, goesOn]

/-- What stands in properly nested brackets does not end the group around it. -/
theorem survey_inside (h : WellNested room inner) (inside : ∀ t ∈ inner, t.kind ≠ .eof) (c : Char) (more : List Token) :
    (Nest.outer.survey room (Nest.endsGroup c) (inner ++ more)).2
      = (Nest.outer.survey room (Nest.endsGroup c) more).2 :=
  survey_append h inside closing?_of_endsGroup more

/-- **A component value whose brackets are properly nested is passed over as it is read**: up to its closing bracket. -/
theorem component_rest_group {fuel : Nat} (e : st.rest = opener :: inner ++ closer :: more)
    (opens : opener.kind.closer? = some c) (nested : WellNested room inner) (inside : ∀ t ∈ inner, t.kind ≠ .eof)
    (closes : closer.kind.closing? = some c) (shallow : st.depth + room < maxDepth) (enough : 2 * st.rest.length ≤ fuel) :
    (component inp fuel st).2.rest = more ∧ st.skipComponent.2.rest = more := by
  refine ⟨?_, skipComponent_group e opens nested inside closes⟩
  obtain ⟨n, left⟩ : ∃ n, maxDepth - st.depth = n + 1 := Nat.exists_eq_succ_of_ne_zero (by omega)
  have nested : WellNested n inner := nested.mono (by omega)
  obtain ⟨-, -, read⟩ := (componentsSurvey inp fuel).one st opener (inner ++ closer :: more) e enough
  have here := read fun _ => true
  have stays (ts : List Token) : (Nest.outer.survey (n + 1) (fun _ => true) ts).2 = ts := by
    cases ts with
    | nil => rfl
    | cons t ts => rw [Nest.survey_stops (Nest.isOutside_outer _) (.inr rfl)]
  rw [left, survey_group (survey_inside nested inside c) opens closes] at here
  rw [← stays (component inp fuel st).2.rest, ← here, stays]

/-! ## Declarations -/

/-- A malformed declaration is passed over one component value at a time. -/
theorem skipDeclaration_eq_skipComponent {fuel offset : Nat} (e : st.rest = t :: ts) (more : t.kind ≠ .eof)
    (goesOn : endsDeclaration t.kind = false) :
    skipDeclaration (fuel + 1) offset st = skipDeclaration fuel st.skipComponent.1 st.skipComponent.2 := by
  simp [skipDeclaration, nextKind_of_rest e, more, goesOn]

theorem skipDeclaration_of_ends {fuel offset : Nat} (ends : st.nextKind = .eof ∨ endsDeclaration st.nextKind = true) :
    skipDeclaration fuel offset st = (offset, st) := by
  cases fuel with
  | zero => rfl
  | succ fuel =>
    rw [skipDeclaration, if_pos]
    simpa using ends

/-- Passing over a malformed declaration goes where reading it would go, if brackets are properly nested. -/
theorem skipDeclaration_rest_eq_survey {fuel offset : Nat} (e : st.rest = value ++ more) (h : WellNested room value)
    (inside : ∀ t ∈ value, t.kind ≠ .eof) (ends : ∀ t ∈ more.head?, t.kind = .eof ∨ endsDeclaration t.kind = true)
    (enough : st.rest.length ≤ fuel) :
    (skipDeclaration fuel offset st).2.rest = (Nest.outer.survey room endsDeclaration st.rest).2 := by
  induction h generalizing st fuel offset with
  | nil =>
    have last : st.nextKind = .eof ∨ endsDeclaration st.nextKind = true := by
      cases more with
      | nil => exact .inl (by simp [State.nextKind, e])
      | cons t more => simpa [State.nextKind, e] using ends t
    rw [skipDeclaration_of_ends last]
    cases more with
    | nil => simp [e, Nest.survey]
    | cons t more =>
      rw [e, List.nil_append, Nest.survey_stops (Nest.isOutside_outer _) (ends t rfl)]
  | @single _ t ts opens closes _ ih =>
    rw [List.cons_append] at e
    have t_ne := inside t (by simp)
    cases stops : endsDeclaration t.kind with
    | true =>
      rw [skipDeclaration_of_ends (.inr (by rw [nextKind_of_rest e, stops])), e,
        Nest.survey_stops (Nest.isOutside_outer _) (.inr stops)]
    | false =>
      obtain ⟨fuel, rfl⟩ : ∃ n, fuel = n + 1 := Nat.exists_eq_succ_of_ne_zero (by simp [e] at enough; omega)
      have after := skipComponent_single e opens
      have later : (skipDeclaration fuel st.skipComponent.1 st.skipComponent.2).2.rest = _ :=
        ih after (fun u mem => inside u (by simp [mem])) (by rw [after]; simpa [e] using enough)
      rw [skipDeclaration_eq_skipComponent e t_ne stops, later, after, e, Nest.survey_outer_cons, Nest.after_outer opens]
      simp [t_ne, stops]
  | @group _ opener closer inner ts c opens nested closes _ _ ih =>
    have e' : st.rest = opener :: inner ++ closer :: (ts ++ more) := by simpa using e
    have opener_ne := inside opener (by simp)
    have stops : endsDeclaration opener.kind = false := by
      cases k : opener.kind <;> first | rfl | (rw [k] at opens; cases opens)
    have inner_ne : ∀ t ∈ inner, t.kind ≠ .eof := fun t mem => inside t (by simp [mem])
    obtain ⟨fuel, rfl⟩ : ∃ n, fuel = n + 1 := Nat.exists_eq_succ_of_ne_zero (by simp [e'] at enough; omega)
    have after := skipComponent_group e' opens nested inner_ne closes
    have shorter : (ts ++ more).length ≤ fuel := by
      rw [e'] at enough
      simp only [List.length_append, List.length_cons] at enough ⊢
      omega
    have later : (skipDeclaration fuel st.skipComponent.1 st.skipComponent.2).2.rest = _ :=
      ih after (fun u mem => inside u (by simp [mem])) (by rwa [after])
    rw [skipDeclaration_eq_skipComponent e' opener_ne stops, later, after, e', List.cons_append, Nest.survey_outer_cons,
      survey_group (survey_inside nested inner_ne c) opens closes]
    simp [opener_ne, stops]

/-- **A malformed declaration ends where a well-formed one with the same value does**, if the brackets of the value are
properly nested. -/
theorem skipDeclaration_rest (e : st.rest = value ++ more) (h : WellNested (maxDepth - st.depth) value)
    (inside : ∀ t ∈ value, t.kind ≠ .eof) (ends : ∀ t ∈ more.head?, t.kind = .eof ∨ endsDeclaration t.kind = true)
    (offset : Nat) :
    (skipDeclaration st.rest.length offset st).2.rest = (components inp endsDeclaration st).2.rest := by
  obtain ⟨-, read⟩ := components_survey inp endsDeclaration st
  rw [skipDeclaration_rest_eq_survey e h inside ends (Nat.le_refl _), read]

/-- The brace that ends the block is taken for the end of the parentheses: of `(}c` reading leaves the brace to the block
and counting does not. -/
example :
    let ts := tokens "(\x7dc" none
    ((component ⟨"(\x7dc", none⟩ 8 (.start ts)).2.rest.map Token.kind, (State.start ts).skipComponent.2.rest.map Token.kind)
      = ([.curlyClose, .ident "c", .eof], [.ident "c", .eof]) := by decide +kernel

end AboveFold.Grammar
