import AboveFold.Proofs.Grammar.Balance
import AboveFold.Proofs.Grammar.Shape
import Mathlib.Data.List.Forall2
import Mathlib.Data.List.TakeWhile

/-!
# Brackets without recursion

The reader of component values calls itself for every group. What it reads shows without that too, from a stack of
the brackets that are open (`Nest`): going once over the tokens, the machine finds those that stand outside of all
groups (`Nest.survey`). Each of them begins one value that the reader reads, and both stop at the same token
(`components_survey`), whatever is malformed in between.
-/

namespace AboveFold.Grammar
open Source Node Token

/-- Where among brackets reading is. `closers` are the brackets that the open groups wait for, innermost first. Inside
of a group that is too deep they are not told apart any more, and `passing` counts those that are open. -/
structure Nest where
  closers : List Char
  passing : Option Nat
deriving DecidableEq, Repr

namespace Nest

/-- Outside of all groups. -/
def outer : Nest := ⟨[], none⟩

/-- What is open behind a closing bracket. A brace ends all groups up to the innermost one in braces, and any other
bracket only a group that waits for it. -/
def close (closers : List Char) (c : Char) : List Char :=
  if c = '\x7d' then (closers.dropWhile (· ≠ '\x7d')).tail
  else if closers.head? = some c then closers.tail
  else closers

/-- Behind a token, where groups may nest `room` deep. -/
def after (room : Nat) (n : Nest) (k : Token.Kind) : Nest :=
  match n.passing with
  | some inner =>
    if k = .eof then { n with passing := none }
    else if k.closer?.isSome then { n with passing := some (inner + 1) }
    else if k.closing?.isSome then
      match inner with
      | 0 => { n with passing := none }
      | inner + 1 => { n with passing := some inner }
    else n
  | none =>
    match k.closer?, k.closing? with
    | some c, _ => if n.closers.length < room then { n with closers := c :: n.closers } else { n with passing := some 0 }
    | none, some c => { n with closers := close n.closers c }
    | none, none => n

/-- Whether a token stands outside of all groups: none is open, or it ends all that are. -/
def isOutside (n : Nest) (k : Token.Kind) : Bool :=
  n.passing = none && (n.closers = [] || k = .eof || (k = .curlyClose && !n.closers.contains '\x7d'))

/-- The tokens outside of all groups up to the first that satisfies `stop` or the end of input, and the tokens from
there on. -/
def survey (room : Nat) (stop : Token.Kind → Bool) (n : Nest) : List Token → List Token × List Token
  | [] => ([], [])
  | t :: ts =>
    if n.isOutside t.kind && (t.kind = .eof || stop t.kind) then ([], t :: ts)
    else
      let (heads, rest) := survey room stop (n.after room t.kind) ts
      (if n.isOutside t.kind then t :: heads else heads, rest)

variable {room : Nat} {stop : Token.Kind → Bool} {n : Nest} {k : Token.Kind} {t : Token} {ts : List Token} {c d : Char}
  {closers : List Char}

/-! ## Outside of groups -/

theorem isOutside_outer (k : Token.Kind) : outer.isOutside k = true := rfl

theorem survey_stops (outside : n.isOutside t.kind = true) (ends : t.kind = .eof ∨ stop t.kind = true) :
    n.survey room stop (t :: ts) = ([], t :: ts) := by
  rw [survey, outside]
  simp [ends]

/-- Outside of groups a token begins a value, unless reading stops at it. -/
theorem survey_outer_cons (room : Nat) (stop : Token.Kind → Bool) (t : Token) (ts : List Token) :
    outer.survey room stop (t :: ts) =
      if t.kind = .eof || stop t.kind then ([], t :: ts)
      else (t :: ((outer.after room t.kind).survey room stop ts).1,
        ((outer.after room t.kind).survey room stop ts).2) := by
  simp [survey, isOutside_outer]

/-- What the machine finds are tokens before the end of input. -/
theorem of_mem_survey {u : Token} (mem : u ∈ (n.survey room stop ts).1) : u ∈ ts ∧ u.kind ≠ .eof := by
  induction ts generalizing n with
  | nil => cases mem
  | cons t ts ih =>
    rw [survey] at mem
    split at mem
    next => cases mem
    next goesOn =>
      simp only at mem
      split at mem
      next outside =>
        rcases List.mem_cons.1 mem with rfl | later
        · refine ⟨List.mem_cons_self, fun eof => goesOn ?_⟩
          rw [outside, eof]
          rfl
        · exact ⟨List.mem_cons_of_mem t (ih later).1, (ih later).2⟩
      next => exact ⟨List.mem_cons_of_mem t (ih mem).1, (ih mem).2⟩

theorem close_nil (c : Char) : close [] c = [] := by
  simp [close]

theorem dropWhile_of_free (free : '\x7d' ∉ closers) : closers.dropWhile (· ≠ '\x7d') = [] := by
  rw [List.dropWhile_eq_nil_iff]
  exact fun c mem => decide_eq_true fun brace => free (brace ▸ mem)

theorem close_brace (free : '\x7d' ∉ closers) : close closers '\x7d' = [] := by
  rw [close, if_pos rfl, dropWhile_of_free free]
  rfl

/-- A token that opens no group leaves reading outside. -/
theorem after_outer (single : k.closer? = none) : outer.after room k = outer := by
  simp only [after, outer, single]
  split
  next e => cases e
  next => rw [close_nil]
  next => rfl

theorem isOutside_iff : n.isOutside k = true
    ↔ n.passing = none ∧ (n.closers = [] ∨ k = .eof ∨ k = .curlyClose ∧ '\x7d' ∉ n.closers) := by
  simp [isOutside, or_assoc]

/-- Where a token ends all groups that are open, they are as good as closed. -/
theorem survey_of_isOutside (outside : n.isOutside t.kind = true) (ends : t.kind = .eof ∨ t.kind = .curlyClose) :
    n.survey room stop (t :: ts) = outer.survey room stop (t :: ts) := by
  rcases ends with eof | brace
  · simp [survey, eof ▸ outside, isOutside_outer, eof]
  · have same : n.after room t.kind = outer := by
      obtain ⟨closers, passing⟩ := n
      obtain ⟨rfl, free⟩ := isOutside_iff.1 outside
      have free : '\x7d' ∉ closers := by
        rcases free with rfl | eof | ⟨-, free⟩
        · simp
        · simp [brace] at eof
        · exact free
      simp only [after, brace, Kind.closer?, Kind.closing?, close_brace free]
      rfl
    rw [survey_outer_cons, survey, outside, same, after_outer (by rw [brace]; rfl)]
    simp

/-! ## Inside of a group -/

/-- Inside of a group that waits for `c`. -/
def within (c : Char) (n : Nest) : Nest := { n with closers := n.closers ++ [c] }

/-- Whether a token ends a group that waits for `c`. -/
def endsGroup (c : Char) (k : Token.Kind) : Bool := k.closing? = some c || k = .curlyClose

/-- The tokens behind the bracket that closes a group, if it is there. -/
def behind (c : Char) : List Token → List Token
  | [] => []
  | t :: ts => if t.kind.closing? = some c then ts else t :: ts

theorem closing?_eq_brace : k.closing? = some '\x7d' ↔ k = .curlyClose := by
  cases k <;> simp [Kind.closing?]

/-- A closing bracket that does not end the outermost group leaves it open. -/
theorem close_append (brace : d = '\x7d' → '\x7d' ∈ closers) (other : closers = [] → d ≠ c) :
    close (closers ++ [c]) d = close closers d ++ [c] := by
  unfold close
  by_cases e : d = '\x7d'
  · have some : closers.dropWhile (· ≠ '\x7d') ≠ [] := by
      rw [Ne, List.dropWhile_eq_nil_iff]
      exact fun all => by simpa using all _ (brace e)
    rw [if_pos e, if_pos e, List.dropWhile_append, List.isEmpty_eq_false_iff.2 some]
    exact List.tail_append_of_ne_nil some
  · rw [if_neg e, if_neg e]
    cases closers with
    | nil => simp [Ne.symm (other rfl)]
    | cons d' closers =>
      by_cases same : some d' = some d
      · simp [same]
      · simp [same]

/-- The bracket that a group waits for closes it, if none inside is open, and a brace closes those too. -/
theorem close_last (free : closers = [] ∨ c = '\x7d' ∧ '\x7d' ∉ closers) : close (closers ++ [c]) c = [] := by
  rcases free with rfl | ⟨rfl, free⟩
  · by_cases brace : c = '\x7d' <;> simp [close, brace]
  · rw [close, if_pos rfl, List.dropWhile_append, dropWhile_of_free free]
    simp

theorem isOutside_within : (n.within c).isOutside k = true
    ↔ n.passing = none ∧ (k = .eof ∨ k = .curlyClose ∧ '\x7d' ∉ n.closers ∧ c ≠ '\x7d') := by
  simp [isOutside_iff, within, @eq_comm _ '\x7d' c]

/-- What goes on inside of a group leaves the group as it is. -/
theorem after_within (more : n.isOutside k = true → endsGroup c k = false) :
    (n.within c).after (room + 1) k = (n.after room k).within c := by
  obtain ⟨closers, passing⟩ := n
  cases passing with
  | some inner =>
    unfold after within
    simp only
    split
    next => rfl
    split
    next => rfl
    split
    next => cases inner <;> rfl
    next => rfl
  | none =>
    unfold after within
    simp only
    split
    next => simp only [List.length_append, List.length_singleton, Nat.add_lt_add_iff_right]; split <;> rfl
    next d _ closes =>
      rw [close_append]
      · rintro rfl
        -- a brace that ended the group would stand outside
        by_contra free
        have brace := closing?_eq_brace.1 closes
        have outside : isOutside ⟨closers, none⟩ k = true := isOutside_iff.2 ⟨rfl, .inr (.inr ⟨brace, free⟩)⟩
        simpa [endsGroup, brace] using more outside
      · rintro rfl rfl
        simpa [endsGroup, closes] using more rfl
    next => rfl

/-- The machine finds nothing inside of a group, and behind it goes on outside. -/
theorem survey_within : (n.within c).survey (room + 1) stop ts
    = outer.survey (room + 1) stop (behind c (n.survey room (endsGroup c) ts).2) := by
  induction ts generalizing n with
  | nil => rfl
  | cons t ts ih =>
    by_cases ends : n.isOutside t.kind = true ∧ (t.kind = .eof ∨ endsGroup c t.kind = true)
    · obtain ⟨outside, ends⟩ := ends
      rw [survey_stops outside ends, behind]
      obtain ⟨alone, free⟩ := isOutside_iff.1 outside
      split
      next closes =>
        have inside : (n.within c).isOutside t.kind = false := by
          refine Bool.eq_false_iff.2 fun h => ?_
          rcases (isOutside_within.1 h).2 with eof | ⟨brace, -, other⟩
          · simp [eof, Kind.closing?] at closes
          · exact other (Option.some.inj (closes.symm.trans (closing?_eq_brace.2 brace)))
        have closed : (n.within c).after (room + 1) t.kind = outer := by
          have last : close (n.closers ++ [c]) c = [] := by
            refine close_last (free.imp_right fun h => ?_)
            rcases h with eof | ⟨brace, free⟩
            · simp [eof, Kind.closing?] at closes
            · exact ⟨Option.some.inj (closes.symm.trans (closing?_eq_brace.2 brace)), free⟩
          have single : t.kind.closer? = none := by cases k : t.kind <;> simp [k, Kind.closing?] at closes <;> rfl
          simp only [after, within, alone, single, closes, last]
          rfl
        rw [survey, inside, closed]
        simp
      next other =>
        have ends : t.kind = .eof ∨ t.kind = .curlyClose := by simpa [endsGroup, other] using ends
        refine survey_of_isOutside (isOutside_within.2 ⟨alone, ends.imp_right fun brace => ⟨brace, ?_, ?_⟩⟩) ends
        · rcases free with none | eof | ⟨-, free⟩
          · simp [none]
          · simp [brace] at eof
          · exact free
        · rintro rfl
          exact other (closing?_eq_brace.2 brace)
    · have goes : (n.survey room (endsGroup c) (t :: ts)).2 = ((n.after room t.kind).survey room (endsGroup c) ts).2 := by
        simp [survey, ends]
      have inside : (n.within c).isOutside t.kind = false := by
        refine Bool.eq_false_iff.2 fun h => ends ?_
        obtain ⟨alone, last⟩ := isOutside_within.1 h
        refine ⟨isOutside_iff.2 ⟨alone, .inr (last.imp_right fun brace => ⟨brace.1, brace.2.1⟩)⟩, ?_⟩
        exact last.imp_right fun brace => by simp [endsGroup, brace.1]
      have open' : n.isOutside t.kind = true → endsGroup c t.kind = false :=
        fun outside => Bool.eq_false_iff.2 fun closes => ends ⟨outside, .inr closes⟩
      rw [goes, ← ih, ← after_within open', survey, inside]
      simp

/-! ## In a group that is too deep -/

/-- Where groups are not told apart, they are passed over. -/
theorem survey_passing (room : Nat) (stop : Token.Kind → Bool) (inner offset : Nat) (last : Option Position)
    (ts : List Token) : (Nest.mk [] (some inner)).survey room stop ts
      = outer.survey room stop (State.skipFrom inner offset last ts).2.2 := by
  induction ts generalizing inner offset last with
  | nil => rfl
  | cons t ts ih =>
    have inside : (Nest.mk [] (some inner)).isOutside t.kind = false := rfl
    rw [survey, inside]
    simp only [Bool.false_and, Bool.false_eq_true, if_false, after, State.skipFrom]
    split
    next => rfl
    split
    next => exact ih ..
    split
    next =>
      cases inner with
      | zero => rfl
      | succ inner => exact ih ..
    next => exact ih ..

theorem length_survey_le (room : Nat) (stop : Token.Kind → Bool) (n : Nest) (ts : List Token) :
    (n.survey room stop ts).2.length ≤ ts.length := by
  induction ts generalizing n with
  | nil => exact Nat.le_refl 0
  | cons t ts ih =>
    rw [survey]
    split
    next => exact Nat.le_refl _
    next => exact Nat.le_succ_of_le (ih _)

theorem length_behind_le (c : Char) (ts : List Token) : (behind c ts).length ≤ ts.length := by
  cases ts with
  | nil => exact Nat.le_refl 0
  | cons t ts =>
    simp only [behind]
    split
    next => exact Nat.le_succ _
    next => exact Nat.le_refl _

end Nest

/-! ## The reader -/

theorem length_skipFrom_le (nested offset : Nat) (last : Option Position) (ts : List Token) :
    (State.skipFrom nested offset last ts).2.2.length ≤ ts.length := by
  induction ts generalizing nested offset last with
  | nil => exact Nat.le_refl 0
  | cons t ts ih =>
    simp only [State.skipFrom]
    split
    next => exact Nat.le_succ _
    split
    next => exact Nat.le_succ_of_le (ih ..)
    split
    next =>
      cases nested with
      | zero => exact Nat.le_succ _
      | succ nested => exact Nat.le_succ_of_le (ih ..)
    next => exact Nat.le_succ_of_le (ih ..)

variable {inp : Input} {st : State} {t : Token} {ts : List Token} {fuel : Nat}

/-- A component value was read from the token that stands at its front: from this token alone, or from the group that it
opens. -/
inductive Headed (inp : Input) (t : Token) : Parsed → Prop where
  | leaf (single : Group.of? t.kind = none) : Headed inp t (.leaf (leafKind inp t) t.span.bytes)
  | group {g : Group} (opens : Group.of? t.kind = some g) (stop : Nat) (children : List Parsed) :
      Headed inp t (groupNode g ⟨t.start, stop⟩ children).1
  | deep {g : Group} (opens : Group.of? t.kind = some g) (stop : Nat) :
      Headed inp t (.leaf (.other (inp.slice ⟨t.start, stop⟩)) ⟨t.start, stop⟩)

theorem Group.closer?_of? (k : Token.Kind) : k.closer? = (Group.of? k).map Group.closeChar := by
  cases k <;> rfl

theorem closeGroup_rest (inp : Input) (g : Group) (st : State) :
    (closeGroup inp g st).rest = Nest.behind g.closeChar st.rest := by
  unfold closeGroup
  cases e : st.rest with
  | nil => simp [State.nextKind, e, State.leave, State.report, Nest.behind]
  | cons t ts =>
    simp only [State.nextKind, e, Nest.behind]
    split
    next eof => simp [State.leave, State.report, e, eof, Kind.closing?]
    split
    next => simp [State.leave, State.advance, e]
    next => simp [State.leave, State.report, e]

theorem leaf_rest (inp : Input) (t : Token) (st : State) : (leaf inp t st).2.rest = st.rest := by
  unfold leaf
  split <;> rfl

/-- What `component` and `componentList` read with the given fuel is what the machine finds. -/
structure ComponentsSurvey (inp : Input) (fuel : Nat) : Prop where
  one : ∀ st t ts, st.rest = t :: ts → 2 * st.rest.length ≤ fuel →
    Headed inp t (component inp fuel st).1 ∧ (component inp fuel st).2.rest.length < st.rest.length
      ∧ ∀ stop, (Nest.outer.after (maxDepth - st.depth) t.kind).survey (maxDepth - st.depth) stop ts
        = Nest.outer.survey (maxDepth - st.depth) stop (component inp fuel st).2.rest
  many : ∀ stop st, 2 * st.rest.length + 1 ≤ fuel →
    List.Forall₂ (Headed inp) (Nest.outer.survey (maxDepth - st.depth) stop st.rest).1 (componentList inp stop fuel st).1
      ∧ (componentList inp stop fuel st).2.rest = (Nest.outer.survey (maxDepth - st.depth) stop st.rest).2

theorem ComponentsSurvey.component_succ (ih : ComponentsSurvey inp fuel) (e : st.rest = t :: ts)
    (enough : 2 * st.rest.length ≤ fuel + 1) :
    Headed inp t (component inp (fuel + 1) st).1 ∧ (component inp (fuel + 1) st).2.rest.length < st.rest.length
      ∧ ∀ stop, (Nest.outer.after (maxDepth - st.depth) t.kind).survey (maxDepth - st.depth) stop ts
        = Nest.outer.survey (maxDepth - st.depth) stop (component inp (fuel + 1) st).2.rest := by
  have closer := Group.closer?_of? t.kind
  have restAfter : st.advance.rest = ts := by rw [State.advance_of_rest e]
  have depthAfter : st.advance.depth = st.depth := (sameLevel_advance st).depth
  have shorter : ts.length < st.rest.length := by simp [e]
  rw [component.eq_def]
  simp only [e]
  split
  next single =>
    rw [single] at closer
    rw [leaf_rest, restAfter, Nest.after_outer closer, leaf_fst]
    exact ⟨.leaf single, by simp, fun _ => rfl⟩
  next g opens =>
    rw [opens] at closer
    split
    next deep =>
      have none : maxDepth - st.depth = 0 := Nat.sub_eq_zero_of_le (depthAfter ▸ deep)
      have opened : Nest.outer.after 0 t.kind = ⟨[], some 0⟩ := by simp [Nest.after, Nest.outer, closer]
      have skipped := length_skipFrom_le 0 st.advance.lastOffset st.advance.lastEnd ts
      simp only [State.skipNested, State.report, State.lastOffset, restAfter] at skipped ⊢
      refine ⟨.deep opens _, Nat.lt_succ_of_le skipped, fun stop => ?_⟩
      rw [none, opened]
      exact Nest.survey_passing ..
    next shallow =>
      obtain ⟨inner, room⟩ : ∃ inner, maxDepth - st.depth = inner + 1 := Nat.exists_eq_succ_of_ne_zero (by omega)
      have opened : Nest.outer.after (inner + 1) t.kind = Nest.outer.within g.closeChar := by
        simp [Nest.after, Nest.outer, Nest.within, closer]
      let inside := st.advance.enter ⟨g.construct, t.span⟩
      have restInside : inside.rest = ts := restAfter
      have depthInside : inside.depth = st.depth + 1 := congrArg (· + 1) depthAfter
      have less : maxDepth - inside.depth = inner := by omega
      obtain ⟨-, rest⟩ := ih.many g.endsAt inside (by rw [restInside]; omega)
      rw [less, restInside] at rest
      refine ⟨.group opens _ _, ?_, fun stop => ?_⟩
      · rw [State.discard, closeGroup_rest, rest]
        have := Nest.length_behind_le g.closeChar (Nest.outer.survey inner g.endsAt ts).2
        have := Nest.length_survey_le inner g.endsAt Nest.outer ts
        simp only [List.length_cons]
        omega
      · rw [State.discard, closeGroup_rest, rest, room, opened, Nest.survey_within]
        rfl

theorem ComponentsSurvey.componentList_succ (ih : ComponentsSurvey inp fuel) (stop : Token.Kind → Bool)
    (enough : 2 * st.rest.length + 1 ≤ fuel + 1) :
    List.Forall₂ (Headed inp) (Nest.outer.survey (maxDepth - st.depth) stop st.rest).1
        (componentList inp stop (fuel + 1) st).1
      ∧ (componentList inp stop (fuel + 1) st).2.rest = (Nest.outer.survey (maxDepth - st.depth) stop st.rest).2 := by
  rw [componentList.eq_def]
  cases e : st.rest with
  | nil => simp [State.nextKind, e, Nest.survey]
  | cons t ts =>
    simp only [State.nextKind, e, Nest.survey_outer_cons]
    split
    next => exact ⟨.nil, e⟩
    next more =>
      obtain ⟨headed, shorter, later⟩ := ih.one st t ts e (by omega)
      obtain ⟨heads, rest⟩ := ih.many stop (component inp fuel st).2 (by omega)
      rw [((componentsLevel inp fuel).1 st).depth] at heads rest
      rw [later]
      exact ⟨.cons headed heads, rest⟩

theorem componentsSurvey (inp : Input) (fuel : Nat) : ComponentsSurvey inp fuel := by
  induction fuel with
  | zero =>
    constructor
    · intro st t ts e enough
      simp [e] at enough
    · intro stop st enough
      omega
  | succ fuel ih =>
    exact ⟨fun _ _ _ e enough => ih.component_succ e enough, fun stop _ enough => ih.componentList_succ stop enough⟩

/-- **The reader of component values reads one value for each token that stands outside of all groups**, in their order,
and stops where the machine stops. -/
theorem components_survey (inp : Input) (stop : Token.Kind → Bool) (st : State) :
    List.Forall₂ (Headed inp) (Nest.outer.survey (maxDepth - st.depth) stop st.rest).1 (components inp stop st).1
      ∧ (components inp stop st).2.rest = (Nest.outer.survey (maxDepth - st.depth) stop st.rest).2 :=
  (componentsSurvey inp _).many stop st (Nat.le_refl _)

end AboveFold.Grammar
