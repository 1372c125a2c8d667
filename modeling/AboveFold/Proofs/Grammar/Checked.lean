import AboveFold.Proofs.Grammar.Nesting

/-!
# Reading under check

The reader once more, with what it relies on checked as it goes (`Input.read?`). Wherever a list or a component value is
about to be read, as many brackets are open as the depth says, and no more than may be (`State.Level`). What is opened
has room; what is closed is the innermost open bracket, with those behind it that were open before (`Innermost`). Fuel
does not run out before the tokens do. No check fails, and the reader under check reads what the reader reads
(`Input.read?_eq`).
-/

namespace AboveFold.Grammar
open Source Node

/-- As many brackets are open as the depth says, and no more than may be. -/
structure State.Level (st : State) : Prop where
  balanced : st.depth = st.openings.length
  bounded : st.depth ≤ maxDepth

instance (st : State) : Decidable st.Level :=
  decidable_of_iff (st.depth = st.openings.length ∧ st.depth ≤ maxDepth) ⟨fun h => ⟨h.1, h.2⟩, fun h => ⟨h.1, h.2⟩⟩

/-- The innermost bracket open in `st` is `o`, and behind it are those that were open in `outer`. -/
structure Innermost (outer : State) (o : Diagnostic.Opening) (st : State) : Prop where
  openings : st.openings = o :: outer.openings
  depth : st.depth = outer.depth + 1

instance (outer : State) (o : Diagnostic.Opening) (st : State) : Decidable (Innermost outer o st) :=
  decidable_of_iff (st.openings = o :: outer.openings ∧ st.depth = outer.depth + 1)
    ⟨fun h => ⟨h.1, h.2⟩, fun h => ⟨h.1, h.2⟩⟩

/-- Goes on only if a condition holds. -/
def check (c : Prop) [Decidable c] : Option Unit := if c then some () else none

/-! ## The reader under check -/

mutual

/-- `component` under check. -/
def component? (inp : Input) (fuel : Nat) (st : State) : Option (Parsed × State) :=
  match fuel with
  | 0 => none
  | fuel + 1 => do
    check st.Level
    match st.rest with
    | [] => some (missing st, st)
    | t :: _ =>
      let st := st.advance
      match Group.of? t.kind with
      | none => some (leaf inp t st)
      | some g =>
        if maxDepth ≤ st.depth then
          let (skipped, st) := (st.report (.tooDeep t.span)).skipNested
          let span := ⟨t.start, skipped.stop⟩
          some (.leaf (.other (inp.slice span)) span, st)
        else
          let opening := ⟨g.construct, t.span⟩
          let (children, inside) ← componentList? inp g.endsAt fuel (st.enter opening)
          check (Innermost st opening inside)
          let st := closeGroup inp g inside
          let (node, dropped) := groupNode g ⟨t.start, st.lastOffset⟩ children
          some (node, st.discard dropped)

/-- `componentList` under check. -/
def componentList? (inp : Input) (stop : Token.Kind → Bool) (fuel : Nat) (st : State) : Option (List Parsed × State) :=
  match fuel with
  | 0 => none
  | fuel + 1 => do
    check st.Level
    if st.nextKind = .eof || stop st.nextKind then some ([], st)
    else
      let (p, st) ← component? inp fuel st
      let (ps, st) ← componentList? inp stop fuel st
      some (p :: ps, st)

end

/-- `components` under check. -/
def components? (inp : Input) (stop : Token.Kind → Bool) (st : State) : Option (List Parsed × State) :=
  componentList? inp stop (2 * st.rest.length + 1) st

/-- `skipDeclaration` under check. -/
def skipDeclaration? (fuel stop : Nat) (st : State) : Option (Nat × State) :=
  if st.nextKind = .eof || endsDeclaration st.nextKind then some (stop, st)
  else
    match fuel with
    | 0 => none
    | fuel + 1 =>
      let (stop, st) := st.skipComponent
      skipDeclaration? fuel stop st

/-- `rawDeclaration` under check. -/
def rawDeclaration? (inp : Input) (start stop : Nat) (st : State) : Option (Parsed × State) := do
  let (stop, st) ← skipDeclaration? st.rest.length stop st
  some (rawNode inp start stop, st)

/-- `declaration` under check. -/
def declaration? (inp : Input) (t : Token) (property : String) (st : State) : Option (Parsed × State) :=
  let st := st.advance.skipTrivia
  match st.rest with
  | ⟨.colon, colon⟩ :: _ => do
    let (atoms, st) ← components? inp endsDeclaration st.advance
    some (declarationOf inp property t.start colon.stop.offset atoms st)
  | _ =>
    let error := .missingColon property st.nextKind.description (st.nextSpan inp)
    rawDeclaration? inp t.start t.stop (st.report error)

/-- `atRuleHead` under check. -/
def atRuleHead? (inp : Input) (nameEnd : Nat) (st : State) : Option (AtRuleHead × State) := do
  let ends (k : Token.Kind) : Bool := k = .semicolon || k = .curlyOpen || k = .curlyClose
  let (atoms, st) ← components? inp ends st
  let stop := atoms.foldl (fun stop p => max stop p.span.stop) nameEnd
  match st.nextKind with
  | .semicolon =>
    let st := st.advance
    some (⟨atoms, st.lastOffset, false⟩, st)
  | .curlyOpen => some (⟨atoms, stop, true⟩, st)
  | _ => some (⟨atoms, stop, false⟩, st)

/-- `ruleHead` under check. -/
def ruleHead? (inp : Input) (place : Place) (st : State) : Option (RuleHead × State) := do
  let start := (st.nextSpan inp).start.offset
  let (atoms, st) ← components? inp (endsSelectors place) st
  match st.nextKind with
  | .curlyOpen =>
    let (selectorList, st) := selectorListOf inp start atoms st
    some (.block selectorList start, st)
  | .eof =>
    let error := .missingBlock (st.endSpan inp) (inp.placeOf ⟨start, start⟩)
    some (.raw (rawNode inp start st.lastOffset), (st.report error).discard atoms)
  | k =>
    let error := .expectedBlock k.description (st.nextSpan inp)
    some (.raw (rawNode inp start st.lastOffset), (st.report error).discard atoms)

mutual

/-- `entries` under check. -/
def entries? (inp : Input) (place : Place) (fuel : Nat) (st : State) : Option (List Parsed × State) :=
  match fuel with
  | 0 => none
  | fuel + 1 => do
    check st.Level
    match st.rest with
    | [] => some ([], st)
    | t :: ts =>
      match entryOf place (t :: ts) with
      | .finish => some ([], st)
      | .separator => entries? inp place fuel st.advance
      | .strayBrace => entries? inp place fuel (st.advance.report (.strayBrace t.span))
      | .comment text =>
        let (ps, st) ← entries? inp place fuel st.advance
        some (.leaf (.comment text) t.span.bytes :: ps, st)
      | .fault fault =>
        let st := st.advance.report (.lexical fault t.span)
        let (p, st) ← match place with
          | .declarations => rawDeclaration? inp t.start t.stop st
          | _ => some (rawNode inp t.start t.stop, st)
        let (ps, st) ← entries? inp place fuel st
        some (p :: ps, st)
      | .declaration property =>
        let (p, st) ← declaration? inp t property st
        let (ps, st) ← entries? inp place fuel st
        some (p :: ps, st)
      | .atRule name =>
        let (head, st) ← atRuleHead? inp t.stop st.advance
        let (block, stop, st) ← if head.hasBlock then do
            let (p, st) ← block? inp (atRuleContents name) .atRuleBlock fuel st
            some ([p], p.span.stop, st)
          else some ([], head.stop, st)
        let (prelude, dropped) := preludeOf inp name head.atoms
        let (ps, st) ← entries? inp place fuel (st.discard dropped)
        some (.node (.atRule name) ⟨t.start, stop⟩ (prelude ++ block) :: ps, st)
      | .styleRule =>
        match ← ruleHead? inp place st with
        | (.raw p, st) =>
          let (ps, st) ← entries? inp place fuel st
          some (p :: ps, st)
        | (.block selectorList start, st) =>
          let (p, st) ← block? inp .declarations .ruleBlock fuel st
          let (ps, st) ← entries? inp place fuel st
          some (.node .rule ⟨start, p.span.stop⟩ [selectorList, p] :: ps, st)

/-- `block` under check. -/
def block? (inp : Input) (contents : Contents) (construct : Diagnostic.Construct) (fuel : Nat) (st : State) :
    Option (Parsed × State) :=
  match fuel, st.rest with
  | 0, _ => none
  | _, [] => some (.leaf (.block contents) ⟨st.lastOffset, st.lastOffset⟩, st)
  | fuel + 1, t :: _ => do
    let st := st.advance
    if maxDepth ≤ st.depth then
      let (skipped, st) := (st.report (.tooDeep t.span)).skipNested
      some (.node (.block contents) ⟨t.start, skipped.stop⟩ [rawNode inp t.stop skipped.inner], st)
    else
      let opening := ⟨construct, t.span⟩
      let (ps, inside) ← entries? inp (.ofContents contents) fuel (st.enter opening)
      check (Innermost st opening inside)
      let st := closeBlock inp inside
      some (.node (.block contents) ⟨t.start, st.lastOffset⟩ ps, st)

end

/-- `Input.read` under check; no bracket is left open. -/
def Input.read? (inp : Input) (tokens : List Token) : Option Outcome := do
  let (ps, st) ← entries? inp .topLevel (2 * tokens.length + 1) (.start tokens)
  check (st.depth = 0 ∧ st.openings = [])
  some ⟨.node .styleSheet ⟨0, Text.byteSize inp.source.toList⟩ ps, st.discarded, st.errors.reverse⟩

/-! ## No check fails -/

variable {inp : Input} {tokens : List Token} {st st' : State} {t : Token} {ts : List Token} {a fuel : Nat} {place : Place}
  {p : Parsed}

theorem State.Level.start (tokens : List Token) : (State.start tokens).Level := ⟨rfl, Nat.zero_le _⟩

theorem State.Level.of_same (h : st.Level) (same : SameLevel st st') : st'.Level :=
  ⟨by rw [same.depth, same.openings, h.balanced], same.depth ▸ h.bounded⟩

theorem State.Level.enter (h : st.Level) (room : st.depth < maxDepth) (o : Diagnostic.Opening) : (st.enter o).Level :=
  ⟨by simp [State.enter, h.balanced], room⟩

theorem SameLevel.innermost {o : Diagnostic.Opening} (h : SameLevel (st.enter o) st') : Innermost st o st' :=
  ⟨h.openings, h.depth⟩

theorem check_bind {α : Type} {c : Prop} [Decidable c] (holds : c) (next : Unit → Option α) :
    (check c >>= next) = next () := by
  rw [check, if_pos holds]
  rfl

/-! ### Component values -/

/-- What `component` and `componentList` read with the given fuel passes its checks. -/
structure ComponentsChecked (inp : Input) (fuel : Nat) : Prop where
  one : ∀ st, st.Level → st.rest ≠ [] → 2 * st.rest.length ≤ fuel →
    component? inp fuel st = some (component inp fuel st)
  many : ∀ stop st, st.Level → 2 * st.rest.length + 1 ≤ fuel →
    componentList? inp stop fuel st = some (componentList inp stop fuel st)

theorem ComponentsChecked.component_succ (ih : ComponentsChecked inp fuel) (level : st.Level) (e : st.rest = t :: ts)
    (enough : 2 * st.rest.length ≤ fuel + 1) : component? inp (fuel + 1) st = some (component inp (fuel + 1) st) := by
  rw [component?.eq_def, component.eq_def]
  simp only [check_bind level, e]
  cases Group.of? t.kind with
  | none => rfl
  | some g =>
    simp only
    split
    next => rfl
    next shallow =>
      have inside := (level.of_same (sameLevel_advance st)).enter (Nat.lt_of_not_le shallow) ⟨g.construct, t.span⟩
      have rest : (st.advance.enter ⟨g.construct, t.span⟩).rest = ts := by simp [State.enter, State.advance_of_rest e]
      rw [e, List.length_cons] at enough
      rw [ih.many g.endsAt _ inside (by rw [rest]; omega), Option.bind_eq_bind, Option.bind_some,
        check_bind ((componentsLevel inp fuel).2 g.endsAt _).innermost]

theorem ComponentsChecked.componentList_succ (ih : ComponentsChecked inp fuel) (stop : Token.Kind → Bool)
    (level : st.Level) (enough : 2 * st.rest.length + 1 ≤ fuel + 1) :
    componentList? inp stop (fuel + 1) st = some (componentList inp stop (fuel + 1) st) := by
  rw [componentList?.eq_def, componentList.eq_def]
  simp only [check_bind level]
  split
  next => rfl
  next goesOn =>
    have more : st.nextKind ≠ .eof := by simp_all
    obtain ⟨t, ts, e, -⟩ := rest_of_nextKind more
    have shorter := ((componentsSurvey inp fuel).one st t ts e (by omega)).2.1
    have after := level.of_same ((componentsLevel inp fuel).1 st)
    rw [ih.one st level (by simp [e]) (by omega), Option.bind_eq_bind, Option.bind_some,
      ih.many stop _ after (by omega), Option.bind_eq_bind, Option.bind_some]

theorem componentsChecked (inp : Input) (fuel : Nat) : ComponentsChecked inp fuel := by
  induction fuel with
  | zero =>
    refine ⟨fun st _ some enough => ?_, fun stop st _ enough => by omega⟩
    have := List.length_pos_iff.2 some
    omega
  | succ fuel ih =>
    refine ⟨fun st level some enough => ?_, fun stop st level enough => ih.componentList_succ stop level enough⟩
    obtain ⟨t, ts, e⟩ := List.exists_cons_of_ne_nil some
    exact ih.component_succ level e enough

theorem components?_eq (level : st.Level) (stop : Token.Kind → Bool) :
    components? inp stop st = some (components inp stop st) :=
  (componentsChecked inp _).many stop st level (Nat.le_refl _)

/-! ### Heads of entries -/

theorem length_skipComponent_lt (e : st.rest = t :: ts) : st.skipComponent.2.rest.length < st.rest.length := by
  have skipped := length_skipFrom_le 0 t.stop (some t.span.stop) ts
  unfold State.skipComponent
  simp only [e, State.advance_of_rest e]
  split
  next => exact Nat.lt_succ_of_le skipped
  next => exact Nat.lt_succ_self _

theorem skipDeclaration?_eq (fuel stop : Nat) (st : State) (enough : st.rest.length ≤ fuel) :
    skipDeclaration? fuel stop st = some (skipDeclaration fuel stop st) := by
  induction fuel generalizing stop st with
  | zero =>
    have none : st.rest = [] := by simpa using enough
    rw [skipDeclaration?, if_pos (by simp [State.nextKind, none])]
    rfl
  | succ fuel ih =>
    rw [skipDeclaration?, skipDeclaration]
    split
    next => rfl
    next goesOn =>
      have more : st.nextKind ≠ .eof := by simp_all
      obtain ⟨t, ts, e, -⟩ := rest_of_nextKind more
      have shorter := length_skipComponent_lt e
      exact ih st.skipComponent.1 st.skipComponent.2 (by omega)

theorem rawDeclaration?_eq (start stop : Nat) (st : State) :
    rawDeclaration? inp start stop st = some (rawDeclaration inp start stop st) := by
  rw [rawDeclaration?, skipDeclaration?_eq _ _ _ (Nat.le_refl _)]
  rfl

theorem declaration?_eq (level : st.Level) (t : Token) (property : String) :
    declaration? inp t property st = some (declaration inp t property st) := by
  have value := (level.of_same (sameLevel_advance st)).of_same (sameLevel_skipTrivia _)
  unfold declaration? declaration
  simp only [components?_eq (value.of_same (sameLevel_advance _)), rawDeclaration?_eq]
  rcases st.advance.skipTrivia.rest with - | ⟨⟨kind, span⟩, ts⟩
  · rfl
  · cases kind <;> rfl

theorem atRuleHead?_eq (level : st.Level) (nameEnd : Nat) :
    atRuleHead? inp nameEnd st = some (atRuleHead inp nameEnd st) := by
  unfold atRuleHead? atRuleHead
  simp only [components?_eq level, Option.bind_eq_bind, Option.bind_some]
  generalize components inp _ st = head
  cases head.2.nextKind <;> rfl

theorem ruleHead?_eq (level : st.Level) (place : Place) : ruleHead? inp place st = some (ruleHead inp place st) := by
  unfold ruleHead? ruleHead
  simp only [components?_eq level, Option.bind_eq_bind, Option.bind_some]
  generalize components inp _ st = head
  cases head.2.nextKind <;> rfl

/-! ### Entries and blocks -/

/-- What `entries` and `block` read with the given fuel passes its checks. -/
structure EntriesChecked (inp : Input) (tokens : List Token) (fuel : Nat) : Prop where
  list : ∀ place st a, Ready inp.source tokens st a → st.Level → 2 * st.rest.length + 1 ≤ fuel →
    entries? inp place fuel st = some (entries inp place fuel st)
  block : ∀ contents construct st a, Ready inp.source tokens st a → st.Level → st.nextKind = .curlyOpen →
    2 * st.rest.length ≤ fuel → block? inp contents construct fuel st = some (block inp contents construct fuel st)

/-- Reading behind an entry passes its checks. -/
theorem EntriesChecked.later (ih : EntriesChecked inp tokens fuel) (place : Place) (level : st.Level)
    (enough : 2 * st.rest.length ≤ fuel) (read : ReadsEntry inp tokens st a p st') (same : SameLevel st st') :
    entries? inp place fuel st' = some (entries inp place fuel st') := by
  obtain ⟨b, ready, shorter⟩ := read.next
  exact ih.list place st' b ready (level.of_same same) (by omega)

theorem EntriesChecked.entries_succ (ih : EntriesChecked inp tokens fuel) (ready : Ready inp.source tokens st a)
    (level : st.Level) (enough : 2 * st.rest.length + 1 ≤ fuel + 1) :
    entries? inp place (fuel + 1) st = some (entries inp place (fuel + 1) st) := by
  have read := entriesRead inp tokens fuel
  have enough : 2 * st.rest.length ≤ fuel := by omega
  rw [entries?.eq_def, entries.eq_def]
  simp only [check_bind level]
  cases e : st.rest with
  | nil => rfl
  | cons t ts =>
    have step := ready.advance e
    have same := sameLevel_advance st
    have shorter := State.length_advance_lt e
    have fewer : 2 * st.advance.rest.length + 1 ≤ fuel := by omega
    simp only
    cases k : entryOf place (t :: ts) with
    | finish => rfl
    | separator => exact ih.list place _ _ step.ready (level.of_same same) fewer
    | strayBrace =>
      exact ih.list place _ _ (step.report _).ready (level.of_same (same.trans (sameLevel_report ..))) fewer
    | comment text =>
      simp only [ih.list place _ _ step.ready (level.of_same same) fewer]
      rfl
    | fault fault =>
      have later := ih.later place level enough (ready.fault place fault e) (fault_level inp place t fault st)
      cases place <;> simp_all [rawDeclaration?_eq]
    | declaration property =>
      have later := ih.later place level enough (ready.declaration property e) (declaration_level ..)
      simp [declaration?_eq level, later]
    | atRule name =>
      have later := ih.later place level enough (read.atRule name ready e enough)
        (atRule_level (block_level inp · · fuel ·) t name st)
      have sameHead := same.trans (atRuleHead_level inp t.stop st.advance)
      obtain ⟨used, b, reads, -, -, -, opens⟩ := step.ready.atRuleHead
      have less : (atRuleHead inp t.stop st.advance).2.rest.length ≤ st.advance.rest.length := by
        have := reads.length
        omega
      simp only [atRuleHead?_eq (level.of_same same), Option.bind_eq_bind, Option.bind_some]
      generalize atRuleHead inp t.stop st.advance = head at later sameHead reads opens less
      unfold atRuleBody at later
      -- with a block the body is what the hypothesis reads, without one it ends where the head does
      cases has : head.1.hasBlock with
      | false =>
        simp only [has, Bool.false_eq_true, if_false] at later ⊢
        rw [later, Option.bind_some]
      | true =>
        have block := ih.block (atRuleContents name) .atRuleBlock _ b reads.ready (level.of_same sameHead) (opens has)
          (by omega)
        simp only [has, if_true] at later ⊢
        rw [block, Option.bind_some, later, Option.bind_some]
    | styleRule =>
      have head := ready.ruleHead e k
      have sameHead := ruleHead_level inp place st
      simp only [ruleHead?_eq level, Option.bind_eq_bind, Option.bind_some]
      rcases eq : ruleHead inp place st with ⟨⟨list, start⟩ | p, st'⟩
      · rw [eq] at head sameHead
        have later := ih.later place level enough (read.styleRule ready head enough) (sameHead.trans (block_level ..))
        obtain ⟨-, used, b, reads, -, -, opens⟩ := head
        have less : used.length + st'.rest.length = st.rest.length := reads.length
        have block := ih.block .declarations .ruleBlock st' b reads.ready (level.of_same sameHead) opens (by omega)
        simp only [block, later, Option.bind_some]
      · rw [eq] at head sameHead
        simp only [ih.later place level enough head sameHead, Option.bind_some]

theorem EntriesChecked.block_succ (ih : EntriesChecked inp tokens fuel) (contents : Contents)
    (construct : Diagnostic.Construct) (ready : Ready inp.source tokens st a) (level : st.Level)
    (opens : st.nextKind = .curlyOpen) (enough : 2 * st.rest.length ≤ fuel + 1) :
    block? inp contents construct (fuel + 1) st = some (Grammar.block inp contents construct (fuel + 1) st) := by
  obtain ⟨t, ts, e, -⟩ := rest_of_opens opens
  rw [block?.eq_def, Grammar.block.eq_def]
  simp only [e]
  split
  next => rfl
  next shallow =>
    have entered := (ready.advance e).enter ⟨construct, t.span⟩
    have inside := (level.of_same (sameLevel_advance st)).enter (Nat.lt_of_not_le shallow) ⟨construct, t.span⟩
    have shorter : (st.advance.enter ⟨construct, t.span⟩).rest.length < st.rest.length :=
      State.length_advance_lt e
    rw [ih.list (.ofContents contents) _ _ entered.ready inside (by omega), Option.bind_eq_bind, Option.bind_some,
      check_bind (entries_level ..).innermost]

theorem entriesChecked (inp : Input) (tokens : List Token) (fuel : Nat) : EntriesChecked inp tokens fuel := by
  induction fuel with
  | zero =>
    refine ⟨fun place st a _ _ enough => by omega, fun contents construct st a _ _ opens enough => ?_⟩
    have some := length_pos_of_opens opens
    omega
  | succ fuel ih =>
    exact ⟨fun _ _ _ ready level enough => ih.entries_succ ready level enough,
      fun contents construct _ _ ready level opens enough => ih.block_succ contents construct ready level opens enough⟩

/-- **No check fails**: the reader under check reads what the reader reads. -/
theorem Input.read?_eq (inp : Input) {here : Nat} (boundary : IsBoundary inp.source here)
    (tiles : Token.Tiles inp.source here tokens) : inp.read? tokens = some (inp.read tokens) := by
  have same := entries_level inp .topLevel (2 * tokens.length + 1) (.start tokens)
  have checked := (entriesChecked inp tokens (2 * tokens.length + 1)).list .topLevel _ _ (Ready.start boundary tiles)
    (.start tokens) (Nat.le_refl _)
  unfold Input.read? Input.read
  rw [checked, Option.bind_eq_bind, Option.bind_some]
  exact check_bind ⟨same.depth, same.openings⟩ _

end AboveFold.Grammar
