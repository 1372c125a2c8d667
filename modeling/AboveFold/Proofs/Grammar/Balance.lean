import AboveFold.Proofs.Grammar.Entries

/-!
# Brackets are left as they were found

Whatever is read, the brackets that are open behind it are those that were open before it (`SameLevel`): each group and
each block takes back what it opened, whether its closing bracket is there or not. So the depth of reading is that of the
tree (`entries_level`).
-/

namespace AboveFold.Grammar
open Source Node

/-- The same brackets are open. -/
structure SameLevel (st st' : State) : Prop where
  depth : st'.depth = st.depth
  openings : st'.openings = st.openings

variable {inp : Input} {st st' st'' : State} {fuel : Nat} {place : Place} {t : Token} {ts : List Token} {p : Parsed}

theorem SameLevel.refl (st : State) : SameLevel st st := ⟨rfl, rfl⟩

theorem SameLevel.trans (h : SameLevel st st') (h' : SameLevel st' st'') : SameLevel st st'' :=
  ⟨h'.depth.trans h.depth, h'.openings.trans h.openings⟩

/-! ## Steps of the state -/

theorem sameLevel_advance (st : State) : SameLevel st st.advance := by
  unfold State.advance
  split <;> exact ⟨rfl, rfl⟩

theorem sameLevel_report (st : State) (d : Diagnostic) : SameLevel st (st.report d) := ⟨rfl, rfl⟩

theorem sameLevel_discard (st : State) (ps : List Parsed) : SameLevel st (st.discard ps) := ⟨rfl, rfl⟩

theorem sameLevel_skipTrivia (st : State) : SameLevel st st.skipTrivia := ⟨rfl, rfl⟩

theorem sameLevel_skipNested (st : State) : SameLevel st st.skipNested.2 := ⟨rfl, rfl⟩

/-- What was opened is taken back. -/
theorem SameLevel.leave {o : Diagnostic.Opening} (h : SameLevel (st.enter o) st') : SameLevel st st'.leave :=
  ⟨by simp [State.leave, h.depth, State.enter], by simp [State.leave, h.openings, State.enter]⟩

theorem sameLevel_skipComponent (st : State) : SameLevel st st.skipComponent.2 := by
  unfold State.skipComponent
  split
  next => exact .refl st
  next =>
    split
    next => exact (sameLevel_advance st).trans (sameLevel_skipNested _)
    next => exact sameLevel_advance st

/-! ## Component values -/

theorem sameLevel_leaf (inp : Input) (t : Token) (st : State) : SameLevel st (leaf inp t st).2 := by
  unfold leaf
  split
  next => exact sameLevel_report st _
  next => exact .refl st

theorem SameLevel.closeGroup {o : Diagnostic.Opening} (g : Group) (h : SameLevel (st.enter o) st') :
    SameLevel st (closeGroup inp g st') := by
  unfold Grammar.closeGroup
  simp only
  split
  next => exact h.leave.trans (sameLevel_report _ _)
  split
  next => exact (h.trans (sameLevel_advance st')).leave
  next => exact (h.trans (sameLevel_report st' _)).leave

theorem componentsLevel (inp : Input) (fuel : Nat) : (∀ st, SameLevel st (component inp fuel st).2)
    ∧ ∀ stop st, SameLevel st (componentList inp stop fuel st).2 := by
  induction fuel with
  | zero =>
    refine ⟨fun st => ?_, fun stop st => ?_⟩
    · rw [component.eq_def]
      exact .refl st
    · rw [componentList.eq_def]
      exact .refl st
  | succ fuel ih =>
    refine ⟨fun st => ?_, fun stop st => ?_⟩
    · rw [component.eq_def]
      split
      next => exact .refl st
      next => exact .refl st
      next fuel' t _ same _ =>
        obtain rfl := Nat.succ.inj same
        have step := sameLevel_advance st
        simp only
        split
        next => exact step.trans (sameLevel_leaf inp t _)
        split
        next => exact step.trans ((sameLevel_report _ _).trans (sameLevel_skipNested _))
        next g _ _ => exact step.trans (((ih.2 g.endsAt _).closeGroup g).trans (sameLevel_discard _ _))
    · rw [componentList.eq_def]
      simp only
      split
      next => exact .refl st
      next => exact (ih.1 st).trans (ih.2 stop _)

theorem components_level (inp : Input) (stop : Token.Kind → Bool) (st : State) :
    SameLevel st (components inp stop st).2 :=
  (componentsLevel inp _).2 stop st

/-! ## Heads of entries -/

theorem selectors_level (inp : Input) (start : Nat) (groups : List (List Parsed)) (st : State) :
    SameLevel st (selectors inp start groups st).2 := by
  induction groups generalizing start st with
  | nil => exact .refl st
  | cons group groups ih =>
    rw [selectors]
    split
    next =>
      split
      next => exact ih _ st
      next => exact ((sameLevel_discard st _).trans (sameLevel_report _ _)).trans (ih ..)
    next => exact (sameLevel_report st _).trans (ih ..)

theorem selectorListOf_level (inp : Input) (start : Nat) (atoms : List Parsed) (st : State) :
    SameLevel st (selectorListOf inp start atoms st).2 :=
  (selectors_level ..).trans (sameLevel_discard _ _)

theorem skipDeclaration_level (fuel stop : Nat) (st : State) : SameLevel st (skipDeclaration fuel stop st).2 := by
  induction fuel generalizing stop st with
  | zero => exact .refl st
  | succ fuel ih =>
    rw [skipDeclaration]
    split
    next => exact .refl st
    next => exact (sameLevel_skipComponent st).trans (ih ..)

theorem rawDeclaration_level (inp : Input) (start stop : Nat) (st : State) :
    SameLevel st (rawDeclaration inp start stop st).2 :=
  skipDeclaration_level ..

theorem declarationOf_level (inp : Input) (property : String) (start colonEnd : Nat) (atoms : List Parsed) (st : State) :
    SameLevel st (declarationOf inp property start colonEnd atoms st).2 := by
  obtain ⟨important, kept, dropped, -, -, -, eq⟩ := declarationOf_eq inp property start colonEnd atoms st
  rw [eq]
  simp only
  split <;> exact ⟨rfl, rfl⟩

theorem declaration_level (inp : Input) (t : Token) (property : String) (st : State) :
    SameLevel st (declaration inp t property st).2 := by
  have step := (sameLevel_advance st).trans (sameLevel_skipTrivia _)
  unfold declaration
  simp only
  split
  next =>
    exact step.trans ((sameLevel_advance _).trans ((components_level ..).trans (declarationOf_level ..)))
  next => exact step.trans ((sameLevel_report _ _).trans (rawDeclaration_level ..))

theorem atRuleHead_level (inp : Input) (nameEnd : Nat) (st : State) : SameLevel st (atRuleHead inp nameEnd st).2 := by
  unfold atRuleHead
  simp only
  split
  next => exact (components_level ..).trans (sameLevel_advance _)
  next => exact components_level ..
  next => exact components_level ..

theorem ruleHead_level (inp : Input) (place : Place) (st : State) : SameLevel st (ruleHead inp place st).2 := by
  unfold ruleHead
  simp only
  split
  next => exact (components_level ..).trans (selectorListOf_level ..)
  next => exact (components_level ..).trans ((sameLevel_report _ _).trans (sameLevel_discard _ _))
  next => exact (components_level ..).trans ((sameLevel_report _ _).trans (sameLevel_discard _ _))

/-! ## Entries and blocks -/

theorem fault_level (inp : Input) (place : Place) (t : Token) (fault : Token.Fault) (st : State) :
    let reported := st.advance.report (.lexical fault t.span)
    SameLevel st (match place with
      | .declarations => rawDeclaration inp t.start t.stop reported
      | _ => (rawNode inp t.start t.stop, reported)).2 := by
  have reported := (sameLevel_advance st).trans (sameLevel_report _ (.lexical fault t.span))
  cases place with
  | declarations => exact reported.trans (rawDeclaration_level ..)
  | _ => exact reported

theorem SameLevel.closeBlock {o : Diagnostic.Opening} (h : SameLevel (st.enter o) st') :
    SameLevel st (closeBlock inp st') := by
  unfold Grammar.closeBlock
  split
  next => exact (h.trans (sameLevel_advance st')).leave
  next => exact (h.trans (sameLevel_report st' _)).leave

theorem atRuleBody_level (ih : ∀ contents construct st, SameLevel st (block inp contents construct fuel st).2)
    (name : String) (head : AtRuleHead) (st : State) : SameLevel st (atRuleBody inp name fuel head st).2.2 := by
  unfold atRuleBody
  split
  next => exact ih ..
  next => exact .refl st

theorem atRule_level (ih : ∀ contents construct st, SameLevel st (block inp contents construct fuel st).2) (t : Token)
    (name : String) (st : State) :
    let head := atRuleHead inp t.stop st.advance
    SameLevel st ((atRuleBody inp name fuel head.1 head.2).2.2.discard (preludeOf inp name head.1.atoms).2) := by
  have head := (sameLevel_advance st).trans (atRuleHead_level inp t.stop _)
  exact (head.trans (atRuleBody_level ih name _ _)).trans (sameLevel_discard _ _)

/-- An entry leaves the brackets that are open as they are, if blocks do. -/
theorem EntryRead.level_of (ih : ∀ contents construct st, SameLevel st (block inp contents construct fuel st).2)
    (read : EntryRead inp place fuel st t ts p st') : SameLevel st st' := by
  cases read with
  | comment => exact sameLevel_advance st
  | fault fault eq =>
    subst eq
    exact fault_level inp place t fault st
  | declaration => exact declaration_level ..
  | atRule name _ _ headEq bodyEq =>
    subst headEq bodyEq
    exact atRule_level ih t name st
  | raw _ eq =>
    have head := ruleHead_level inp place st
    rw [eq] at head
    exact head
  | rule _ eq bodyEq =>
    subst bodyEq
    have head := ruleHead_level inp place st
    rw [eq] at head
    exact head.trans (ih ..)

theorem entriesLevel (inp : Input) (fuel : Nat) : (∀ place st, SameLevel st (entries inp place fuel st).2)
    ∧ ∀ contents construct st, SameLevel st (block inp contents construct fuel st).2 := by
  induction fuel with
  | zero =>
    refine ⟨fun place st => ?_, fun contents construct st => ?_⟩
    · rw [entries.eq_def]
      exact .refl st
    · rw [block.eq_def]
      exact .refl st
  | succ fuel ih =>
    refine ⟨fun place st => ?_, fun contents construct st => ?_⟩
    · have later {st' : State} (h : SameLevel st st') : SameLevel st (entries inp place fuel st').2 :=
        h.trans (ih.1 place st')
      have step := sameLevel_advance st
      cases e : st.rest with
      | nil =>
        rw [entries_nil inp place _ e]
        exact .refl st
      | cons t ts =>
        cases entries_step inp place fuel e with
        | finish _ eq =>
          rw [eq]
          exact .refl st
        | separator _ eq => exact eq ▸ later step
        | strayBrace _ eq => exact eq ▸ later (step.trans (sameLevel_report _ _))
        | entry read eq =>
          rw [eq]
          exact later (read.level_of ih.2)
    · rw [block.eq_def]
      split
      next => exact .refl st
      next => exact .refl st
      next fuel' t _ same _ =>
        obtain rfl := Nat.succ.inj same
        have step := sameLevel_advance st
        simp only
        split
        next => exact step.trans ((sameLevel_report _ _).trans (sameLevel_skipNested _))
        next => exact step.trans (ih.1 (.ofContents contents) _).closeBlock

/-- **Entries leave the brackets that are open as they are.** -/
theorem entries_level (inp : Input) (place : Place) (fuel : Nat) (st : State) :
    SameLevel st (entries inp place fuel st).2 :=
  (entriesLevel inp fuel).1 place st

theorem block_level (inp : Input) (contents : Contents) (construct : Diagnostic.Construct) (fuel : Nat) (st : State) :
    SameLevel st (block inp contents construct fuel st).2 :=
  (entriesLevel inp fuel).2 contents construct st

theorem EntryRead.level (read : EntryRead inp place fuel st t ts p st') : SameLevel st st' :=
  read.level_of (block_level inp · · fuel ·)

end AboveFold.Grammar
