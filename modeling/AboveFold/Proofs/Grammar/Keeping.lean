import AboveFold.Proofs.Grammar.Entries

/-!
# What reading keeps

A property of the state holds when all is read if it holds at the start and each step keeps it. For component values
the steps are those at their tokens and at the ends of groups (`KeepsValues`), for entries also what is read up to a
block and the ends of blocks (`Keeps`). The inductions over values and over lists and blocks are made here, once for all
such properties.
-/

namespace AboveFold.Grammar
open Source Node Parsed

/-- A property of the state that each step of reading component values keeps. -/
structure KeepsValues (inp : Input) (tokens : List Token) (P : State → Prop) : Prop where
  advance : ∀ {st a t ts}, Ready inp.source tokens st a → st.rest = t :: ts → P st → P st.advance
  discard : ∀ {st} ps, P st → P (st.discard ps)
  leafError : ∀ {st a t ts d}, Ready inp.source tokens st a → st.rest = t :: ts → leafError inp t = some d → P st →
    P (st.advance.report d)
  tooDeep : ∀ {st a t ts}, Ready inp.source tokens st a → st.rest = t :: ts → P st →
    P (st.advance.report (.tooDeep t.span)).skipNested.2
  enter : ∀ {st a t ts} construct, Ready inp.source tokens st a → st.rest = t :: ts → P st →
    P (st.advance.enter ⟨construct, t.span⟩)
  closeGroup : ∀ {st a} g, Ready inp.source tokens st a → st.lastEnd ≠ none → P st → P (closeGroup inp g st)

/-- A property of the state that each step of reading keeps. -/
structure Keeps (inp : Input) (tokens : List Token) (P : State → Prop) : Prop extends KeepsValues inp tokens P where
  strayBrace : ∀ {st a t ts}, Ready inp.source tokens st a → st.rest = t :: ts → P st →
    P (st.advance.report (.strayBrace t.span))
  fault : ∀ {st a t ts} fault, Ready inp.source tokens st a → st.rest = t :: ts → P st →
    P (st.advance.report (.lexical fault t.span))
  rawDeclaration : ∀ {st a} start stop, Ready inp.source tokens st a → P st → P (rawDeclaration inp start stop st).2
  declaration : ∀ {st a t ts} property, Ready inp.source tokens st a → st.rest = t :: ts → P st →
    P (declaration inp t property st).2
  atRuleHead : ∀ {st a}, Ready inp.source tokens st a → P st → P (atRuleHead inp a st).2
  ruleHead : ∀ {st a t ts place}, Ready inp.source tokens st a → st.rest = t :: ts →
    entryOf place (t :: ts) = .styleRule → P st → P (ruleHead inp place st).2
  closeBlock : ∀ {st a}, Ready inp.source tokens st a → st.lastEnd ≠ none → P st → P (closeBlock inp st)

variable {inp : Input} {tokens : List Token} {P : State → Prop} {fuel a : Nat} {st st' : State} {t : Token}
  {ts : List Token} {place : Place} {p : Parsed}

/-! ## Component values -/

/-- `component` and `componentList` keep a property with the given fuel. -/
structure ComponentsKeep (inp : Input) (tokens : List Token) (P : State → Prop) (fuel : Nat) : Prop where
  one : ∀ st a, Ready inp.source tokens st a → st.rest ≠ [] → 2 * st.rest.length ≤ fuel → P st →
    P (component inp fuel st).2
  many : ∀ stop st a, Ready inp.source tokens st a → 2 * st.rest.length + 1 ≤ fuel → P st →
    P (componentList inp stop fuel st).2

namespace KeepsValues

/-- What holds for some index is kept if it is for each. -/
theorem of_forall {P : Nat → State → Prop} (keeps : ∀ n, KeepsValues inp tokens (P n)) :
    KeepsValues inp tokens fun st => ∃ n, P n st where
  advance ready e := fun ⟨n, h⟩ => ⟨n, (keeps n).advance ready e h⟩
  discard ps := fun ⟨n, h⟩ => ⟨n, (keeps n).discard ps h⟩
  leafError ready e wrong := fun ⟨n, h⟩ => ⟨n, (keeps n).leafError ready e wrong h⟩
  tooDeep ready e := fun ⟨n, h⟩ => ⟨n, (keeps n).tooDeep ready e h⟩
  enter construct ready e := fun ⟨n, h⟩ => ⟨n, (keeps n).enter construct ready e h⟩
  closeGroup g ready started := fun ⟨n, h⟩ => ⟨n, (keeps n).closeGroup g ready started h⟩

variable (keeps : KeepsValues inp tokens P)

include keeps

theorem component_succ (ih : ComponentsKeep inp tokens P fuel) (ready : Ready inp.source tokens st a)
    (rest : st.rest ≠ []) (enough : 2 * st.rest.length ≤ fuel + 1) (h : P st) : P (component inp (fuel + 1) st).2 := by
  obtain ⟨t, ts, e⟩ := List.exists_cons_of_ne_nil rest
  have shorter := State.length_advance_lt e
  rw [component.eq_def]
  simp only [e]
  split
  next =>
    unfold leaf
    split
    next wrong => exact keeps.leafError ready e wrong h
    next => exact keeps.advance ready e h
  next g _ =>
    split
    next => exact keeps.tooDeep ready e h
    next =>
      have entered := (ready.advance e).enter ⟨g.construct, t.span⟩
      have fewer : (st.advance.enter ⟨g.construct, t.span⟩).rest.length < st.rest.length := shorter
      obtain ⟨used, b, reads, -⟩ := (componentsRead inp tokens fuel).many g.endsAt _ _ entered.ready (by omega)
      have children := ih.many g.endsAt _ _ entered.ready (by omega) (keeps.enter g.construct ready e h)
      have started := (entered.trans reads).started (.inl (by simp))
      exact keeps.discard _ (keeps.closeGroup g reads.ready started children)

omit keeps in
theorem componentList_succ (ih : ComponentsKeep inp tokens P fuel) (stop : Token.Kind → Bool)
    (ready : Ready inp.source tokens st a) (enough : 2 * st.rest.length + 1 ≤ fuel + 1) (h : P st) :
    P (componentList inp stop (fuel + 1) st).2 := by
  rw [componentList]
  split
  next => exact h
  next =>
    obtain ⟨t, ts, e, -⟩ := rest_of_nextKind (show st.nextKind ≠ .eof by simp_all)
    have some : st.rest ≠ [] := by simp [e]
    obtain ⟨used, b, taken, reads, -⟩ := (componentsRead inp tokens fuel).one st a ready some (by omega)
    have := reads.length
    have := List.length_pos_iff.2 taken
    exact ih.many stop _ _ reads.ready (by omega) (ih.one st a ready some (by omega) h)

theorem componentsKeep (fuel : Nat) : ComponentsKeep inp tokens P fuel := by
  induction fuel with
  | zero =>
    refine ⟨fun st a _ rest enough _ => ?_, fun stop st a _ enough _ => by omega⟩
    have := List.length_pos_iff.2 rest
    omega
  | succ fuel ih =>
    exact ⟨fun _ _ ready rest enough h => keeps.component_succ ih ready rest enough h,
      fun stop _ _ ready enough h => componentList_succ ih stop ready enough h⟩

/-- **What each step of reading component values keeps, reading them keeps.** -/
theorem components (stop : Token.Kind → Bool) (ready : Ready inp.source tokens st a) (h : P st) :
    P (components inp stop st).2 :=
  (keeps.componentsKeep _).many stop st a ready (Nat.le_refl _) h

end KeepsValues

/-! ## Entries and blocks -/

/-- `entries` and `block` keep a property with the given fuel. -/
structure EntriesKeep (inp : Input) (tokens : List Token) (P : State → Prop) (fuel : Nat) : Prop where
  list : ∀ place st a, Ready inp.source tokens st a → 2 * st.rest.length + 1 ≤ fuel → P st →
    P (entries inp place fuel st).2
  block : ∀ contents construct st a, Ready inp.source tokens st a → st.nextKind = .curlyOpen →
    2 * st.rest.length ≤ fuel → P st → P (block inp contents construct fuel st).2

namespace Keeps

variable (keeps : Keeps inp tokens P)

include keeps

theorem atRuleBody (ih : EntriesKeep inp tokens P fuel) (ready : Ready inp.source tokens st a) (name : String)
    (enough : 2 * st.rest.length ≤ fuel) (h : P st) :
    let head := Grammar.atRuleHead inp a st
    P (Grammar.atRuleBody inp name fuel head.1 head.2).2.2 := by
  intro head
  obtain ⟨used, b, reads, -, -, -, opens⟩ := ready.atRuleHead
  have less : used.length + head.2.rest.length = st.rest.length := reads.length
  unfold Grammar.atRuleBody
  split
  next has => exact ih.block _ _ _ b reads.ready (opens has) (by omega) (keeps.atRuleHead ready h)
  next => exact keeps.atRuleHead ready h

theorem entry (ih : EntriesKeep inp tokens P fuel) (ready : Ready inp.source tokens st a) (e : st.rest = t :: ts)
    (enough : 2 * st.rest.length ≤ fuel) (h : P st) (read : EntryRead inp place fuel st t ts p st') : P st' := by
  cases read with
  | comment => exact keeps.advance ready e h
  | fault fault eq =>
    subst eq
    have reported := keeps.fault fault ready e h
    cases place with
    | declarations => exact keeps.rawDeclaration _ _ ((ready.advance e).report _).ready reported
    | _ => exact reported
  | declaration property => exact keeps.declaration property ready e h
  | atRule name _ _ headEq bodyEq =>
    subst headEq bodyEq
    have shorter := State.length_advance_lt e
    have body := keeps.atRuleBody ih (ready.advance e).ready name (by omega) (keeps.advance ready e h)
    exact keeps.discard _ body
  | raw style eq =>
    have head := keeps.ruleHead ready e style h
    rw [eq] at head
    exact head
  | @rule _ _ headed _ style eq bodyEq =>
    subst bodyEq
    have readHead := ready.ruleHead e style
    have head := keeps.ruleHead ready e style h
    rw [eq] at readHead head
    obtain ⟨-, used, b, reads, -, -, opens⟩ := readHead
    have less : used.length + headed.rest.length = st.rest.length := reads.length
    exact ih.block .declarations .ruleBlock headed b reads.ready opens (by omega) head

theorem entries_succ (ih : EntriesKeep inp tokens P fuel) (ready : Ready inp.source tokens st a)
    (enough : 2 * st.rest.length + 1 ≤ fuel + 1) (h : P st) : P (entries inp place (fuel + 1) st).2 := by
  cases e : st.rest with
  | nil =>
    rw [entries_nil inp place _ e]
    exact h
  | cons t ts =>
    have step := ready.advance e
    have shorter := State.length_advance_lt e
    have fewer : 2 * st.advance.rest.length + 1 ≤ fuel := by omega
    cases entries_step inp place fuel e with
    | finish _ eq =>
      rw [eq]
      exact h
    | separator _ eq => exact eq ▸ ih.list place _ _ step.ready fewer (keeps.advance ready e h)
    | strayBrace _ eq => exact eq ▸ ih.list place _ _ (step.report _).ready fewer (keeps.strayBrace ready e h)
    | entry read eq =>
      rw [eq]
      obtain ⟨b, next, shorter⟩ := ((entriesRead inp tokens fuel).entry ready e (by omega) read).next
      exact ih.list place _ b next (by omega) (keeps.entry ih ready e (by omega) h read)

theorem block_succ (ih : EntriesKeep inp tokens P fuel) (contents : Contents) (construct : Diagnostic.Construct)
    (ready : Ready inp.source tokens st a) (opens : st.nextKind = .curlyOpen) (enough : 2 * st.rest.length ≤ fuel + 1)
    (h : P st) : P (Grammar.block inp contents construct (fuel + 1) st).2 := by
  obtain ⟨t, ts, e, -⟩ := rest_of_opens opens
  rw [Grammar.block.eq_def]
  simp only [e]
  split
  next => exact keeps.tooDeep ready e h
  next =>
    have entered := (ready.advance e).enter ⟨construct, t.span⟩
    have shorter : (st.advance.enter ⟨construct, t.span⟩).rest.length < st.rest.length :=
      State.length_advance_lt e
    obtain ⟨used, b, reads, -⟩ := (entriesRead inp tokens fuel).list (.ofContents contents) _ _ entered.ready (by omega)
    have inside := ih.list (.ofContents contents) _ _ entered.ready (by omega) (keeps.enter construct ready e h)
    exact keeps.closeBlock reads.ready ((entered.trans reads).started (.inl (by simp))) inside

/-- **What each step of reading keeps, reading keeps.** -/
theorem entries (fuel : Nat) : EntriesKeep inp tokens P fuel := by
  induction fuel with
  | zero =>
    refine ⟨fun place st a _ enough _ => by omega, fun contents construct st a _ opens enough _ => ?_⟩
    have some := length_pos_of_opens opens
    omega
  | succ fuel ih =>
    exact ⟨fun _ _ _ ready enough h => keeps.entries_succ ih ready enough h,
      fun contents construct _ _ ready opens enough h => keeps.block_succ ih contents construct ready opens enough h⟩

end Keeps

end AboveFold.Grammar
