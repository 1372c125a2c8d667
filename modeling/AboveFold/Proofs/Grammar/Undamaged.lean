import AboveFold.Proofs.Grammar.Balance
import AboveFold.Proofs.Grammar.EntryPhrases
import AboveFold.Proofs.Grammar.EntryUses
import AboveFold.Proofs.Grammar.Skipping
import AboveFold.Proofs.Tree.Links
import AboveFold.Proofs.Tree.Numbering
import AboveFold.Stylesheet.Basic

/-!
# No damage without a report

Whatever is wrong with a stylesheet is reported: if reading reports nothing, the tokens it took are undamaged
(`Undamaged`), that is their brackets are properly nested and none of them is a fault, and no node is raw text. Each
function of the grammar has one lemma about what it takes (`Takes`), and the induction goes over lists and blocks
together (`Stylesheet.undamaged_of_silent`).
-/

namespace AboveFold.Token.Kind

/-- A token that is no bracket and no fault. -/
def IsPlain (k : Kind) : Prop := k.closer? = none ∧ k.closing? = none ∧ ∀ f, k ≠ .fault f

theorem isPlain_of_isFiller {k : Kind} (h : k.isFiller) : k.IsPlain := by
  cases k <;> simp_all [isFiller, IsPlain, closer?, closing?]

theorem isPlain_of_isTrivia {k : Kind} (h : k.isTrivia) : k.IsPlain := by
  cases k <;> simp_all [isTrivia, IsPlain, closer?, closing?]

end AboveFold.Token.Kind

namespace AboveFold.Parsed

/-- No node of the tree is raw text. -/
def Structured (p : Parsed) : Prop := p.Every fun q => ∀ text, q.kind ≠ .raw text

variable {k : Node.Kind} {span : Source.ByteSpan} {p : Parsed} {ps atoms group : List Parsed}

theorem Structured.node (kind : ∀ text, k ≠ .raw text) (all : ∀ p ∈ ps, p.Structured) : (node k span ps).Structured :=
  every_node.2 ⟨kind, all⟩

theorem IsComponent.structured (h : p.IsComponent) : p.Structured := by
  refine h.every fun q component text raw => ?_
  rw [raw] at component
  cases component

/-- A node over the values of a group between commas. -/
theorem Structured.over_group (kind : ∀ text, k ≠ .raw text) (all : ∀ p ∈ atoms, p.IsComponent)
    (member : group ∈ splitAtCommas atoms) : (Parsed.node k span (trim group)).Structured :=
  .node kind fun p mem =>
    (isComponent_of_mem_splitAtCommas all member p ((trim_sublist group).subset mem)).structured

end AboveFold.Parsed

namespace AboveFold.Grammar
open Source Node Parsed Token

/-- Tokens without damage: their brackets are properly nested, and none is a fault. -/
structure Undamaged (room : Nat) (ts : List Token) : Prop where
  nested : WellNested room ts
  sound : ∀ t ∈ ts, ∀ f, t.kind ≠ .fault f

/-- What was taken on the way from `st` to `st'`, and what was set aside. -/
structure Took (st st' : State) : Prop where
  silent : st.errors = []
  tokens : ∃ used, st.rest = used ++ st'.rest ∧ Undamaged (maxDepth - st.depth) used
  discarded : ∀ p ∈ st'.discarded, p ∈ st.discarded ∨ p.Structured

/-- Reading from `st` to `st'` took tokens without damage, if nothing was reported. -/
def Takes (st st' : State) : Prop := st'.errors = [] → Took st st'

variable {inp : Input} {st st' st'' : State} {t : Token} {ts us : List Token} {room fuel : Nat} {place : Place}
  {ps atoms : List Parsed}

/-! ## Steps -/

theorem Undamaged.nil : Undamaged room [] := ⟨.nil, by simp⟩

theorem Undamaged.append (h : Undamaged room ts) (h' : Undamaged room us) : Undamaged room (ts ++ us) :=
  ⟨h.nested.append h'.nested, fun t mem => (List.mem_append.1 mem).elim (h.sound t) (h'.sound t)⟩

theorem Undamaged.plain (plain : t.kind.IsPlain) : Undamaged room [t] :=
  ⟨.single plain.1 plain.2.1 .nil, by simpa using plain.2.2⟩

theorem Undamaged.of_plain (plain : ∀ t ∈ ts, t.kind.IsPlain) : Undamaged room ts := by
  induction ts with
  | nil => exact .nil
  | cons t ts ih =>
    rw [List.forall_mem_cons] at plain
    exact (Undamaged.plain plain.1).append (ih plain.2)

/-- A group of undamaged tokens. -/
theorem Undamaged.group {opener closer : Token} {inner : List Token} {c : Char} (opens : opener.kind.closer? = some c)
    (inside : Undamaged room inner) (closes : closer.kind.closing? = some c) :
    Undamaged (room + 1) (opener :: inner ++ [closer]) := by
  refine ⟨.group opens inside.nested closes .nil, fun t mem f fault => ?_⟩
  simp only [List.cons_append, List.mem_cons, List.mem_append, List.not_mem_nil, or_false] at mem
  rcases mem with rfl | mem | rfl
  · simp [fault, Kind.closer?] at opens
  · exact inside.sound t mem f fault
  · simp [fault, Kind.closing?] at closes

theorem Takes.refl (st : State) : Takes st st := fun silent => ⟨silent, ⟨[], rfl, .nil⟩, fun _ => .inl⟩

theorem Takes.trans (h : Takes st st') (level : SameLevel st st') (h' : Takes st' st'') : Takes st st'' := by
  intro silent
  obtain ⟨silent, ⟨later, rest', sound'⟩, out'⟩ := h' silent
  obtain ⟨silent, ⟨used, rest, sound⟩, out⟩ := h silent
  rw [level.depth] at sound'
  refine ⟨silent, ⟨used ++ later, by rw [rest, rest', List.append_assoc], sound.append sound'⟩, fun p mem => ?_⟩
  exact (out' p mem).elim (out p) .inr

/-- Where something was reported, nothing is claimed. -/
theorem Takes.of_reported (reported : st'.errors ≠ []) : Takes st st' := fun silent => absurd silent reported

theorem Takes.discard (h : Takes st st') (all : ∀ p ∈ ps, p.Structured) : Takes st (st'.discard ps) := by
  intro silent
  obtain ⟨silent, tokens, out⟩ := h silent
  refine ⟨silent, tokens, fun p mem => ?_⟩
  exact (List.mem_append.1 mem).elim (fun dropped => .inr (all p dropped)) (out p)

/-- Tokens that are no brackets and no faults are undamaged. -/
theorem Takes.of_plain (rest : st.rest = ts ++ st'.rest) (errors : st'.errors = st.errors)
    (discarded : st'.discarded = st.discarded) (plain : ∀ t ∈ ts, t.kind.IsPlain) : Takes st st' :=
  fun silent => ⟨errors ▸ silent, ⟨ts, rest, .of_plain plain⟩, fun _ mem => .inl (discarded ▸ mem)⟩

theorem takes_advance (e : st.rest = t :: ts) (plain : t.kind.IsPlain) : Takes st st.advance := by
  rw [State.advance_of_rest e]
  exact .of_plain (show st.rest = [t] ++ ts from e) rfl rfl (by simpa using plain)

theorem exists_trivia (last : Option Position) (ts : List Token) :
    ∃ trivia, ts = trivia ++ (State.triviaFrom last ts).2 ∧ ∀ t ∈ trivia, t.kind.isTrivia := by
  induction ts generalizing last with
  | nil => exact ⟨[], rfl, by simp⟩
  | cons t ts ih =>
    rw [State.triviaFrom]
    split
    next blank =>
      obtain ⟨trivia, e, all⟩ := ih (some t.span.stop)
      refine ⟨t :: trivia, ?_, by simpa [blank] using all⟩
      rw [List.cons_append, ← e]
    next => exact ⟨[], rfl, by simp⟩

theorem takes_skipTrivia (st : State) : Takes st st.skipTrivia := by
  obtain ⟨trivia, e, all⟩ := exists_trivia st.lastEnd st.rest
  exact .of_plain e rfl rfl fun t mem => Kind.isPlain_of_isTrivia (all t mem)

/-! ## Component values -/

theorem isPlain_of_leafError (single : Group.of? t.kind = none) (sound : leafError inp t = none) : t.kind.IsPlain := by
  unfold leafError at sound
  cases k : t.kind <;> rw [k] at single sound
  case parenClose | squareClose | curlyClose | fault => cases sound
  case parenOpen | squareOpen | curlyOpen | function => cases single
  all_goals exact ⟨rfl, rfl, fun _ e => by cases e⟩

theorem takes_leaf (e : st.rest = t :: ts) (single : Group.of? t.kind = none) : Takes st (leaf inp t st.advance).2 := by
  unfold leaf
  cases wrong : leafError inp t with
  | some d => exact .of_reported (List.cons_ne_nil _ _)
  | none => exact takes_advance e (isPlain_of_leafError single wrong)

/-- A group is closed by its own bracket, or it is reported that it is not. -/
theorem closeGroup_silent {g : Group} (silent : (closeGroup inp g st).errors = []) :
    st.errors = [] ∧ (closeGroup inp g st).discarded = st.discarded
      ∧ ∃ closer, st.rest = closer :: (closeGroup inp g st).rest ∧ closer.kind.closing? = some g.closeChar := by
  unfold closeGroup at silent ⊢
  simp only at silent ⊢
  split at silent
  next => cases silent
  next more =>
    rw [if_neg more]
    split at silent
    next closes =>
      obtain ⟨closer, ts, e, k⟩ := rest_of_nextKind more
      rw [if_pos closes, State.advance_of_rest e]
      rw [State.advance_of_rest e] at silent
      exact ⟨silent, rfl, closer, e, by rw [k, closes]⟩
    next => cases silent

theorem groupNode_dropped (g : Group) (span : ByteSpan) (children : List Parsed) :
    (groupNode g span children).2 ⊆ children := by
  unfold groupNode
  repeat' split
  all_goals simp

/-- What `component` and `componentList` take with the given fuel. -/
structure ComponentsTake (inp : Input) (fuel : Nat) : Prop where
  one : ∀ st, Takes st (component inp fuel st).2
  many : ∀ stop st, Takes st (componentList inp stop fuel st).2

theorem ComponentsTake.component_succ (ih : ComponentsTake inp fuel) (st : State) :
    Takes st (component inp (fuel + 1) st).2 := by
  rw [component.eq_def]
  cases e : st.rest with
  | nil => exact .refl st
  | cons t ts =>
    have closer := Group.closer?_of? t.kind
    simp only
    split
    next single => exact takes_leaf e single
    next g opens =>
      rw [opens] at closer
      split
      next => exact .of_reported (List.cons_ne_nil _ _)
      next shallow =>
        have formed := (componentsFormed inp fuel).many g.endsAt (st.advance.enter ⟨g.construct, t.span⟩)
        refine Takes.discard (fun silent => ?_) fun p mem => (formed p (groupNode_dropped g _ _ mem)).structured
        obtain ⟨silent, out, last, e', closes⟩ := closeGroup_silent silent
        obtain ⟨silent, ⟨inner, rest, inside⟩, out'⟩ := ih.many g.endsAt _ silent
        have depth : st.advance.depth = st.depth := (sameLevel_advance st).depth
        obtain ⟨n, room⟩ : ∃ n, maxDepth - st.depth = n + 1 := Nat.exists_eq_succ_of_ne_zero (by omega)
        have less : maxDepth - (st.advance.enter ⟨g.construct, t.span⟩).depth = n := by
          simp only [State.enter]
          omega
        rw [less] at inside
        rw [e'] at rest
        refine ⟨?_, ⟨t :: inner ++ [last], ?_, room ▸ .group closer inside closes⟩, ?_⟩
        · simpa [State.advance_of_rest e, State.enter] using silent
        · simpa [State.advance_of_rest e, State.enter, e] using rest
        · rw [out]
          simpa [State.advance_of_rest e, State.enter] using out'

theorem componentsTake (inp : Input) (fuel : Nat) : ComponentsTake inp fuel := by
  induction fuel with
  | zero =>
    refine ⟨fun st => ?_, fun stop st => ?_⟩
    · rw [component.eq_def]
      exact .refl st
    · rw [componentList.eq_def]
      exact .refl st
  | succ fuel ih =>
    refine ⟨ih.component_succ, fun stop st => ?_⟩
    rw [componentList.eq_def]
    simp only
    split
    next => exact .refl st
    next => exact (ih.one st).trans ((componentsLevel inp fuel).1 st) (ih.many stop _)

/-- Component values are read from undamaged tokens, if nothing is reported. -/
theorem components_take (inp : Input) (stop : Token.Kind → Bool) (st : State) : Takes st (components inp stop st).2 :=
  (componentsTake inp _).many stop st

/-! ## Heads of entries -/

theorem mediaQueries_structured (all : ∀ p ∈ atoms, p.IsComponent) : ∀ p ∈ mediaQueries inp atoms, p.Structured := by
  intro p mem
  obtain ⟨group, member, picked⟩ := List.mem_filterMap.1 mem
  obtain ⟨span, -, rfl⟩ := Option.map_eq_some_iff.1 picked
  exact .over_group (by simp) all member

theorem preludeOf_structured (inp : Input) (name : String) (all : ∀ p ∈ atoms, p.IsComponent) :
    (∀ p ∈ (preludeOf inp name atoms).1, p.Structured) ∧ ∀ p ∈ (preludeOf inp name atoms).2, p.Structured := by
  have kept : ∀ p ∈ trim atoms, p.IsComponent := fun p mem => all p ((trim_sublist atoms).subset mem)
  have trimmed : ∀ p ∈ trimmings atoms, p.Structured := fun p mem => (all p (mem_of_mem_trimmings mem)).structured
  unfold preludeOf
  simp only
  split
  next => exact ⟨by simp, trimmed⟩
  next =>
    split
    next =>
      refine ⟨by simpa using Structured.node (by simp) (mediaQueries_structured kept), fun p mem => ?_⟩
      rcases List.mem_append.1 mem with mem | mem
      · exact trimmed p mem
      · exact (kept p (mem_of_mem_separators mem)).structured
    next => exact ⟨by simpa using Structured.node (by simp) fun p mem => (kept p mem).structured, trimmed⟩

theorem takes_selectors (start : Nat) (groups : List (List Parsed)) (st : State) :
    Takes st (selectors inp start groups st).2 := by
  induction groups generalizing start st with
  | nil => exact .refl st
  | cons group groups ih =>
    have later (start : Nat) (d : Diagnostic) (dropped : List Parsed) :
        Takes st (selectors inp start groups ((st.discard dropped).report d)).2 :=
      fun silent => by cases (ih start _ silent).silent
    rw [selectors]
    split
    next =>
      split
      next => exact ih _ st
      next => exact later start _ (trim group)
    next => exact later start _ []

theorem selectorListOf_structured (start : Nat) (st : State) (all : ∀ p ∈ atoms, p.IsComponent) :
    (selectorListOf inp start atoms st).1.Structured := by
  unfold selectorListOf
  simp only [selectors_fst]
  refine .node (by simp) fun p mem => ?_
  obtain ⟨group, member, picked⟩ := List.mem_filterMap.1 mem
  obtain ⟨span, -, rfl⟩ := selectorOf?_eq_some picked
  exact .over_group (by simp) all member

theorem takes_selectorListOf (start : Nat) (st : State) (all : ∀ p ∈ atoms, p.IsComponent) :
    Takes st (selectorListOf inp start atoms st).2 :=
  Takes.discard (takes_selectors _ _ _) fun p mem => (all p (mem_of_mem_separators mem)).structured

/-- A declaration that is not raw text, if nothing is reported. -/
theorem takes_declarationOf (inp : Input) (property : String) (start colonEnd : Nat) (st : State) (all : ∀ p ∈ atoms, p.IsComponent) :
    Takes st (declarationOf inp property start colonEnd atoms st).2
      ∧ ((declarationOf inp property start colonEnd atoms st).2.errors = [] →
        (declarationOf inp property start colonEnd atoms st).1.Structured) := by
  obtain ⟨important, kept, dropped, keeps, -, drops, eq⟩ :=
    declarationOf_eq inp property start colonEnd atoms st
  have trimmed {p : Parsed} (mem : p ∈ trim atoms) : p.Structured := (all p ((trim_sublist atoms).subset mem)).structured
  rw [eq]
  simp only
  split
  next => exact ⟨.of_reported (List.cons_ne_nil _ _), fun silent => by cases silent⟩
  next =>
    have set := (Takes.refl st).discard fun p mem => (all p (mem_of_mem_trimmings mem)).structured
    refine ⟨set.discard fun p mem => trimmed (drops mem), fun _ => .node (by simp) ?_⟩
    rw [List.forall_mem_singleton]
    exact .node (by simp) fun p mem => trimmed (keeps.subset mem)

theorem skipComponent_errors (st : State) : st.skipComponent.2.errors = st.errors := by
  unfold State.skipComponent
  split
  next => rfl
  next => split <;> exact State.errors_advance st

theorem skipDeclaration_errors (fuel stop : Nat) (st : State) : (skipDeclaration fuel stop st).2.errors = st.errors := by
  induction fuel generalizing stop st with
  | zero => rfl
  | succ fuel ih =>
    rw [skipDeclaration]
    split
    next => rfl
    next => exact (ih ..).trans (skipComponent_errors st)

/-- An entry of a list, which is not raw text if nothing is reported. -/
structure TakesEntry (st : State) (p : Parsed) (st' : State) : Prop where
  takes : Takes st st'
  level : SameLevel st st'
  structured : st'.errors = [] → p.Structured

theorem TakesEntry.of_reported {p : Parsed} (level : SameLevel st st') (reported : st'.errors ≠ []) :
    TakesEntry st p st' :=
  ⟨.of_reported reported, level, fun silent => absurd silent reported⟩

theorem declaration_takes (property : String) (e : st.rest = t :: ts) (ident : t.kind = .ident property) :
    TakesEntry st (declaration inp t property st).1 (declaration inp t property st).2 := by
  have level := declaration_level inp t property st
  have plain : t.kind.IsPlain := by
    rw [ident]
    exact ⟨rfl, rfl, by simp⟩
  have name := (takes_advance e plain).trans (sameLevel_advance st) (takes_skipTrivia _)
  have nameLevel := (sameLevel_advance st).trans (sameLevel_skipTrivia _)
  revert level
  unfold declaration
  simp only
  split
  next colon ts' e' =>
    have colonTaken := name.trans nameLevel (takes_advance e' ⟨rfl, rfl, by simp⟩)
    have colonLevel := nameLevel.trans (sameLevel_advance _)
    have atoms := colonTaken.trans colonLevel (components_take inp endsDeclaration _)
    have atomsLevel := colonLevel.trans (components_level inp endsDeclaration _)
    obtain ⟨takes, structured⟩ := takes_declarationOf inp property t.start colon.stop.offset
      (components inp endsDeclaration st.advance.skipTrivia.advance).2 (components_isComponent inp _ _)
    exact fun level => ⟨atoms.trans atomsLevel takes, level, structured⟩
  next =>
    refine fun level => .of_reported level ?_
    rw [rawDeclaration, skipDeclaration_errors]
    exact List.cons_ne_nil _ _

theorem atRuleHead_take (inp : Input) (nameEnd : Nat) (st : State) :
    Takes st (atRuleHead inp nameEnd st).2
      ∧ ((atRuleHead inp nameEnd st).1.hasBlock → (atRuleHead inp nameEnd st).2.nextKind = .curlyOpen) := by
  have atoms := components_take inp (fun k => k = .semicolon || k = .curlyOpen || k = .curlyClose) st
  have level := components_level inp (fun k => k = .semicolon || k = .curlyOpen || k = .curlyClose) st
  unfold atRuleHead
  simp only
  split
  next k =>
    obtain ⟨t, ts, e, kind⟩ := rest_of_nextKind (by rw [k]; simp)
    refine ⟨atoms.trans level (takes_advance e ?_), by simp⟩
    rw [kind, k]
    exact ⟨rfl, rfl, by simp⟩
  next k => exact ⟨atoms, fun _ => k⟩
  next => exact ⟨atoms, by simp⟩

/-- A style rule up to its block, or a report that there is no block. -/
theorem ruleHead_take (inp : Input) (place : Place) (st : State) :
    match (ruleHead inp place st).1 with
    | .block list _ => Takes st (ruleHead inp place st).2 ∧ list.Structured
      ∧ (ruleHead inp place st).2.nextKind = .curlyOpen
    | .raw _ => (ruleHead inp place st).2.errors ≠ [] := by
  have atoms := components_take inp (endsSelectors place) st
  have level := components_level inp (endsSelectors place) st
  have all := components_isComponent inp (endsSelectors place) st
  unfold ruleHead
  simp only
  cases k : (components inp (endsSelectors place) st).2.nextKind with
  | curlyOpen =>
    refine ⟨atoms.trans level (takes_selectorListOf _ _ all), selectorListOf_structured _ _ all, ?_⟩
    obtain ⟨rest, -⟩ := selectors_snd inp (st.nextSpan inp).start.offset
      (splitAtCommas (components inp (endsSelectors place) st).1) (components inp (endsSelectors place) st).2
    simpa [State.nextKind, selectorListOf, State.discard, rest] using k
  | _ => exact List.cons_ne_nil _ _

/-! ## Entries and blocks -/

/-- What `entries` and `block` take with the given fuel. -/
structure EntriesTake (inp : Input) (fuel : Nat) : Prop where
  list : ∀ place st, Takes st (entries inp place fuel st).2
    ∧ ((entries inp place fuel st).2.errors = [] → ∀ p ∈ (entries inp place fuel st).1, p.Structured)
  block : ∀ contents construct st, st.nextKind = .curlyOpen →
    TakesEntry st (block inp contents construct fuel st).1 (block inp contents construct fuel st).2

theorem EntriesTake.atRule (ih : EntriesTake inp fuel) (name : String) (e : st.rest = t :: ts)
    (keyword : t.kind = .atKeyword name) :
    let head := atRuleHead inp t.stop st.advance
    let body := atRuleBody inp name fuel head.1 head.2
    let prelude := preludeOf inp name head.1.atoms
    TakesEntry st (Parsed.node (.atRule name) ⟨t.start, body.2.1⟩ (prelude.1 ++ body.1)) (body.2.2.discard prelude.2) := by
  intro head body prelude
  have plain : t.kind.IsPlain := by
    rw [keyword]
    exact ⟨rfl, rfl, by simp⟩
  have level := atRule_level (fun contents construct => block_level inp contents construct fuel) t name st
  obtain ⟨taken, opens⟩ := atRuleHead_take inp t.stop st.advance
  have named := (takes_advance e plain).trans (sameLevel_advance st) taken
  have namedLevel := (sameLevel_advance st).trans (atRuleHead_level inp t.stop _)
  obtain ⟨kept, dropped⟩ := preludeOf_structured inp name (atRuleHead_formed inp t.stop st.advance)
  have inside : Takes head.2 body.2.2 ∧ (body.2.2.errors = [] → ∀ p ∈ body.1, p.Structured) := by
    unfold body atRuleBody
    split
    next has =>
      obtain ⟨takes, -, structured⟩ := ih.block (atRuleContents name) .atRuleBlock head.2 (opens has)
      exact ⟨takes, fun silent => by simpa using structured silent⟩
    next => exact ⟨.refl _, by simp⟩
  refine ⟨(named.trans namedLevel inside.1).discard dropped, level, fun silent => .node (by simp) ?_⟩
  rw [List.forall_mem_append]
  exact ⟨kept, inside.2 silent⟩

theorem EntriesTake.styleRule {list : Parsed} (start : Nat) (ih : EntriesTake inp fuel) (head : Takes st st')
    (level : SameLevel st st') (structured : list.Structured) (opens : st'.nextKind = .curlyOpen) :
    let body := Grammar.block inp .declarations .ruleBlock fuel st'
    TakesEntry st (Parsed.node .rule ⟨start, body.1.span.stop⟩ [list, body.1]) body.2 := by
  obtain ⟨takes, bodyLevel, body⟩ := ih.block .declarations .ruleBlock st' opens
  refine ⟨head.trans level takes, level.trans bodyLevel, fun silent => .node (by simp) ?_⟩
  rw [List.forall_mem_cons, List.forall_mem_singleton]
  exact ⟨structured, body silent⟩

theorem fault_takes (place : Place) (t : Token) (fault : Token.Fault) (st : State) :
    let reported := st.advance.report (.lexical fault t.span)
    let read := match place with
      | .declarations => rawDeclaration inp t.start t.stop reported
      | _ => (rawNode inp t.start t.stop, reported)
    TakesEntry st read.1 read.2 := by
  refine .of_reported (fault_level inp place t fault st) ?_
  cases place with
  | declarations =>
    simp only [rawDeclaration, skipDeclaration_errors]
    exact List.cons_ne_nil _ _
  | _ => exact List.cons_ne_nil _ _

theorem EntriesTake.entry {p : Parsed} (ih : EntriesTake inp fuel) (e : st.rest = t :: ts)
    (read : EntryRead inp place fuel st t ts p st') : TakesEntry st p st' := by
  cases read with
  | comment text _ kind =>
    have plain : t.kind.IsPlain := by
      rw [kind]
      exact ⟨rfl, rfl, by simp⟩
    exact ⟨takes_advance e plain, sameLevel_advance st, fun _ => .node (by simp) (by simp)⟩
  | fault fault eq =>
    subst eq
    exact fault_takes place t fault st
  | declaration property _ kind => exact declaration_takes property e kind
  | atRule name _ kind headEq bodyEq =>
    subst headEq bodyEq
    exact ih.atRule name e kind
  | raw _ eq =>
    have head := ruleHead_take inp place st
    have level := ruleHead_level inp place st
    rw [eq] at head level
    exact .of_reported level head
  | rule _ eq bodyEq =>
    subst bodyEq
    have head := ruleHead_take inp place st
    have level := ruleHead_level inp place st
    rw [eq] at head level
    obtain ⟨takes, structured, opens⟩ := head
    exact ih.styleRule _ takes level structured opens

theorem EntriesTake.entries_succ (ih : EntriesTake inp fuel) (place : Place) (st : State) :
    Takes st (entries inp place (fuel + 1) st).2
      ∧ ((entries inp place (fuel + 1) st).2.errors = [] →
        ∀ p ∈ (entries inp place (fuel + 1) st).1, p.Structured) := by
  cases e : st.rest with
  | nil =>
    rw [entries_nil inp place _ e]
    exact ⟨.refl st, by simp⟩
  | cons t ts =>
    cases entries_step inp place fuel e with
    | finish _ eq =>
      rw [eq]
      exact ⟨.refl st, by simp⟩
    | separator skips eq =>
      rw [eq]
      obtain ⟨rest, all⟩ := ih.list place st.advance
      have plain := Kind.isPlain_of_isFiller (entryOf_eq_separator skips)
      exact ⟨(takes_advance e plain).trans (sameLevel_advance st) rest, all⟩
    | strayBrace _ eq =>
      rw [eq]
      have reported (silent : (entries inp place fuel (st.advance.report (.strayBrace t.span))).2.errors = []) : False := by
        cases ((ih.list place _).1 silent).silent
      exact ⟨fun silent => (reported silent).elim, fun silent => (reported silent).elim⟩
    | entry read eq =>
      rw [eq]
      obtain ⟨takes, level, structured⟩ := ih.entry e read
      obtain ⟨rest, all⟩ := ih.list place _
      refine ⟨takes.trans level rest, fun silent => ?_⟩
      rw [List.forall_mem_cons]
      exact ⟨structured (rest silent).silent, all silent⟩

/-- The end of a block takes its closing brace, or it is reported that there is none. -/
theorem closeBlock_silent (silent : (closeBlock inp st).errors = []) :
    st.errors = [] ∧ (closeBlock inp st).discarded = st.discarded
      ∧ ∃ closer, st.rest = closer :: (closeBlock inp st).rest ∧ closer.kind.closing? = some '\x7d' := by
  unfold closeBlock at silent ⊢
  split at silent
  next k =>
    have more : st.nextKind ≠ .eof := by rw [k]; simp
    obtain ⟨closer, ts, e, kind⟩ := rest_of_nextKind more
    rw [k] at kind
    simp only [State.advance_of_rest e] at silent ⊢
    exact ⟨silent, rfl, closer, e, by rw [kind]; rfl⟩
  next => cases silent

theorem EntriesTake.block_succ (ih : EntriesTake inp fuel) (contents : Contents) (construct : Diagnostic.Construct)
    (opens : st.nextKind = .curlyOpen) :
    TakesEntry st (Grammar.block inp contents construct (fuel + 1) st).1
      (Grammar.block inp contents construct (fuel + 1) st).2 := by
  have level := block_level inp contents construct (fuel + 1) st
  obtain ⟨t, ts, e, kind⟩ := rest_of_opens opens
  revert level
  rw [Grammar.block.eq_def]
  simp only [e]
  split
  next => exact fun level => .of_reported level (List.cons_ne_nil _ _)
  next shallow =>
    intro level
    have inside := ih.list (.ofContents contents) (st.advance.enter ⟨construct, t.span⟩)
    refine ⟨fun silent => ?_, level, fun silent => ?_⟩
    · obtain ⟨silent, out, closer, e', closes⟩ := closeBlock_silent silent
      obtain ⟨silent, ⟨inner, rest, whole⟩, out'⟩ := inside.1 silent
      have depth : st.advance.depth = st.depth := (sameLevel_advance st).depth
      obtain ⟨n, room⟩ : ∃ n, maxDepth - st.depth = n + 1 := Nat.exists_eq_succ_of_ne_zero (by omega)
      have less : maxDepth - (st.advance.enter ⟨construct, t.span⟩).depth = n := by
        simp only [State.enter]
        omega
      rw [less] at whole
      rw [e'] at rest
      refine ⟨?_, ⟨t :: inner ++ [closer], ?_, room ▸ .group (by rw [kind]; rfl) whole closes⟩, ?_⟩
      · simpa [State.advance_of_rest e, State.enter] using silent
      · simpa [State.advance_of_rest e, State.enter, e] using rest
      · rw [out]
        simpa [State.advance_of_rest e, State.enter] using out'
    · exact .node (by simp) (inside.2 (closeBlock_silent silent).1)

theorem entriesTake (inp : Input) (fuel : Nat) : EntriesTake inp fuel := by
  induction fuel with
  | zero =>
    refine ⟨fun place st => ?_, fun contents construct st _ => ?_⟩
    · rw [entries.eq_def]
      exact ⟨.refl st, by simp⟩
    · rw [block.eq_def]
      exact ⟨.refl st, .refl st, fun _ => .node (by simp) (by simp)⟩
  | succ fuel ih =>
    exact ⟨ih.entries_succ, fun contents construct _ opens => ih.block_succ contents construct opens⟩

/-- Tokens that are read without a report are undamaged, and what is read of them is not raw text. -/
theorem Input.read_undamaged (inp : Input) {tokens : List Token} {here : Nat} (boundary : IsBoundary inp.source here)
    (tiles : Token.Tiles inp.source here tokens) (silent : (inp.read tokens).errors = []) :
    Undamaged maxDepth tokens ∧ (inp.read tokens).sheet.Structured ∧ ∀ p ∈ (inp.read tokens).discarded, p.Structured := by
  obtain ⟨_, _, reads, -, -, -, ended⟩ :=
    (entriesRead inp tokens _).list .topLevel _ _ (Ready.start boundary tiles) (Nat.le_refl _)
  have eof := reads.ready.rest_of_eof (ended.resolve_right (by simp))
  obtain ⟨takes, all⟩ := (entriesTake inp (2 * tokens.length + 1)).list .topLevel (.start tokens)
  have silent := List.reverse_eq_nil_iff.1 silent
  obtain ⟨-, ⟨used, rest, whole⟩, out⟩ := takes silent
  have last : Undamaged maxDepth (entries inp .topLevel (2 * tokens.length + 1) (.start tokens)).2.rest :=
    .of_plain fun t mem => Kind.isPlain_of_isFiller (by rw [eof t mem]; rfl)
  refine ⟨?_, .node (by simp) (all silent), fun p mem => (out p mem).resolve_left (by simp [State.start])⟩
  change tokens = _ at rest
  rw [rest]
  exact Undamaged.append whole last

end AboveFold.Grammar

namespace AboveFold.Stylesheet
open Grammar

/-- **No damage without a report**: if reading a stylesheet reports nothing, no node of its tree is raw text, no token is
a fault, and the brackets of its tokens are properly nested. -/
theorem undamaged_of_silent (source : String) (path : Option String) (silent : (parse source path).errors = []) :
    (∀ b ∈ (parse source path).tree.branches, ∀ text, b.kind ≠ .raw text)
      ∧ (∀ t ∈ Token.tokens source path, ∀ f, t.kind ≠ .fault f)
      ∧ WellNested maxDepth (Token.tokens source path) := by
  obtain ⟨here, boundary, tiles⟩ := Token.tiles_tokens source path
  obtain ⟨whole, sheet, discarded⟩ := (Input.mk source path).read_undamaged boundary tiles silent
  refine ⟨fun b mem => ?_, whole.sound, whole.nested⟩
  rcases Tree.mem_branches.1 mem with mem | mem
  · obtain ⟨q, hq, reflects⟩ := Parsed.reflects_number 0 (Input.read _ _).sheet b mem
    rw [reflects.kind]
    exact sheet q hq
  · obtain ⟨q, hq, reflects⟩ := Parsed.reflects_numberAll _ (Input.read _ _).discarded b mem
    obtain ⟨p, hp, hq⟩ := Parsed.mem_nodesAll.1 hq
    rw [reflects.kind]
    exact discarded p hp q hq

/-- Groups of all types inside each other, in a selector, a value and a prelude. -/
theorem undamaged_of_silent_groups :
    let source := "a[b]\x7b--c:d(e,\x7bf:(g)\x7d)\x7d@media (h)\x7bi\x7bj:k\x7d\x7d"
    (parse source none).errors = []
      ∧ (∀ b ∈ (parse source none).tree.branches, ∀ text, b.kind ≠ .raw text)
      ∧ (∀ t ∈ Token.tokens source none, ∀ f, t.kind ≠ .fault f)
      ∧ WellNested maxDepth (Token.tokens source none) := by
  intro source
  have silent : (parse source none).errors = [] := by decide +kernel
  exact ⟨silent, undamaged_of_silent source none silent⟩

end AboveFold.Stylesheet
