import AboveFold.Proofs.Grammar.Balance
import AboveFold.Proofs.Grammar.EntryPhrases

/-!
# Levels of a stylesheet

The level of a node is the number of blocks around it (`Parsed.levels`). As reading leaves no bracket open, the level of a
node is the depth of the state that it was read in. What holds of each declaration where it is read thus holds of it at
its level in the stylesheet (`HoldsWhereRead.read`).
-/

namespace AboveFold.Parsed
open Source Grammar

mutual

/-- The nodes of a tree in document order, each with the number of blocks around it. -/
def levels (depth : Nat) : Parsed → List (Nat × Parsed)
  | node kind span ps => (depth, node kind span ps) :: levelsAll (if kind.isBlock then depth + 1 else depth) ps

/-- The nodes of a list of trees in document order, each with the number of blocks around it. -/
def levelsAll (depth : Nat) : List Parsed → List (Nat × Parsed)
  | [] => []
  | p :: ps => levels depth p ++ levelsAll depth ps

end

mutual

theorem map_snd_levels (depth : Nat) : ∀ p : Parsed, (p.levels depth).map Prod.snd = p.nodes
  | node kind span ps => by simp only [levels, nodes, List.map_cons, map_snd_levelsAll]

theorem map_snd_levelsAll (depth : Nat) : ∀ ps : List Parsed, (levelsAll depth ps).map Prod.snd = nodesAll ps
  | [] => rfl
  | p :: ps => by simp only [levelsAll, nodesAll, List.map_append, map_snd_levels, map_snd_levelsAll]

end

/-- A property of every node of a tree and its level. -/
def EveryAt (P : Nat → Parsed → Prop) (depth : Nat) (p : Parsed) : Prop := ∀ l ∈ p.levels depth, P l.1 l.2

variable {P : Nat → Parsed → Prop} {kind : Node.Kind} {span : ByteSpan} {p : Parsed} {ps : List Parsed} {depth : Nat}
  {l : Nat × Parsed}

theorem mem_levelsAll : l ∈ levelsAll depth ps ↔ ∃ p ∈ ps, l ∈ p.levels depth := by
  induction ps with
  | nil => simp [levelsAll]
  | cons p ps ih => simp [levelsAll, ih]

theorem everyAt_node : EveryAt P depth (node kind span ps)
    ↔ P depth (node kind span ps) ∧ ∀ p ∈ ps, EveryAt P (if kind.isBlock then depth + 1 else depth) p := by
  simp only [EveryAt, levels, List.forall_mem_cons, mem_levelsAll]
  constructor
  · exact fun ⟨top, below⟩ => ⟨top, fun p mem l inside => below l ⟨p, mem, inside⟩⟩
  · exact fun ⟨top, below⟩ => ⟨top, fun l ⟨p, mem, inside⟩ => below p mem l inside⟩

theorem EveryAt.self (h : EveryAt P depth p) : P depth p := by
  cases p
  exact (everyAt_node.1 h).1

/-- What does not depend on levels holds of every node. -/
theorem EveryAt.every {Q : Parsed → Prop} (h : EveryAt (fun _ => Q) depth p) : p.Every Q := by
  intro q mem
  rw [← map_snd_levels depth] at mem
  obtain ⟨l, inside, rfl⟩ := List.mem_map.1 mem
  exact h l inside

/-- What holds of media queries by the text that each is read from, and of all other nodes but declarations. -/
structure HoldsElsewhere (P : Nat → Parsed → Prop) (inp : Input) : Prop where
  plain : ∀ depth p, (p.kind.isDeclaration || p.kind.isMediaQuery) = false → P depth p
  query : ∀ depth span group, P depth (.node (.mediaQuery (Text.collapse (inp.slice span))) span group)

variable {inp : Input} (elsewhere : HoldsElsewhere P inp)

include elsewhere

theorem HoldsElsewhere.node (plain : (kind.isDeclaration || kind.isMediaQuery) = false)
    (all : ∀ p ∈ ps, p.EveryAt P (if kind.isBlock then depth + 1 else depth)) : (node kind span ps).EveryAt P depth :=
  everyAt_node.2 ⟨elsewhere.plain depth _ plain, all⟩

theorem HoldsElsewhere.leaf (plain : (kind.isDeclaration || kind.isMediaQuery) = false) :
    (leaf kind span).EveryAt P depth :=
  elsewhere.node plain (by simp)

omit elsewhere

mutual

theorem HoldsElsewhere.component (elsewhere : HoldsElsewhere P inp) {depth : Nat} :
    ∀ {p : Parsed}, p.IsComponent → p.EveryAt P depth
  | .node k span ps, h => by
    refine elsewhere.node ?_ (HoldsElsewhere.components elsewhere h.children)
    cases k <;> first | rfl | cases h.1

theorem HoldsElsewhere.components (elsewhere : HoldsElsewhere P inp) {depth : Nat} :
    ∀ {ps : List Parsed}, (∀ p ∈ ps, p.IsComponent) → ∀ p ∈ ps, p.EveryAt P depth
  | [], _ => by simp
  | p :: ps, h => by
    rw [List.forall_mem_cons] at h ⊢
    exact ⟨elsewhere.component h.1, elsewhere.components h.2⟩

end

section

variable {atoms : List Parsed} (elsewhere : HoldsElsewhere P inp)

include elsewhere

theorem HoldsElsewhere.components_of_group {group : List Parsed} (all : ∀ p ∈ atoms, p.IsComponent)
    (member : group ∈ splitAtCommas atoms) : ∀ p ∈ trim group, p.EveryAt P depth := by
  refine elsewhere.components fun p mem => all p ?_
  apply (flatten_splitAtCommas_sublist atoms).subset
  exact List.mem_flatten.2 ⟨group, member, (trim_sublist group).subset mem⟩

theorem HoldsElsewhere.mediaQueries (all : ∀ p ∈ atoms, p.IsComponent) :
    ∀ p ∈ mediaQueries inp atoms, p.EveryAt P depth := by
  intro p mem
  obtain ⟨group, member, picked⟩ := List.mem_filterMap.1 mem
  obtain ⟨span, -, rfl⟩ := Option.map_eq_some_iff.1 picked
  exact everyAt_node.2 ⟨elsewhere.query depth span (trim group), elsewhere.components_of_group all member⟩

theorem HoldsElsewhere.selectorListOf (start : Nat) (st : State) (all : ∀ p ∈ atoms, p.IsComponent) :
    (selectorListOf inp start atoms st).1.EveryAt P depth := by
  unfold Grammar.selectorListOf
  simp only [selectors_fst]
  refine elsewhere.node rfl fun p mem => ?_
  obtain ⟨group, member, picked⟩ := List.mem_filterMap.1 mem
  obtain ⟨span, -, rfl⟩ := selectorOf?_eq_some picked
  exact elsewhere.node rfl (elsewhere.components_of_group all member)

theorem HoldsElsewhere.preludeOf (name : String) (all : ∀ p ∈ atoms, p.IsComponent) :
    ∀ p ∈ (preludeOf inp name atoms).1, p.EveryAt P depth := by
  have kept : ∀ p ∈ trim atoms, p.IsComponent := fun p mem => all p ((trim_sublist _).subset mem)
  unfold Grammar.preludeOf
  simp only
  split
  next => simp
  next =>
    split
    next =>
      rw [List.forall_mem_singleton]
      exact elsewhere.node rfl (elsewhere.mediaQueries kept)
    next =>
      rw [List.forall_mem_singleton]
      exact elsewhere.node rfl (elsewhere.components kept)

end

end AboveFold.Parsed

namespace AboveFold.Grammar
open Source Node Parsed Token

variable {P : Nat → Parsed → Prop} {inp : Input} {tokens : List Token} {st st' : State} {a fuel : Nat} {place : Place}
  {p : Parsed} {ps : List Parsed} {t : Token} {ts : List Token}

/-! ## Entries and blocks -/

/-- What holds of each declaration where it is read, and of all other nodes anywhere. -/
structure HoldsWhereRead (P : Nat → Parsed → Prop) (inp : Input) (tokens : List Token) : Prop where
  elsewhere : HoldsElsewhere P inp
  declared : ∀ st a t ts property, Ready inp.source tokens st a → st.rest = t :: ts → t.kind = .ident property →
    P st.depth (declaration inp t property st).1

/-- What `entries` and `block` read with the given fuel has a property at each level. -/
structure EntriesHold (P : Nat → Parsed → Prop) (inp : Input) (tokens : List Token) (fuel : Nat) : Prop where
  list : ∀ place st a, Ready inp.source tokens st a → 2 * st.rest.length + 1 ≤ fuel →
    ∀ p ∈ (entries inp place fuel st).1, p.EveryAt P st.depth
  block : ∀ contents construct st a, Ready inp.source tokens st a → st.nextKind = .curlyOpen →
    2 * st.rest.length ≤ fuel → (block inp contents construct fuel st).1.EveryAt P st.depth

section

variable (h : HoldsWhereRead P inp tokens)

include h

theorem HoldsWhereRead.declaration {property : String} (ready : Ready inp.source tokens st a) (e : st.rest = t :: ts)
    (ident : t.kind = .ident property) : (Grammar.declaration inp t property st).1.EveryAt P st.depth := by
  have top := h.declared st a t ts property ready e ident
  revert top
  unfold Grammar.declaration
  simp only
  split
  next colon _ _ =>
    obtain ⟨important, kept, _, -, ⟨part, inside, rfl⟩, -, eq⟩ := declarationOf_eq inp property t.start
      colon.stop.offset (Grammar.components inp endsDeclaration st.advance.skipTrivia.advance).1
      (Grammar.components inp endsDeclaration st.advance.skipTrivia.advance).2
    rw [eq]
    simp only
    split
    next => exact fun _ => h.elsewhere.leaf rfl
    next =>
      have component : ∀ p ∈ trim part, p.IsComponent := fun p mem =>
        components_isComponent inp _ _ p (inside.subset ((trim_sublist part).subset mem))
      intro top
      refine everyAt_node.2 ⟨top, ?_⟩
      rw [List.forall_mem_singleton]
      exact h.elsewhere.node rfl (h.elsewhere.components component)
  next => exact fun _ => h.elsewhere.leaf rfl

theorem HoldsWhereRead.ruleHead (place : Place) (st : State) :
    match (Grammar.ruleHead inp place st).1 with
    | .raw p => p.EveryAt P st.depth
    | .block list _ => list.EveryAt P st.depth := by
  have component := components_isComponent inp (endsSelectors place) st
  unfold Grammar.ruleHead
  simp only
  cases (Grammar.components inp (endsSelectors place) st).2.nextKind with
  | curlyOpen => exact h.elsewhere.selectorListOf _ _ component
  | _ => exact h.elsewhere.leaf rfl

theorem HoldsWhereRead.atRule (ih : EntriesHold P inp tokens fuel) (name : String)
    (ready : Ready inp.source tokens st a) (e : st.rest = t :: ts) (enough : 2 * st.rest.length ≤ fuel) :
    let head := Grammar.atRuleHead inp t.stop st.advance
    let body := Grammar.atRuleBody inp name fuel head.1 head.2
    let prelude := preludeOf inp name head.1.atoms
    (Parsed.node (.atRule name) ⟨t.start, body.2.1⟩ (prelude.1 ++ body.1)).EveryAt P st.depth := by
  intro head body prelude
  have step := ready.advance e
  have level := (sameLevel_advance st).trans (atRuleHead_level inp t.stop st.advance)
  obtain ⟨used, b, reads, -, -, stop, opens⟩ := step.ready.atRuleHead
  have within : 2 * head.2.rest.length ≤ fuel := by
    have : used.length + head.2.rest.length = st.advance.rest.length := reads.length
    have := State.length_advance_lt e
    omega
  have inside : ∀ p ∈ body.1, p.EveryAt P st.depth := by
    unfold body Grammar.atRuleBody
    split
    next has =>
      rw [List.forall_mem_singleton, ← level.depth]
      exact ih.block (atRuleContents name) .atRuleBlock head.2 b reads.ready (opens has) within
    next => simp
  refine h.elsewhere.node rfl ?_
  rw [List.forall_mem_append]
  exact ⟨h.elsewhere.preludeOf name (atRuleHead_formed inp t.stop st.advance), inside⟩

theorem HoldsWhereRead.styleRule {list : Parsed} {start : Nat} (ih : EntriesHold P inp tokens fuel)
    (top : list.EveryAt P st.depth) (level : SameLevel st st') (head : ReadsHead inp tokens st a (.block list start) st')
    (enough : 2 * st.rest.length ≤ fuel) :
    let body := Grammar.block inp .declarations .ruleBlock fuel st'
    (Parsed.node .rule ⟨start, body.1.span.stop⟩ [list, body.1]).EveryAt P st.depth := by
  obtain ⟨-, used, b, reads, -, -, opens⟩ := head
  have := reads.length
  have inside := ih.block .declarations .ruleBlock st' b reads.ready opens (by omega)
  rw [level.depth] at inside
  intro body
  refine h.elsewhere.node rfl ?_
  rw [List.forall_mem_cons, List.forall_mem_singleton]
  exact ⟨top, inside⟩

theorem HoldsWhereRead.entry {p : Parsed} (ih : EntriesHold P inp tokens fuel) (ready : Ready inp.source tokens st a)
    (e : st.rest = t :: ts) (enough : 2 * st.rest.length ≤ fuel) (read : EntryRead inp place fuel st t ts p st') :
    p.EveryAt P st.depth := by
  cases read with
  | comment => exact h.elsewhere.leaf rfl
  | fault _ eq =>
    subst eq
    cases place <;> exact h.elsewhere.leaf rfl
  | declaration _ _ kind => exact h.declaration ready e kind
  | atRule name _ _ headEq bodyEq =>
    subst headEq bodyEq
    exact h.atRule ih name ready e enough
  | raw _ eq =>
    have top := h.ruleHead place st
    rw [eq] at top
    exact top
  | rule starts eq bodyEq =>
    subst bodyEq
    have head := ready.ruleHead e starts
    have top := h.ruleHead place st
    have level := ruleHead_level inp place st
    rw [eq] at head top level
    exact h.styleRule ih top level head enough

theorem HoldsWhereRead.entries_succ (ih : EntriesHold P inp tokens fuel) (ready : Ready inp.source tokens st a)
    (enough : 2 * st.rest.length + 1 ≤ fuel + 1) :
    ∀ p ∈ (entries inp place (fuel + 1) st).1, p.EveryAt P st.depth := by
  cases e : st.rest with
  | nil =>
    rw [entries_nil inp place _ e]
    simp
  | cons t ts =>
    have step := ready.advance e
    have level := sameLevel_advance st
    have shorter := State.length_advance_lt e
    have later {st' : State} (b : Nat) (ready' : Ready inp.source tokens st' b) (level : SameLevel st st')
        (less : st'.rest.length < st.rest.length) : ∀ p ∈ (entries inp place fuel st').1, p.EveryAt P st.depth :=
      level.depth ▸ ih.list place st' b ready' (by omega)
    cases entries_step inp place fuel e with
    | finish _ eq =>
      rw [eq]
      simp
    | separator _ eq => exact eq ▸ later _ step.ready level shorter
    | strayBrace _ eq =>
      rw [eq]
      exact later _ (step.report (.strayBrace t.span)).ready (level.trans (sameLevel_report ..)) shorter
    | entry read eq =>
      obtain ⟨b, next, less⟩ := ((entriesRead inp tokens fuel).entry ready e (by omega) read).next
      rw [eq, List.forall_mem_cons]
      exact ⟨h.entry ih ready e (by omega) read, later b next read.level less⟩

theorem HoldsWhereRead.block_succ (ih : EntriesHold P inp tokens fuel) (contents : Contents)
    (construct : Diagnostic.Construct) (ready : Ready inp.source tokens st a) (opens : st.nextKind = .curlyOpen)
    (enough : 2 * st.rest.length ≤ fuel + 1) :
    (Grammar.block inp contents construct (fuel + 1) st).1.EveryAt P st.depth := by
  obtain ⟨t, ts, e, -⟩ := rest_of_opens opens
  rw [Grammar.block.eq_def]
  simp only [e]
  split
  next =>
    refine h.elsewhere.node rfl ?_
    rw [List.forall_mem_singleton]
    exact h.elsewhere.leaf rfl
  next =>
    have entered := (ready.advance e).enter ⟨construct, t.span⟩
    have shorter : (st.advance.enter ⟨construct, t.span⟩).rest.length < st.rest.length :=
      State.length_advance_lt e
    have inside := ih.list (.ofContents contents) _ _ entered.ready (by omega)
    have depth : (st.advance.enter ⟨construct, t.span⟩).depth = st.depth + 1 :=
      congrArg (· + 1) (sameLevel_advance st).depth
    rw [depth] at inside
    exact h.elsewhere.node rfl inside

theorem HoldsWhereRead.entriesHold (fuel : Nat) : EntriesHold P inp tokens fuel := by
  induction fuel with
  | zero =>
    refine ⟨fun place st a ready enough => by omega, fun contents construct st a ready opens enough => ?_⟩
    have some := length_pos_of_opens opens
    omega
  | succ fuel ih =>
    exact ⟨fun _ _ _ ready enough => h.entries_succ ih ready enough,
      fun contents construct _ _ ready opens enough => h.block_succ ih contents construct ready opens enough⟩

/-- **What holds of each declaration where it is read, and of all other nodes, holds of the stylesheet** level by
level. -/
theorem HoldsWhereRead.read {here : Nat} (boundary : IsBoundary inp.source here)
    (tiles : Token.Tiles inp.source here tokens) : (inp.read tokens).sheet.EveryAt P 0 := by
  have ready := Ready.start boundary tiles
  exact h.elsewhere.node rfl ((h.entriesHold _).list .topLevel _ _ ready (Nat.le_refl _))

end

end AboveFold.Grammar
