import AboveFold.Proofs.Grammar.ComponentUses
import AboveFold.Proofs.Grammar.Entries

/-!
# What rules, at-rules and declarations use

Preludes, selectors and values hold all component values that use anything, in their order, and what
separates them opens no function. So the entries of a list use what its tokens use, unless something is
reported; the induction goes over lists and blocks together.
-/

namespace AboveFold.Parsed
open Source

variable {atoms : List Parsed}

/-- Nodes made of groups use what the groups use, if each of them does. -/
theorem uses_filterMap {pick : List Parsed → Option Parsed} {groups : List (List Parsed)}
    (each : ∀ group ∈ groups, (pick group).toList.flatMap uses = group.flatMap uses) :
    (groups.filterMap pick).flatMap uses = groups.flatten.flatMap uses := by
  induction groups with
  | nil => rfl
  | cons group groups ih =>
    simp only [List.mem_cons, forall_eq_or_imp] at each
    rw [List.flatten_cons, List.flatMap_append, ← each.1, ← ih each.2]
    cases e : pick group <;> simp [e]

/-- The values of a group between commas are component values. -/
theorem isComponent_of_mem_splitAtCommas (all : ∀ p ∈ atoms, p.IsComponent) {group : List Parsed}
    (member : group ∈ splitAtCommas atoms) : ∀ p ∈ group, p.IsComponent :=
  fun p mem => all p ((flatten_splitAtCommas_sublist atoms).subset (List.mem_flatten.2 ⟨group, member, mem⟩))

end AboveFold.Parsed

namespace AboveFold.Grammar
open Source Node Parsed

variable {inp : Input} {tokens : List Token} {st st' st'' : State} {a b : Nat} {names : List String}
  {atoms : List Parsed}

/-! ## Preludes -/

theorem uses_mediaQueries (inp : Input) (all : ∀ p ∈ atoms, p.IsComponent) :
    (mediaQueries inp atoms).flatMap uses = atoms.flatMap uses := by
  rw [← uses_splitAtCommas all]
  refine uses_filterMap fun group member => ?_
  rw [← uses_trim (isComponent_of_mem_splitAtCommas all member)]
  cases e : cover (trim group) with
  | none => simp [eq_nil_of_cover_eq_none e, cover]
  | some span => simp [e, uses_of_plain]

theorem uses_preludeOf (inp : Input) (name : String) (all : ∀ p ∈ atoms, p.IsComponent) :
    (preludeOf inp name atoms).1.flatMap uses = atoms.flatMap uses := by
  have kept : ∀ p ∈ trim atoms, p.IsComponent := fun p mem => all p ((trim_sublist atoms).subset mem)
  rw [← uses_trim all]
  unfold preludeOf
  simp only
  split
  next e => simp [eq_nil_of_cover_eq_none e]
  next span _ =>
    split
    · simp [uses_of_plain, uses_mediaQueries inp kept]
    · simp [uses_of_plain]

/-! ## Selectors -/

/-- Making the selectors of a list takes no token, and reports each group that gives none. -/
theorem selectors_snd (inp : Input) (start : Nat) (groups : List (List Parsed)) (st : State) :
    (selectors inp start groups st).2.rest = st.rest
      ∧ ((selectors inp start groups st).2.errors = [] →
        st.errors = [] ∧ ∀ group ∈ groups, (selectorOf? inp group).isSome) := by
  induction groups generalizing start st with
  | nil => simp [selectors]
  | cons group groups ih =>
    simp only [selectors, List.mem_cons, forall_eq_or_imp, selectorOf?]
    split
    next span e =>
      split
      next some =>
        obtain ⟨rest, clean⟩ := ih span.stop st
        exact ⟨rest, fun none => ⟨(clean none).1, by simp [e], (clean none).2⟩⟩
      next =>
        obtain ⟨rest, clean⟩ := ih start
          ((st.discard (trim group)).report (.missingSelector (inp.placeOf ⟨start, start⟩)))
        exact ⟨rest, fun none => by cases (clean none).1⟩
    next =>
      obtain ⟨rest, clean⟩ := ih start (st.report (.missingSelector (inp.placeOf ⟨start, start⟩)))
      exact ⟨rest, fun none => by cases (clean none).1⟩

theorem Finds.selectorListOf (start : Nat) (h : Finds st (atoms.flatMap uses) st')
    (all : ∀ p ∈ atoms, p.IsComponent) :
    Finds st (selectorListOf inp start atoms st').1.uses (selectorListOf inp start atoms st').2 := by
  obtain ⟨rest, clean⟩ := selectors_snd inp start (splitAtCommas atoms) st'
  intro none
  obtain ⟨none, some⟩ := clean none
  have found := h none
  rw [← rest] at found
  refine found.trans (congrArg (· ++ _) ?_)
  unfold Grammar.selectorListOf
  simp only [selectors_fst]
  rw [uses_of_plain (by simp), ← uses_splitAtCommas all]
  refine (uses_filterMap fun group member => ?_).symm
  rw [← uses_trim (isComponent_of_mem_splitAtCommas all member)]
  obtain ⟨p, e⟩ := Option.isSome_iff_exists.1 (some group member)
  obtain ⟨span, -, rfl⟩ := selectorOf?_eq_some e
  simp [e, uses_of_plain]

/-! ## Declarations -/

/-- The values of a declaration that ends in `!important`: an identifier last, and the `!` with trivia
before it. -/
theorem importantAt?_spec {i : Nat} (e : importantAt? atoms = some i) :
    ∃ bang trivia name, atoms.drop i = bang :: trivia ++ [name] ∧ bang.kind = .other "!"
      ∧ (∀ p ∈ trivia, p.kind.isTrivia) ∧ ∃ text, name.kind = .ident text ∧ Text.eqIgnoreCase text "important" := by
  unfold importantAt? at e
  split at e
  next => cases e
  next last before reversed =>
    split at e
    next text ident =>
      split at e
      next spelt =>
        split at e
        next bang value found =>
          split at e
          next mark =>
            obtain rfl := Option.some.inj e
            have split : before = before.takeWhile (·.kind.isTrivia) ++ bang :: value := by
              rw [← found, List.takeWhile_append_dropWhile]
            have whole : atoms
                = value.reverse ++ (bang :: (before.takeWhile (·.kind.isTrivia)).reverse ++ [last]) := by
              calc atoms = before.reverse ++ [last] := by rw [← List.reverse_cons, ← reversed, List.reverse_reverse]
                _ = (before.takeWhile (·.kind.isTrivia) ++ bang :: value).reverse ++ [last] := by rw [← split]
                _ = _ := by simp
            refine ⟨bang, (before.takeWhile (·.kind.isTrivia)).reverse, last, ?_, mark, fun p mem => ?_, text, ident, spelt⟩
            · rw [whole, List.drop_left' (by simp)]
            · exact List.all_eq_true.1 List.all_takeWhile p (List.mem_reverse.1 mem)
          next => cases e
        next => cases e
      next => cases e
    next => cases e

/-- The mark `!important` uses nothing. -/
theorem uses_take_important {i : Nat} (all : ∀ p ∈ atoms, p.IsComponent) (e : importantAt? atoms = some i) :
    (atoms.take i).flatMap uses = atoms.flatMap uses := by
  have nothing : (atoms.drop i).flatMap uses = [] := by
    refine List.flatMap_eq_nil_iff.2 fun p mem => ?_
    have component := all p (List.mem_of_mem_drop mem)
    obtain ⟨bang, trivia, name, rest, mark, blank, text, ident, -⟩ := importantAt?_spec e
    simp only [rest, List.mem_append, List.mem_cons, List.not_mem_nil, or_false] at mem
    rcases mem with (rfl | mem) | rfl
    · exact component.uses_eq_nil (by simp [mark]) (by simp [mark])
    · exact component.uses_of_isTrivia (blank p mem)
    · exact component.uses_eq_nil (by simp [ident]) (by simp [ident])
  calc (atoms.take i).flatMap uses = (atoms.take i ++ atoms.drop i).flatMap uses := by
        rw [List.flatMap_append, nothing, List.append_nil]
    _ = atoms.flatMap uses := by rw [List.take_append_drop]

theorem Finds.declarationOf (property : String) (start colonEnd : Nat) (h : Finds st (atoms.flatMap uses) st')
    (all : ∀ p ∈ atoms, p.IsComponent) :
    Finds st (declarationOf inp property start colonEnd atoms st').1.uses
      (declarationOf inp property start colonEnd atoms st').2 := by
  have trimmed : ∀ p ∈ trim atoms, p.IsComponent := fun p mem => all p ((trim_sublist atoms).subset mem)
  rw [← uses_trim all] at h
  -- Whatever is kept of the values, it uses what all of them use.
  have close (important : Bool) (kept : List Parsed) (span value : ByteSpan)
      (same : kept.flatMap uses = (trim atoms).flatMap uses) :
      (Parsed.node (.declaration property important) span [.node .value value kept]).uses
        = (trim atoms).flatMap uses := by
    simp [uses_of_plain, same]
  unfold Grammar.declarationOf
  cases e : importantAt? (trim atoms) with
  | none =>
    simp only [e]
    split
    next => intro none; cases none
    next => rw [close _ _ _ _ rfl]; exact h
  | some i =>
    have part : ∀ p ∈ (trim atoms).take i, p.IsComponent := fun p mem => trimmed p (List.mem_of_mem_take mem)
    have same := (uses_trim part).trans (uses_take_important trimmed e)
    simp only [e]
    split
    next => intro none; cases none
    next => rw [close _ _ _ _ same]; exact h

theorem Ready.declaration_finds {t : Token} {ts : List Token} {property : String} (h : Ready inp.source tokens st a)
    (e : st.rest = t :: ts) (name : t.kind = .ident property) :
    Finds st (Grammar.declaration inp t property st).1.uses (Grammar.declaration inp t property st).2 := by
  have step := h.advance e
  obtain ⟨trivia, b, skip, blank⟩ := step.ready.skipTrivia
  have reads := step.trans skip
  have plain : ∀ u ∈ [t] ++ trivia, ∀ text, u.kind ≠ .function text := by
    intro u mem text k
    rcases List.mem_append.1 mem with mem | mem
    · simp_all
    · have := blank u mem
      rw [k] at this
      cases this
  unfold Grammar.declaration
  simp only
  split
  next colon ts' e' =>
    have colonRead := reads.advance e'
    obtain ⟨_, _, values, -⟩ := colonRead.ready.components endsDeclaration
    have before : Finds st [] _ := .of_plain colonRead fun u mem => by
      rcases List.mem_append.1 mem with mem | mem
      · exact plain u mem
      · simp_all
    have found := before.trans (colonRead.ready.components_find endsDeclaration) values.clean
    exact Finds.declarationOf property _ _ found (components_isComponent inp _ _)
  next =>
    have reported := reads.report (.missingColon property st.advance.skipTrivia.nextKind.description
      (st.advance.skipTrivia.nextSpan inp))
    obtain ⟨_, _, skipped, -⟩ := reported.ready.skipDeclaration _ t.stop (Nat.le_refl _)
    exact .of_reported skipped

/-! ## Heads -/

theorem Ready.atRuleHead_finds (nameEnd : Nat) (h : Ready inp.source tokens st a) :
    Finds st ((Grammar.atRuleHead inp nameEnd st).1.atoms.flatMap uses) (Grammar.atRuleHead inp nameEnd st).2 := by
  let ends (k : Token.Kind) : Bool := k = .semicolon || k = .curlyOpen || k = .curlyClose
  have found := h.components_find ends
  obtain ⟨_, _, reads, -⟩ := h.components ends
  unfold Grammar.atRuleHead
  simp only
  split
  next k =>
    obtain ⟨t, ts, e, kind⟩ := rest_of_nextKind (by rw [k]; simp)
    have semicolon := reads.ready.advance e
    have last : Finds _ [] _ := .of_plain semicolon (by simp [kind.trans k])
    simpa using found.trans last semicolon.clean
  next => exact found
  next => exact found

/-- Reading a style rule up to its block finds what its selectors use, or reports that there is no block. -/
theorem Ready.ruleHead_finds (place : Place) (h : Ready inp.source tokens st a) :
    match (Grammar.ruleHead inp place st).1 with
    | .block list _ => Finds st list.uses (Grammar.ruleHead inp place st).2
    | .raw _ => (Grammar.ruleHead inp place st).2.errors ≠ [] := by
  have found := h.components_find (endsSelectors place)
  have all := components_isComponent inp (endsSelectors place) st
  unfold Grammar.ruleHead
  simp only
  cases (Grammar.components inp (endsSelectors place) st).2.nextKind with
  | curlyOpen => exact found.selectorListOf _ all
  | _ => exact List.cons_ne_nil _ _

/-! ## Entries and blocks -/

/-- What `entries` and `block` find with the given fuel. -/
structure EntriesFind (inp : Input) (tokens : List Token) (fuel : Nat) : Prop where
  list : ∀ place st a, Ready inp.source tokens st a → 2 * st.rest.length + 1 ≤ fuel →
    Finds st ((entries inp place fuel st).1.flatMap uses) (entries inp place fuel st).2
  block : ∀ contents construct st a, Ready inp.source tokens st a → st.nextKind = .curlyOpen →
    2 * st.rest.length ≤ fuel →
    Finds st (block inp contents construct fuel st).1.uses (block inp contents construct fuel st).2

section

variable {fuel : Nat} {place : Place} {t : Token} {ts : List Token}

/-- What one entry uses comes before what the others use. -/
theorem Finds.cons {p : Parsed} {ps : List Parsed} (h : Finds st p.uses st')
    (read : ReadsEntry inp tokens st a p st')
    (later : ∀ b, Ready inp.source tokens st' b → st'.rest.length < st.rest.length →
      Finds st' (ps.flatMap uses) st'' ∧ (st''.errors = [] → st'.errors = [])) :
    Finds st ((p :: ps).flatMap uses) st'' := by
  obtain ⟨b, ready, shorter⟩ := read.next
  obtain ⟨found, clean⟩ := later b ready shorter
  exact h.trans found clean

theorem EntriesFind.atRuleBody {head : AtRuleHead} (ih : EntriesFind inp tokens fuel) (name : String)
    (h : Ready inp.source tokens st a) (opens : head.hasBlock → st.nextKind = .curlyOpen)
    (enough : 2 * st.rest.length ≤ fuel) :
    Finds st ((Grammar.atRuleBody inp name fuel head st).1.flatMap uses)
      (Grammar.atRuleBody inp name fuel head st).2.2 := by
  unfold Grammar.atRuleBody
  split
  next has => simpa using ih.block (atRuleContents name) .atRuleBlock st a h (opens has) enough
  next => exact .refl st

theorem EntriesFind.atRule (ih : EntriesFind inp tokens fuel) {name : String} (h : Ready inp.source tokens st a)
    (e : st.rest = t :: ts) (keyword : t.kind = .atKeyword name) (enough : 2 * st.rest.length ≤ fuel) :
    let head := Grammar.atRuleHead inp t.stop st.advance
    let body := Grammar.atRuleBody inp name fuel head.1 head.2
    let prelude := preludeOf inp name head.1.atoms
    Finds st (Parsed.node (.atRule name) ⟨t.start, body.2.1⟩ (prelude.1 ++ body.1)).uses
      (body.2.2.discard prelude.2) := by
  intro head body prelude
  have step := h.advance e
  obtain ⟨used, b, reads, -, -, stop, opens⟩ := step.ready.atRuleHead
  have within : 2 * head.2.rest.length ≤ fuel := by
    have : used.length + head.2.rest.length = st.advance.rest.length := reads.length
    have := State.length_advance_lt e
    omega
  obtain ⟨_, _, rest, -⟩ := (entriesRead inp tokens fuel).atRuleBody name (.refl reads.ready) stop opens within
  have named : Finds st [] st.advance := .of_plain step (by simp [keyword])
  have headed := named.trans (step.ready.atRuleHead_finds t.stop) reads.clean
  have found := headed.trans (ih.atRuleBody name reads.ready opens within) rest.clean
  rw [uses_of_plain (by simp), List.flatMap_append, uses_preludeOf inp name (atRuleHead_formed inp t.stop st.advance)]
  exact found

theorem EntriesFind.styleRule {list : Parsed} {start : Nat} (ih : EntriesFind inp tokens fuel)
    (found : Finds st list.uses st') (head : ReadsHead inp tokens st a (.block list start) st')
    (enough : 2 * st.rest.length ≤ fuel) :
    let body := Grammar.block inp .declarations .ruleBlock fuel st'
    Finds st (Parsed.node .rule ⟨start, body.1.span.stop⟩ [list, body.1]).uses body.2 := by
  obtain ⟨-, used, b, reads, -, -, opens⟩ := head
  have := reads.length
  have within : 2 * st'.rest.length ≤ fuel := by omega
  obtain ⟨_, _, -, rest, -⟩ :=
    (entriesRead inp tokens fuel).block .declarations .ruleBlock st' b reads.ready opens within
  have rule := found.trans (ih.block .declarations .ruleBlock st' b reads.ready opens within) rest.clean
  simpa [uses_of_plain] using rule

/-- A token that cannot be read is reported, and so there is nothing to find. -/
theorem Ready.fault_finds {names : List String} (place : Place) (fault : Token.Fault)
    (h : Ready inp.source tokens st a) (e : st.rest = t :: ts) :
    let reported := st.advance.report (.lexical fault t.span)
    let read := match place with
      | .declarations => rawDeclaration inp t.start t.stop reported
      | _ => (rawNode inp t.start t.stop, reported)
    Finds st names read.2 := by
  have reported := (h.advance e).report (.lexical fault t.span)
  obtain ⟨_, _, skipped, -⟩ := reported.ready.skipDeclaration _ t.stop (Nat.le_refl _)
  cases place with
  | declarations => exact .of_reported skipped
  | _ => exact .of_reported (.refl reported.ready)

theorem EntriesFind.entry {p : Parsed} (ih : EntriesFind inp tokens fuel) (h : Ready inp.source tokens st a)
    (e : st.rest = t :: ts) (enough : 2 * st.rest.length ≤ fuel) (read : EntryRead inp place fuel st t ts p st') :
    Finds st p.uses st' := by
  cases read with
  | comment text _ kind =>
    rw [Parsed.leaf, uses_of_plain (by simp)]
    exact .of_plain (h.advance e) (by simp [kind])
  | fault fault eq =>
    subst eq
    exact h.fault_finds place fault e
  | declaration property _ kind => exact h.declaration_finds e kind
  | atRule name _ kind headEq bodyEq =>
    subst headEq bodyEq
    exact ih.atRule h e kind enough
  | raw _ eq =>
    have found := h.ruleHead_finds place
    rw [eq] at found
    exact fun none => absurd none found
  | rule starts eq bodyEq =>
    subst bodyEq
    have head := h.ruleHead e starts
    have found := h.ruleHead_finds place
    rw [eq] at head found
    exact ih.styleRule found head enough

theorem EntriesFind.entries_succ (ih : EntriesFind inp tokens fuel) (h : Ready inp.source tokens st a)
    (enough : 2 * st.rest.length + 1 ≤ fuel + 1) :
    Finds st ((entries inp place (fuel + 1) st).1.flatMap uses) (entries inp place (fuel + 1) st).2 := by
  have whole := entriesRead inp tokens fuel
  cases e : st.rest with
  | nil =>
    rw [entries_nil inp place _ e]
    exact .refl st
  | cons t ts =>
    have step := h.advance e
    have shorter := State.length_advance_lt e
    have later {st' : State} (b : Nat) (ready : Ready inp.source tokens st' b)
        (less : st'.rest.length < st.rest.length) :
        Finds st' ((entries inp place fuel st').1.flatMap uses) (entries inp place fuel st').2
          ∧ ((entries inp place fuel st').2.errors = [] → st'.errors = []) := by
      obtain ⟨_, _, reads, -⟩ := whole.list place st' b ready (by omega)
      exact ⟨ih.list place st' b ready (by omega), reads.clean⟩
    cases entries_step inp place fuel e with
    | finish _ eq =>
      rw [eq]
      exact .refl st
    | separator skips eq =>
      rw [eq]
      obtain ⟨found, clean⟩ := later _ step.ready shorter
      have plain : ∀ name, t.kind ≠ .function name := by
        intro name function
        have := entryOf_eq_separator skips
        rw [function] at this
        cases this
      exact (Finds.of_plain step (by simpa using plain)).trans found clean
    | strayBrace _ eq =>
      have reported := step.report (.strayBrace t.span)
      obtain ⟨_, _, rest, -⟩ := whole.list place _ _ reported.ready (by simpa [State.report] using by omega)
      rw [eq]
      exact .of_reported rest
    | entry read eq =>
      rw [eq]
      exact (ih.entry h e (by omega) read).cons (whole.entry h e (by omega) read) fun b => later b

/-- The end of a block takes its closing brace, or reports that there is none. -/
theorem Ready.closeBlock_finds (h : Ready inp.source tokens st a) : Finds st [] (Grammar.closeBlock inp st) := by
  unfold Grammar.closeBlock
  split
  next k =>
    obtain ⟨t, ts, e, kind⟩ := rest_of_nextKind (by rw [k]; simp)
    exact .of_plain (h.advance e).leave (by simp [kind.trans k])
  next => intro none; cases none

theorem EntriesFind.block_succ (ih : EntriesFind inp tokens fuel) (contents : Contents)
    (construct : Diagnostic.Construct) (h : Ready inp.source tokens st a) (opens : st.nextKind = .curlyOpen)
    (enough : 2 * st.rest.length ≤ fuel + 1) :
    Finds st (Grammar.block inp contents construct (fuel + 1) st).1.uses
      (Grammar.block inp contents construct (fuel + 1) st).2 := by
  obtain ⟨t, ts, e, kind⟩ := rest_of_opens opens
  have step := h.advance e
  rw [Grammar.block.eq_def]
  simp only [e]
  split
  next =>
    have reported := step.report (.tooDeep t.span)
    obtain ⟨_, _, passes, -⟩ := reported.ready.skipNested (reported.started (.inl (by simp)))
    exact .of_reported passes
  next =>
    have entered := step.enter ⟨construct, t.span⟩
    have shorter : (st.advance.enter ⟨construct, t.span⟩).rest.length < st.rest.length :=
      State.length_advance_lt e
    have brace : Finds st [] _ := .of_plain entered (by simp [kind])
    obtain ⟨_, _, reads, -, -, -, ended⟩ := (entriesRead inp tokens fuel).list (.ofContents contents) _ _
      entered.ready (by omega)
    obtain ⟨_, _, closed, -⟩ := (Reads.refl reads.ready).closeBlock (ended.imp_right And.right)
    have inside := brace.trans (ih.list (.ofContents contents) _ _ entered.ready (by omega)) reads.clean
    have found := inside.trans reads.ready.closeBlock_finds closed.clean
    rw [uses_of_plain (by simp)]
    simpa using found

theorem entriesFind (inp : Input) (tokens : List Token) (fuel : Nat) : EntriesFind inp tokens fuel := by
  induction fuel with
  | zero =>
    refine ⟨fun place st a h enough => by omega, fun contents construct st a h opens enough => ?_⟩
    have some := length_pos_of_opens opens
    omega
  | succ fuel ih =>
    exact ⟨fun _ _ _ h enough => ih.entries_succ h enough,
      fun contents construct _ _ h opens enough => ih.block_succ contents construct h opens enough⟩

end

/-- A stylesheet that was read without diagnostics uses in its tree what its tokens use. -/
theorem Input.uses_read (inp : Input) {tokens : List Token} {here : Nat} (boundary : IsBoundary inp.source here)
    (tiles : Token.Tiles inp.source here tokens) (clean : (inp.read tokens).errors = []) :
    (inp.read tokens).sheet.uses = Token.uses tokens := by
  have ready := Ready.start boundary tiles
  have found := (entriesFind inp tokens _).list .topLevel _ _ ready (Nat.le_refl _)
  obtain ⟨_, _, reads, -, -, -, ended⟩ := (entriesRead inp tokens _).list .topLevel _ _ ready (Nat.le_refl _)
  have eof := reads.ready.rest_of_eof (ended.resolve_right (by simp))
  have left : Token.uses (_ ++ []) = [] := Token.uses_append_of_plain fun t mem name => by
    rw [eof t mem]
    simp
  have all := found (List.reverse_eq_nil_iff.1 clean)
  rw [List.append_nil] at left
  rw [left] at all
  change (Parsed.node .styleSheet _ (entries inp .topLevel _ (.start tokens)).1).uses = _
  rw [uses_of_plain (by simp)]
  simpa [Token.uses, State.start] using all.symm

end AboveFold.Grammar
