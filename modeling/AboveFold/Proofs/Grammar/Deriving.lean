import AboveFold.Proofs.Grammar.Derivation

/-!
# What is read without a report is derived

Each function of the grammar that reports nothing went over words that a clause of `Entries` describes, and read what the
clause says. So did a list of entries as a whole (`entriesDerive`).
-/

namespace AboveFold.Grammar
open Source Node Parsed Token Item

variable {inp : Input} {tokens : List Token} {st st' st'' : State} {t : Token} {ts us : List Token} {room fuel a : Nat}
  {w : Written} {ws vs behind : List Written} {p : Parsed} {ps : List Parsed} {items : List Item} {b : Branch}
  {bs : List Branch} {place : Place} {source : String} {name property : String}

section

variable (spelt : ∀ t ∈ tokens, (word inp.source t).Spelt)

include spelt

/-- A declaration that is read without a report. -/
theorem Ready.declaration_derives (h : Ready inp.source tokens st a) (e : st.rest = t :: ts)
    (kind : t.kind = .ident property) (simple : startsNestedRule property ts = false)
    (silent : (Grammar.declaration inp t property st).2.errors = []) :
    ∃ trivia items blanks, IsDeclaration inp.source (maxDepth - st.depth) property (word inp.source t) trivia items
        (Grammar.declaration inp t property st).1.branch
      ∧ (∀ w ∈ blanks, w.kind = .whitespace)
      ∧ Spends inp st (word inp.source t :: trivia ++ .colon :: wordsOf items ++ blanks)
        (Grammar.declaration inp t property st).2
      ∧ ((Grammar.declaration inp t property st).2.nextKind = .eof
        ∨ endsDeclaration (Grammar.declaration inp t property st).2.nextKind = true) := by
  unfold Grammar.declaration at silent ⊢
  simp only at silent ⊢
  split at silent
  next place us colon =>
    obtain ⟨trivia, blank, words, head, ready, depth, text⟩ := h.colon spelt e colon
    have quiet := ((takes_declarationOf inp property t.start place.stop.offset _
      (components_isComponent inp endsDeclaration _)).1 silent).silent
    obtain ⟨zs, b, read, phrase⟩ := ready.reads_items spelt endsDeclaration quiet
    rw [depth] at phrase
    rw [read.values] at silent ⊢
    have declares := declares_of_silent silent
    obtain ⟨outline, span, errors, rest⟩ := declarationOf_unplaced declares inp t.start place.stop.offset
      (Grammar.components inp endsDeclaration st.advance.skipTrivia.advance).2
    obtain ⟨blanks, split, white⟩ := upToBlanks_append zs
    have first : upToBlanks zs ⊆ zs := fun i mem => split ▸ List.mem_append_left _ mem
    have value := (split ▸ read.placed).of_append.slice
    have spent := head.trans read.spends
    rw [congrArg wordsOf split, wordsOf_append] at spent
    refine ⟨trivia, (upToBlanks zs).map Item.unplaced, wordsOf blanks, ⟨kind, blank,
      phrase.of_subset (List.map_subset _ first), ?_, ?_, ?_, ?_, writes_branch ?_⟩, ?_, ?_, ?_⟩
    · simp only [List.getLast?_map, Option.mem_def, Option.map_eq_some_iff]
      rintro _ ⟨i, last, rfl⟩
      rw [isWhite_unplaced]
      exact isWhite_getLast?_upToBlanks last
    · rw [declares_map_unplaced]
      unfold Declares
      rwa [declared_upToBlanks]
    · have behind := read.spends.words
      rw [State.words, State.rest_advance colon, congrArg wordsOf split, wordsOf_append] at behind
      rw [behind, List.append_assoc, ← List.cons_append, ← List.append_assoc] at words
      rw [wordsOf_unplaced]
      exact startsNestedRule_of_prefix simple words
    · rw [unplaced_branch, outline, declaration_upToBlanks]
    · have both := ByteSpan.slice_beside text value
      rw [← textOf_append] at both
      rw [span, wordsOf_unplaced]
      simpa using both
    · intro w mem
      obtain ⟨i, inside, mem⟩ := List.mem_flatMap.1 mem
      have value := phrase.values i.unplaced (List.mem_map_of_mem (split ▸ List.mem_append_right _ inside))
      obtain ⟨v, e, white⟩ := value.white ((isWhite_unplaced i).trans (white i inside))
      rw [words_unplaced] at e
      rw [e, List.mem_singleton] at mem
      rwa [mem]
    · rw [wordsOf_unplaced]
      simpa using spent.congr rest errors
    · have ended := read.ended
      unfold State.nextKind at ended ⊢
      rwa [rest]
  next =>
    rw [rawDeclaration, skipDeclaration_errors] at silent
    cases silent

end

/-- An entry was read from `st` to `st'`: it comes before any entries whose first word may stand there. -/
def EntryDerives (inp : Input) (place : Place) (st : State) (p : Parsed) (st' : State) : Prop :=
  ∃ vs, Spends inp st vs st' ∧ ∀ ws bs, Entries inp.source place (maxDepth - st.depth) ws bs →
    (∀ w ∈ ws.head?, w.kind = st'.nextKind) → Entries inp.source place (maxDepth - st.depth) (vs ++ ws) (p.branch :: bs)

/-- A block was read from `st` to `st'`. -/
def BlockDerives (inp : Input) (contents : Contents) (st : State) (p : Parsed) (st' : State) : Prop :=
  ∃ room inner, maxDepth - st.depth = room + 1 ∧ p.kind = .block contents
    ∧ Entries inp.source (.ofContents contents) room inner (p.children.map Parsed.branch)
    ∧ Spends inp st (.brace :: (inner ++ [.unbrace])) st'
    ∧ p.span.slice inp.source = some (String.ofList (textOf (.brace :: (inner ++ [.unbrace]))))

/-- What `entries` and `block` read with the given fuel, if they report nothing. -/
structure EntriesDerive (inp : Input) (tokens : List Token) (fuel : Nat) : Prop where
  list : ∀ place st a, Ready inp.source tokens st a → 2 * st.rest.length + 1 ≤ fuel →
    (entries inp place fuel st).2.errors = [] → ∃ ws, Spends inp st ws (entries inp place fuel st).2
      ∧ Entries inp.source place (maxDepth - st.depth) ws ((entries inp place fuel st).1.map Parsed.branch)
  block : ∀ contents construct st a, Ready inp.source tokens st a → st.nextKind = .curlyOpen →
    2 * st.rest.length ≤ fuel → (block inp contents construct fuel st).2.errors = [] →
    BlockDerives inp contents st (block inp contents construct fuel st).1 (block inp contents construct fuel st).2

theorem BlockDerives.discard {contents : Contents} (h : BlockDerives inp contents st p st') (dropped : List Parsed) :
    BlockDerives inp contents st p (st'.discard dropped) := by
  obtain ⟨room, inner, deep, kind, inside, spends, text⟩ := h
  exact ⟨room, inner, deep, kind, inside, spends.discard dropped, text⟩

theorem Spends.used (h : Spends inp st ws st') (rest : st.rest = us ++ st'.rest) : us.map (word inp.source) = ws := by
  have words := h.words
  rw [State.words, rest, List.map_append] at words
  exact List.append_cancel_right words

theorem closeBlock_clean (clean : (closeBlock inp st).errors = []) :
    ∃ c ts, st.rest = c :: ts ∧ c.kind = .curlyClose ∧ closeBlock inp st = st.advance.leave := by
  unfold closeBlock at *
  split at clean
  next k =>
    obtain ⟨c, ts, e, kind⟩ := rest_of_nextKind (show st.nextKind ≠ .eof by rw [k]; simp)
    exact ⟨c, ts, e, kind.trans k, rfl⟩
  next => cases clean

section

variable (spelt : ∀ t ∈ tokens, (word inp.source t).Spelt)

include spelt

theorem EntriesDerive.block_succ (ih : EntriesDerive inp tokens fuel) (contents : Contents)
    (construct : Diagnostic.Construct) (h : Ready inp.source tokens st a) (opens : st.nextKind = .curlyOpen)
    (enough : 2 * st.rest.length ≤ fuel + 1) (silent : (Grammar.block inp contents construct (fuel + 1) st).2.errors = []) :
    BlockDerives inp contents st (Grammar.block inp contents construct (fuel + 1) st).1
      (Grammar.block inp contents construct (fuel + 1) st).2 := by
  obtain ⟨t, ts, e, kind⟩ := rest_of_opens opens
  have step := h.advance e
  rw [Grammar.block.eq_def] at silent ⊢
  simp only [e] at silent ⊢
  split at silent
  next =>
    have reported := step.report (.tooDeep t.span)
    obtain ⟨_, _, passes, -⟩ := reported.ready.skipNested (reported.started (.inl (by simp)))
    cases passes.clean silent
  next shallow =>
    rw [if_neg shallow]
    have entered := step.enter ⟨construct, t.span⟩
    have shorter : (st.advance.enter ⟨construct, t.span⟩).rest.length < st.rest.length := State.length_advance_lt e
    obtain ⟨c, ts', e', closes, closed⟩ := closeBlock_clean silent
    obtain ⟨used, b, reads, -⟩ := (entriesRead inp tokens fuel).list (.ofContents contents) _ _ entered.ready (by omega)
    simp only [closed] at silent ⊢
    obtain ⟨ws, spends, inside⟩ := ih.list (.ofContents contents) _ _ entered.ready (by omega)
      (by rwa [State.advance_of_rest e'] at silent)
    have opener : word inp.source t = .brace := word_of_sign spelt h.suffix (e ▸ List.mem_cons_self) kind rfl
    have closer : word inp.source c = .unbrace :=
      word_of_sign spelt reads.ready.suffix (e' ▸ List.mem_cons_self) closes rfl
    have first := spends_advance (State.words_of_rest inp e)
    have last := spends_advance (State.words_of_rest inp e')
    rw [opener] at first
    rw [closer] at last
    have depth := (sameLevel_advance st).depth
    refine ⟨maxDepth - (st.depth + 1), ws, by omega, rfl, ?_, ?_, ?_⟩
    · have level : (st.advance.enter ⟨construct, t.span⟩).depth = st.depth + 1 := by simp [State.enter, depth]
      rwa [level] at inside
    · exact (first.trans (spends.of_enter.trans last)).leave
    · have whole : st.rest = (t :: (used ++ [c])) ++ ts' := by
        have rest := reads.rest
        rw [e'] at rest
        rw [e]
        simpa [State.enter, State.rest_advance e] using rest
      have tiles := h.tiles
      rw [e] at tiles
      have text := h.text whole (by rw [← List.cons_append, List.getLast?_concat])
      rw [List.map_cons, List.map_append, List.map_singleton, opener, closer, spends.used reads.rest] at text
      rw [← tiles.start_eq] at text
      rw [← text, State.advance_of_rest e']
      rfl

/-- A style rule up to its block. -/
theorem Ready.ruleHead_derives {list : Parsed} {start : Nat} (h : Ready inp.source tokens st a) (e : st.rest = t :: ts)
    (starts : entryOf place (t :: ts) = .styleRule) (eq : Grammar.ruleHead inp place st = (.block list start, st'))
    (silent : st'.errors = []) : ∃ items b used, start = a ∧ Reads inp.source tokens st a used st' b
      ∧ st'.nextKind = .curlyOpen ∧ Spends inp st (wordsOf items) st'
      ∧ ByteSpan.slice ⟨a, b⟩ inp.source = some (Item.text items)
      ∧ entryAt place (wordsOf items ++ [.brace]) = .styleRule
      ∧ Phrase (endsSelectors place) (maxDepth - st.depth) items ∧ IsSelectors inp.source items list.branch := by
  have head := h.ruleHead e starts
  rw [eq] at head
  obtain ⟨rfl, used, b, reads, -, -, opens⟩ := head
  have first : (st.nextSpan inp).start.offset = start := by
    have tiles := h.tiles
    rw [e] at tiles
    rw [← tiles.start_eq]
    simp [State.nextSpan, e, Token.start]
  unfold Grammar.ruleHead at eq
  simp only [first] at eq
  split at eq
  case h_2 | h_3 => cases eq
  next k =>
    obtain ⟨one, rfl⟩ := Prod.mk.inj eq
    obtain ⟨rfl, -⟩ := RuleHead.block.inj one
    have select := selects_of_silent silent
    have same := selectorListOf_snd inp select start (Grammar.components inp (endsSelectors place) st).2
    simp only [same] at silent reads opens ⊢
    obtain ⟨zs, b', read, phrase⟩ := h.reads_items spelt (endsSelectors place) silent
    obtain ⟨_, reads'⟩ := read.reads
    obtain ⟨brace, us, e', kind⟩ := rest_of_opens k
    obtain rfl : b = b' := reads.ready.eq_of_rest reads'.ready e' e'
    have opener : word inp.source brace = .brace :=
      word_of_sign spelt reads'.ready.suffix (e' ▸ List.mem_cons_self) kind rfl
    have all : AllSelect zs := (allSelect_iff zs).2 (read.values ▸ select)
    have selected := selectorListOf_unplaced read.placed all (Grammar.components inp (endsSelectors place) st).2
    rw [← read.values] at selected
    refine ⟨zs.map Item.unplaced, b, used, trivial, reads, opens, ?_, ?_, ?_, phrase, selected.branch all⟩
    · rw [wordsOf_unplaced]
      exact read.spends.discard _
    · rw [text_map_unplaced]
      exact read.placed.slice
    · have words := read.spends.words
      rw [State.words, State.words_of_rest inp e', opener] at words
      rw [wordsOf_unplaced, ← entryAt_brace place (wordsOf zs) (us.map (word inp.source)), ← words, entryAt_word, e]
      exact starts

omit spelt in
theorem atRuleHead_silent (silent : (atRuleHead inp a st).2.errors = []) :
    (Grammar.components inp endsPrelude st).2.errors = [] := by
  unfold atRuleHead at silent
  simp only at silent
  split at silent
  next => rwa [State.errors_advance] at silent
  next => exact silent
  next => exact silent

omit spelt in
/-- An at-rule without a block. -/
theorem statement_derives {zs : List Item} {lo hi : Nat} {stop : List Written} {span : ByteSpan} (place : Place)
    (named : w.kind = .atKeyword name) (placed : Placed inp.source lo hi zs)
    (phrase : Phrase endsPrelude (maxDepth - st.depth) (zs.map Item.unplaced))
    (text : span.slice inp.source = some (String.ofList (textOf (w :: wordsOf zs ++ stop))))
    (spends : Spends inp st (w :: wordsOf zs ++ stop) st')
    (ends : stop = [.semicolon] ∨ stop = [] ∧ (st'.nextKind = .eof ∨ st'.nextKind = .curlyClose)) :
    EntryDerives inp place st (.node (.atRule name) span (preludeOf inp name (zs.map value)).1) st' := by
  obtain ⟨outline, -⟩ := prelude_branches name placed
  refine ⟨_, spends, fun ws bs rest first => ?_⟩
  have s : IsStatement inp.source (maxDepth - st.depth) name w (zs.map Item.unplaced) stop
      (Parsed.node (.atRule name) span (preludeOf inp name (zs.map value)).1).branch := by
    refine ⟨named, phrase, ?_, writes_branch ?_⟩
    · rw [branch_node, Branch.unplaced_mk, outline]
    · rwa [wordsOf_unplaced]
  have open_ : stop = [.semicolon] ∨ stop = [] ∧ ws = [] := by
    refine ends.imp_right fun ⟨bare, last⟩ => ⟨bare, ?_⟩
    -- a list cannot go on with what ends it
    refine List.eq_nil_iff_forall_not_mem.2 fun v mem => ?_
    obtain ⟨w, ws, rfl⟩ := List.exists_cons_of_ne_nil (List.ne_nil_of_mem mem)
    obtain ⟨eof, close⟩ := rest.head w rfl
    rw [first w rfl] at eof close
    exact last.elim eof close
  have all := Entries.statement s open_ rest
  rwa [wordsOf_unplaced] at all

omit spelt in
/-- An at-rule with a block. -/
theorem atRule_derives {zs : List Item} {lo hi : Nat} {span : ByteSpan} {block : Parsed} (place : Place)
    (level : SameLevel st st')
    (named : w.kind = .atKeyword name) (placed : Placed inp.source lo hi zs)
    (phrase : Phrase endsPrelude (maxDepth - st.depth) (zs.map Item.unplaced))
    (head : ByteSpan.slice ⟨span.start, block.span.start⟩ inp.source = some (String.ofList (textOf (w :: wordsOf zs))))
    (stop : span.stop = block.span.stop) (spends : Spends inp st (w :: wordsOf zs) st')
    (body : BlockDerives inp (atRuleContents name) st' block st'') :
    EntryDerives inp place st (.node (.atRule name) span ((preludeOf inp name (zs.map value)).1 ++ [block])) st'' := by
  obtain ⟨outline, shown⟩ := prelude_branches name placed
  obtain ⟨room, inner, deep, kind, inside, spent, text⟩ := body
  rw [level.depth] at deep
  obtain ⟨k, range, cs⟩ := block
  obtain rfl : k = .block (atRuleContents name) := kind
  change Entries inp.source _ room inner (cs.map Parsed.branch) at inside
  have whole := ByteSpan.slice_beside head text
  rw [← textOf_append, show range.stop = span.stop from stop.symm] at whole
  refine ⟨_, spends.trans spent, fun ws bs rest first => ?_⟩
  rw [deep] at phrase rest ⊢
  have all := Entries.atRule (n := ⟨0, .atRule name, some span, false⟩)
    (m := ⟨0, .block (atRuleContents name), some range, false⟩) ⟨rfl, named, phrase, outline, shown⟩ inside
    ⟨rfl, ?_⟩ ?_ rest
  · rw [wordsOf_unplaced] at all
    simpa using all
  · rw [← branch_node]
    exact writes_branch text
  · have same : Branch.mk ⟨0, .atRule name, some span, false⟩ ((preludeOf inp name (zs.map value)).1.map Parsed.branch
        ++ [.mk ⟨0, .block (atRuleContents name), some range, false⟩ (cs.map Parsed.branch)])
        = (Parsed.node (.atRule name) span ((preludeOf inp name (zs.map value)).1
          ++ [.node (.block (atRuleContents name)) range cs])).branch := by
      simp
    rw [same, wordsOf_unplaced]
    exact writes_branch whole

theorem EntriesDerive.atRule (ih : EntriesDerive inp tokens fuel) (place : Place) (h : Ready inp.source tokens st a)
    (e : st.rest = t :: ts) (kind : t.kind = .atKeyword name) (enough : 2 * st.rest.length ≤ fuel) :
    let head := Grammar.atRuleHead inp t.stop st.advance
    let body := Grammar.atRuleBody inp name fuel head.1 head.2
    let prelude := preludeOf inp name head.1.atoms
    body.2.2.errors = [] → EntryDerives inp place st
      (Parsed.node (.atRule name) ⟨t.start, body.2.1⟩ (prelude.1 ++ body.1)) (body.2.2.discard prelude.2) := by
  intro head body prelude silent
  have tiles := h.tiles
  rw [e] at tiles
  have step := h.advance e
  obtain ⟨_, _, headRead, -, -, stop, opens⟩ := step.ready.atRuleHead
  have within : 2 * head.2.rest.length ≤ fuel := by
    have : _ + head.2.rest.length = st.advance.rest.length := headRead.length
    have := State.length_advance_lt e
    omega
  obtain ⟨_, _, bodyRead, -⟩ :=
    (entriesRead inp tokens fuel).atRuleBody name (.refl headRead.ready) stop opens within
  obtain ⟨zs, b, read, phrase⟩ :=
    step.ready.reads_items spelt endsPrelude (atRuleHead_silent (bodyRead.clean silent))
  obtain ⟨_, reads⟩ := read.reads
  rw [(sameLevel_advance st).depth] at phrase
  have keyed := ByteSpan.slice_beside (h.text_head e) read.placed.slice
  rw [← textOf_append, ← tiles.start_eq] at keyed
  have spent := (spends_advance (State.words_of_rest inp e)).trans read.spends
  have level := (sameLevel_advance st).trans (components_level inp endsPrelude st.advance)
  have eq := atRuleHead_eq read
  simp only [← show head = Grammar.atRuleHead inp t.stop st.advance from rfl] at eq
  -- an at-rule without a block ends with a semicolon, or where the list does
  have statement {last : Nat} {st' : State} (stop : List Written) (head_eq : head = (⟨zs.map value, last, false⟩, st'))
      (text : ByteSpan.slice ⟨t.start, last⟩ inp.source
        = some (String.ofList (textOf (word inp.source t :: wordsOf zs ++ stop))))
      (spends : Spends inp st (word inp.source t :: wordsOf zs ++ stop) st')
      (ends : stop = [.semicolon] ∨ stop = [] ∧ (st'.nextKind = .eof ∨ st'.nextKind = .curlyClose)) :
      EntryDerives inp place st (Parsed.node (.atRule name) ⟨t.start, body.2.1⟩ (prelude.1 ++ body.1))
        (body.2.2.discard prelude.2) := by
    simp only [body, prelude, head_eq, Grammar.atRuleBody, Bool.false_eq_true, if_false, List.append_nil]
    exact statement_derives place kind read.placed phrase text (spends.discard _) ends
  rcases read.ended with k | ends
  · refine statement [] (by rw [eq, k]) ?_ ?_ (.inr ⟨rfl, .inl k⟩)
    · rwa [List.append_nil]
    · rwa [List.append_nil]
  · rcases endsPrelude_iff.1 ends with k | k | k
    · have more : (Grammar.components inp endsPrelude st.advance).2.nextKind ≠ .eof := by
        rw [k]
        simp
      obtain ⟨s, us, e', kind'⟩ := rest_of_nextKind more
      have sign : word inp.source s = .semicolon :=
        word_of_sign spelt reads.ready.suffix (e' ▸ List.mem_cons_self) (kind'.trans k) rfl
      have last := reads.ready.text_head e'
      rw [sign] at last
      have closed := spends_advance (State.words_of_rest inp e')
      rw [sign] at closed
      refine statement [.semicolon] (by rw [eq, k]) ?_ ?_ (.inl rfl)
      · have whole := ByteSpan.slice_beside keyed last
        rw [← textOf_append] at whole
        rw [State.advance_of_rest e']
        exact whole
      · exact spent.trans closed
    · simp only [k] at eq
      simp only [body, prelude, eq, Grammar.atRuleBody, if_true] at silent ⊢
      have within : 2 * (Grammar.components inp endsPrelude st.advance).2.rest.length ≤ fuel := by
        have := reads.length
        have := State.length_advance_lt e
        omega
      have opened := ih.block (atRuleContents name) .atRuleBlock _ b reads.ready k within silent
      obtain ⟨_, _, -, -, -, span⟩ := (entriesRead inp tokens fuel).block (atRuleContents name) .atRuleBlock _ b
        reads.ready k within
      refine atRule_derives place level kind read.placed phrase ?_ rfl spent (opened.discard _)
      rw [span]
      exact keyed
    · refine statement [] (by rw [eq, k]) ?_ ?_ (.inr ⟨rfl, .inr k⟩)
      · rwa [List.append_nil]
      · rwa [List.append_nil]

omit spelt in
theorem rule_derives {list : Parsed} {start : Nat} {block : Parsed} (level : SameLevel st st')
    (starts : entryAt place (wordsOf items ++ [.brace]) = .styleRule)
    (phrase : Phrase (endsSelectors place) (maxDepth - st.depth) items)
    (selectors : IsSelectors inp.source items list.branch)
    (head : ByteSpan.slice ⟨start, block.span.start⟩ inp.source = some (Item.text items))
    (spends : Spends inp st (wordsOf items) st') (body : BlockDerives inp .declarations st' block st'') :
    EntryDerives inp place st (.node .rule ⟨start, block.span.stop⟩ [list, block]) st'' := by
  obtain ⟨room, inner, deep, kind, inside, spent, text⟩ := body
  rw [level.depth] at deep
  obtain ⟨k, range, cs⟩ := block
  obtain rfl : k = .block .declarations := kind
  change Entries inp.source .declarations room inner (cs.map Parsed.branch) at inside
  have whole := ByteSpan.slice_beside head text
  rw [← textOf_append] at whole
  refine ⟨_, spends.trans spent, fun ws bs rest first => ?_⟩
  rw [deep] at phrase rest ⊢
  have all := Entries.rule (n := ⟨0, .rule, some ⟨start, range.stop⟩, false⟩)
    (m := ⟨0, .block .declarations, some range, false⟩) ⟨rfl, starts, phrase, selectors⟩ inside ⟨rfl, ?_⟩ ?_ rest
  · simpa [Parsed.span] using all
  · rw [← branch_node]
    exact writes_branch text
  · have same : Branch.mk ⟨0, .rule, some ⟨start, range.stop⟩, false⟩
        [list.branch, .mk ⟨0, .block .declarations, some range, false⟩ (cs.map Parsed.branch)]
        = (Parsed.node .rule ⟨start, range.stop⟩ [list, .node (.block .declarations) range cs]).branch := by
      simp
    rw [same]
    exact writes_branch whole

theorem EntriesDerive.styleRule {list : Parsed} {start : Nat} (ih : EntriesDerive inp tokens fuel)
    (h : Ready inp.source tokens st a) (e : st.rest = t :: ts) (starts : entryOf place (t :: ts) = .styleRule)
    (eq : Grammar.ruleHead inp place st = (.block list start, st')) (enough : 2 * st.rest.length ≤ fuel) :
    let body := Grammar.block inp .declarations .ruleBlock fuel st'
    body.2.errors = [] →
      EntryDerives inp place st (.node .rule ⟨start, body.1.span.stop⟩ [list, body.1]) body.2 := by
  intro body silent
  have head := h.ruleHead e starts
  rw [eq] at head
  obtain ⟨-, used, b, reads, -, -, opens⟩ := head
  have within : 2 * st'.rest.length ≤ fuel := by
    have : _ + st'.rest.length = _ := reads.length
    omega
  obtain ⟨used', c, some, reads', -, span⟩ :=
    (entriesRead inp tokens fuel).block .declarations .ruleBlock st' b reads.ready opens within
  have opened := ih.block .declarations .ruleBlock st' b reads.ready opens within silent
  obtain ⟨items, b', used'', rfl, reads'', -, spends, text, starts', phrase, selectors⟩ :=
    h.ruleHead_derives spelt e starts eq (reads'.clean silent)
  have level := ruleHead_level inp place st
  rw [eq] at level
  obtain ⟨t', ts', e', -⟩ := rest_of_opens opens
  obtain rfl : b = b' := reads.ready.eq_of_rest reads''.ready e' e'
  exact rule_derives level starts' phrase selectors (by rw [span]; exact text) spends opened

omit spelt in
theorem entryOf_separator (skips : entryOf place (t :: ts) = .separator) :
    entryAt place [word source t] = .separator := by
  unfold entryOf at skips
  cases k : t.kind <;> cases place <;> simp_all [entryAt, entryOf, word, kind_token]
  split at skips <;> cases skips

omit spelt in
theorem entryOf_declaration (starts : entryOf place (t :: ts) = .declaration property) :
    place = .declarations ∧ startsNestedRule property ts = false := by
  unfold entryOf at starts
  cases k : t.kind <;> cases place <;> simp_all
  split at starts
  next => cases starts
  next simple => simp_all

theorem EntriesDerive.entry (ih : EntriesDerive inp tokens fuel) (h : Ready inp.source tokens st a)
    (e : st.rest = t :: ts) (enough : 2 * st.rest.length ≤ fuel) (read : EntryRead inp place fuel st t ts p st')
    (silent : st'.errors = []) : EntryDerives inp place st p st' := by
  cases read with
  | comment text starts kind =>
    refine ⟨[word inp.source t], spends_advance (State.words_of_rest inp e), fun ws bs rest _ => ?_⟩
    have tiles := h.tiles
    rw [e] at tiles
    have said := h.text_head e
    rw [← tiles.start_eq] at said
    refine .comment (b := (Parsed.leaf (.comment text) t.span.bytes).branch) kind ?_ (writes_branch said) rest
    rw [unplaced_branch, unplaced_leaf]
  | fault fault eq =>
    subst eq
    have raw := ((fault_takes place t fault st).structured silent).self
    cases place <;> exact absurd rfl (raw _)
  | declaration property starts kind =>
    obtain ⟨rfl, simple⟩ := entryOf_declaration starts
    obtain ⟨trivia, items, blanks, d, blank, spends, ended⟩ := h.declaration_derives spelt e kind simple silent
    refine ⟨_, spends, fun ws bs rest first => ?_⟩
    have all := Entries.declaration d blank (fun w mem => ?_) rest
    · simpa using all
    · obtain ⟨eof, close⟩ := rest.head w mem
      rw [first w mem] at eof close ⊢
      simpa [endsDeclaration, eof, close] using ended
  | atRule name starts kind headEq bodyEq =>
    subst headEq bodyEq
    exact ih.atRule spelt place h e kind enough silent
  | raw starts eq =>
    have head := ruleHead_take inp place st
    rw [eq] at head
    exact absurd silent head
  | rule starts eq bodyEq =>
    subst bodyEq
    exact ih.styleRule spelt h e starts eq enough silent

theorem EntriesDerive.entries_succ (ih : EntriesDerive inp tokens fuel) (h : Ready inp.source tokens st a)
    (enough : 2 * st.rest.length + 1 ≤ fuel + 1) (silent : (entries inp place (fuel + 1) st).2.errors = []) :
    ∃ ws, Spends inp st ws (entries inp place (fuel + 1) st).2
      ∧ Entries inp.source place (maxDepth - st.depth) ws ((entries inp place (fuel + 1) st).1.map Parsed.branch) := by
  have whole := entriesRead inp tokens fuel
  cases e : st.rest with
  | nil =>
    rw [entries_nil inp place _ e]
    exact ⟨[], .refl inp st, .nil ..⟩
  | cons t ts =>
    have step := h.advance e
    have shorter := State.length_advance_lt e
    cases entries_step inp place fuel e with
    | finish _ eq =>
      rw [eq]
      exact ⟨[], .refl inp st, .nil ..⟩
    | separator skips eq =>
      rw [eq] at silent ⊢
      obtain ⟨ws, spends, list⟩ := ih.list place _ _ step.ready (by omega) silent
      rw [(sameLevel_advance st).depth] at list
      exact ⟨_, (spends_advance (State.words_of_rest inp e)).trans spends, .separator (entryOf_separator skips) list⟩
    | strayBrace _ eq =>
      have reported := step.report (.strayBrace t.span)
      obtain ⟨_, _, rest, -⟩ := whole.list place _ _ reported.ready (by simpa [State.report] using by omega)
      rw [eq] at silent
      cases rest.clean silent
    | @entry p st' read eq =>
      rw [eq] at silent ⊢
      obtain ⟨used, b, some, reads, -⟩ := whole.entry h e (by omega) read
      have := reads.length
      have := List.length_pos_iff.2 some
      obtain ⟨_, _, rest, -⟩ := whole.list place st' b reads.ready (by omega)
      obtain ⟨vs, spent, derives⟩ := ih.entry spelt h e (by omega) read (rest.clean silent)
      obtain ⟨ws, spends, list⟩ := ih.list place st' b reads.ready (by omega) silent
      rw [read.level.depth] at list
      refine ⟨_, spent.trans spends, derives ws _ list fun w mem => ?_⟩
      cases ws with
      | nil => cases mem
      | cons v ws =>
        obtain rfl : v = w := by simpa using mem
        exact (nextKind_of_words spends.words).symm

theorem entriesDerive (fuel : Nat) : EntriesDerive inp tokens fuel := by
  induction fuel with
  | zero =>
    refine ⟨fun place st a h enough => by omega, fun contents construct st a h opens enough => ?_⟩
    have some := length_pos_of_opens opens
    omega
  | succ fuel ih =>
    exact ⟨fun _ _ _ h enough => ih.entries_succ spelt h enough,
      fun contents construct _ _ h opens enough => ih.block_succ spelt contents construct h opens enough⟩

end

end AboveFold.Grammar
