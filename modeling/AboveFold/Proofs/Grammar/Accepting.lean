import AboveFold.Proofs.Grammar.Derivation

/-!
# What is derived is read

Words that are the entries of a list are read as these entries, without a report, wherever a list may end behind them
(`Entries.read`). The text that the words stand in need not be the one that the entries were first read from.
-/

namespace AboveFold.Grammar
open Source Node Parsed Token Item

variable {inp : Input} {tokens : List Token} {st st' st'' : State} {t : Token} {ts us : List Token} {room fuel a : Nat}
  {w : Written} {ws vs behind inner : List Written} {p : Parsed} {ps : List Parsed} {items : List Item} {b : Branch}
  {bs cs : List Branch} {place : Place} {source : String} {name property : String}

/-- A list at `place` ends before this token. -/
def endsList (place : Place) (k : Token.Kind) : Prop := k = .eof ∨ place ≠ .topLevel ∧ k = .curlyClose

theorem entryOf_of_endsList (ends : endsList place t.kind) : entryOf place (t :: ts) = .finish := by
  rcases ends with eof | ⟨inside, close⟩
  · simp [entryOf, eof]
  · cases place <;> simp_all [entryOf]

theorem entryOf_of_separator (skips : entryAt place [word source t] = .separator) :
    entryOf place (t :: ts) = .separator := by
  unfold entryAt at skips
  cases k : t.kind <;> cases place <;> simp_all [entryOf, word, kind_token, startsNestedRule, blockFollows]

/-- An entry is read where it starts. -/
theorem EntryRead.entries_eq (read : EntryRead inp place fuel st t ts p st') (e : st.rest = t :: ts) :
    entries inp place (fuel + 1) st
      = (p :: (entries inp place fuel st').1, (entries inp place fuel st').2) := by
  cases read with
  | comment text starts =>
    rw [entries.eq_def]
    simp only [e, starts]
  | fault fault eq starts =>
    subst eq
    rw [entries.eq_def]
    cases place <;> simp only [e, starts]
  | declaration property starts =>
    rw [entries.eq_def]
    simp only [e, starts]
  | atRule name starts kind headEq bodyEq =>
    subst headEq bodyEq
    rw [entries.eq_def]
    simp only [e, starts]
    rfl
  | raw starts eq =>
    rw [entries.eq_def]
    simp only [e, starts, eq]
  | rule starts eq bodyEq =>
    subst bodyEq
    rw [entries.eq_def]
    simp only [e, starts, eq]

/-- The words `ws` are read as the entries `bs`, wherever a list may end behind them. -/
def ReadsEntriesAs (inp : Input) (tokens : List Token) (place : Place) (room : Nat) (ws : List Written)
    (bs : List Branch) : Prop :=
  ∀ st a fuel behind, Ready inp.source tokens st a → st.errors = [] → st.words inp = ws ++ behind →
    room ≤ maxDepth - st.depth → 2 * st.rest.length + 1 ≤ fuel → (∀ w ∈ behind.head?, endsList place w.kind) →
    (entries inp place fuel st).1.map Parsed.unplaced = bs.map Branch.unplaced
      ∧ Spends inp st ws (entries inp place fuel st).2

/-- The words `ws` are read as the entry `b`, wherever the next word is one that `next` holds of. -/
def ReadsEntryAs (inp : Input) (tokens : List Token) (place : Place) (room : Nat) (ws : List Written) (b : Branch)
    (next : Token.Kind → Prop) : Prop :=
  ∀ st a fuel behind, Ready inp.source tokens st a → st.errors = [] → st.words inp = ws ++ behind →
    room ≤ maxDepth - st.depth → 2 * st.rest.length ≤ fuel → (∀ w ∈ behind.head?, next w.kind) →
    ∃ t ts p st', st.rest = t :: ts ∧ EntryRead inp place fuel st t ts p st' ∧ p.unplaced = b.unplaced ∧ Spends inp st ws st'

theorem readsEntriesAs_nil (inp : Input) (tokens : List Token) (place : Place) (room : Nat) :
    ReadsEntriesAs inp tokens place room [] [] := by
  intro st a fuel behind h silent words deep enough ends
  rcases e : st.rest with - | ⟨t, ts⟩
  · rw [entries_nil inp place fuel e]
    exact ⟨rfl, .refl inp st⟩
  · obtain ⟨fuel, rfl⟩ : ∃ n, fuel = n + 1 := ⟨fuel - 1, by omega⟩
    have finish : entryOf place (t :: ts) = .finish := by
      apply entryOf_of_endsList
      rw [List.nil_append, State.words_of_rest inp e] at words
      exact ends (word inp.source t) (by rw [← words]; rfl)
    rw [entries.eq_def]
    simp only [e, finish]
    exact ⟨rfl, .refl inp st⟩

theorem ReadsEntriesAs.separator (skips : entryAt place [w] = .separator)
    (rest : ReadsEntriesAs inp tokens place room ws bs) : ReadsEntriesAs inp tokens place room (w :: ws) bs := by
  intro st a fuel behind h silent words deep enough ends
  obtain ⟨fuel, rfl⟩ : ∃ n, fuel = n + 1 := ⟨fuel - 1, by omega⟩
  obtain ⟨t, ts, e, rfl, -⟩ := rest_of_words words
  have step := spends_advance words
  have starts : entryOf place (t :: ts) = .separator := entryOf_of_separator skips
  have shorter := State.length_advance_lt e
  obtain ⟨read, spends⟩ := rest st.advance t.stop fuel behind (h.advance e).ready (step.errors.trans silent)
    (step.rest words) (by rwa [(sameLevel_advance st).depth]) (by omega) ends
  rw [entries.eq_def]
  simp only [e, starts]
  exact ⟨read, step.trans spends⟩

/-- One entry is read before the others. -/
theorem ReadsEntriesAs.cons {next : Token.Kind → Prop} (first : ReadsEntryAs inp tokens place room vs b next)
    (rest : ReadsEntriesAs inp tokens place room ws bs) (some : vs ≠ [])
    (follows : ∀ w ∈ ws.head?, next w.kind) (last : ws = [] → ∀ k, endsList place k → next k) :
    ReadsEntriesAs inp tokens place room (vs ++ ws) (b :: bs) := by
  intro st a fuel behind h silent words deep enough ends
  obtain ⟨fuel, rfl⟩ : ∃ n, fuel = n + 1 := ⟨fuel - 1, by omega⟩
  rw [List.append_assoc] at words
  obtain ⟨t, ts, p, st', e, read, outline, spends⟩ := first st a fuel (ws ++ behind) h silent words deep (by omega)
    (fun w mem => by
      cases ws with
      | nil => exact last rfl _ (ends w mem)
      | cons v ws => exact follows w mem)
  obtain ⟨used, b', -, reads, -⟩ := (entriesRead inp tokens fuel).entry h e (by omega) read
  have shorter := spends.length_le
  have := List.length_pos_iff.2 some
  obtain ⟨later, spent⟩ := rest st' b' fuel behind reads.ready (spends.errors.trans silent) (spends.rest words)
    (by rwa [read.level.depth]) (by omega) ends
  rw [read.entries_eq e]
  refine ⟨?_, spends.trans spent⟩
  rw [List.map_cons, List.map_cons, outline, later]

theorem readsEntryAs_comment {text : String} (kind : w.kind = .comment text)
    (outline : b.unplaced = bare (.comment text) []) :
    ReadsEntryAs inp tokens place room [w] b fun _ => True := by
  intro st a fuel behind h silent words deep enough _
  obtain ⟨t, ts, e, rfl, -⟩ := rest_of_words words
  have starts : entryOf place (t :: ts) = .comment text := by
    have kind : t.kind = .comment text := kind
    cases place <;> simp [entryOf, kind]
  exact ⟨t, ts, _, _, e, .comment text starts kind, by rw [unplaced_leaf, outline], spends_advance words⟩

/-! ## Declarations -/

theorem blockFollows_append (none : blockFollows ts = false) (more : blockFollows us = false) :
    blockFollows (ts ++ us) = false := by
  induction ts with
  | nil => exact more
  | cons t ts ih =>
    rw [blockFollows_cons] at none
    rw [List.cons_append, blockFollows_cons]
    split
    next stops => rwa [if_pos stops] at none
    next goes =>
      rw [if_neg goes] at none
      exact ih none

theorem blockFollows_of_blanks (blank : ∀ t ∈ ts, t.kind = .whitespace) : blockFollows ts = false := by
  induction ts with
  | nil => rfl
  | cons t ts ih =>
    rw [List.forall_mem_cons] at blank
    rw [blockFollows_cons, blank.1, if_neg (by simp [endsLookahead]), ih blank.2]

/-- No block follows a word that ends a declaration. -/
theorem blockFollows_of_ends (ends : ∀ t ∈ ts.head?, t.kind = .eof ∨ endsDeclaration t.kind = true) :
    blockFollows ts = false := by
  cases ts with
  | nil => rfl
  | cons t ts =>
    have ends := ends t rfl
    rw [blockFollows_cons]
    cases k : t.kind <;> simp_all [endsLookahead, endsDeclaration]

theorem startsNestedRule_append (simple : startsNestedRule name ts = false) (more : blockFollows us = false) :
    startsNestedRule name (ts ++ us) = false := by
  unfold startsNestedRule at simple ⊢
  cases follows : blockFollows ts with
  | true =>
    rw [follows, Bool.and_true] at simple
    rw [simple, Bool.false_and]
  | false => rw [blockFollows_append follows more, Bool.and_false]

theorem startsNestedRule_words (name source : String) (ts : List Token) :
    startsNestedRule name ((ts.map (word source)).map Written.token) = startsNestedRule name ts := by
  rw [startsNestedRule, blockFollows_congr (map_kind_word source ts), startsNestedRule]

theorem skipTrivia_rest {trivia : List Token} (e : st.rest = trivia ++ t :: ts)
    (blank : ∀ t ∈ trivia, t.kind.isTrivia = true) (solid : t.kind.isTrivia = false) : st.skipTrivia.rest = t :: ts := by
  induction trivia generalizing st with
  | nil => rw [skipTrivia_of_not_trivia (by rw [nextKind_of_rest e, solid]), e, List.nil_append]
  | cons u trivia ih =>
    rw [List.forall_mem_cons] at blank
    rw [skipTrivia_of_trivia e blank.1]
    exact ih (State.rest_advance e) blank.2

/-- Blanks as items. -/
def Item.blanks (ws : List Written) : List Item := ws.map fun w => ⟨[w], bare .whitespace []⟩

theorem wordsOf_blanks (ws : List Written) : wordsOf (Item.blanks ws) = ws := by
  induction ws with
  | nil => rfl
  | cons w ws ih => exact congrArg (w :: ·) ih

theorem phrase_blanks (blank : ∀ w ∈ ws, w.kind = .whitespace) (room : Nat) :
    Phrase endsDeclaration room (Item.blanks ws) := by
  constructor
  · refine List.forall_mem_map.2 fun w mem => ?_
    have leaf : w.leaf = .whitespace := by rw [Written.leaf, blank w mem]
    have value := Value.single room (w := w) (by rw [blank w mem]; exact ⟨rfl, rfl, by simp⟩) (by rw [blank w mem]; simp)
    rwa [leaf] at value
  · refine List.forall_mem_map.2 fun w mem => ?_
    simp [blank w mem, endsDeclaration]

theorem upToBlanks_append_blanks (closed : ∀ i ∈ items.getLast?, i.isWhite = false) (ws : List Written) :
    upToBlanks (items ++ Item.blanks ws) = items := by
  have white : ∀ i ∈ (Item.blanks ws).reverse, isWhite i = true := by
    simp [Item.blanks, isWhite, isWhitespace, Node.Kind.isWhitespace]
  rw [upToBlanks, List.rdropWhile, List.reverse_append, List.dropWhile_append_of_pos white]
  rcases List.eq_nil_or_concat items with rfl | ⟨front, last, rfl⟩
  · rfl
  · have solid := closed last (by simp)
    simp [solid]

section

variable (spelt : ∀ t ∈ tokens, (word inp.source t).Spelt)

include spelt

theorem IsDeclaration.read {trivia blanks : List Written} (d : IsDeclaration source room property w trivia items b)
    (blank : ∀ w ∈ blanks, w.kind = .whitespace) :
    ReadsEntryAs inp tokens .declarations room (w :: trivia ++ .colon :: wordsOf items ++ blanks) b
      fun k => k = .eof ∨ endsDeclaration k = true := by
  intro st a fuel behind h silent words deep enough ends
  have all : st.words inp = w :: ((trivia ++ .colon :: wordsOf items) ++ (blanks ++ behind)) := by simpa using words
  obtain ⟨t, ts, e, rfl, first⟩ := rest_of_words all
  have kind : t.kind = .ident property := d.named
  have simple : startsNestedRule property ts = false := by
    have behind : (blanks ++ behind).map Written.token = blanks.map Written.token ++ behind.map Written.token :=
      List.map_append
    rw [← startsNestedRule_words property inp.source ts, first, List.map_append, behind]
    refine startsNestedRule_append d.simple (blockFollows_append (blockFollows_of_blanks ?_) (blockFollows_of_ends ?_))
    · exact List.forall_mem_map.2 blank
    · rw [List.head?_map]
      simpa [kind_token] using ends
  have starts : entryOf .declarations (t :: ts) = .declaration property := by
    simp [entryOf, kind, simple]
  refine ⟨t, ts, _, _, e, .declaration property starts kind, ?_⟩
  -- the colon stands behind blanks and comments
  have parts : ts.map (word inp.source) = trivia ++ (.colon :: (wordsOf (items ++ Item.blanks blanks) ++ behind)) := by
    simpa [wordsOf_blanks] using first
  obtain ⟨skipped, more, rfl, blank', behindBlanks⟩ := List.map_eq_append_iff.1 parts
  obtain ⟨⟨k, place⟩, us, rfl, colon, behindColon⟩ := List.map_eq_cons_iff.1 behindBlanks
  obtain rfl : k = .colon := congrArg Written.kind colon
  have trivial : ∀ t ∈ skipped, t.kind.isTrivia = true := by
    have all := d.trivial
    rw [← blank'] at all
    exact List.forall_mem_map.1 all
  have rest : st.advance.skipTrivia.rest = ⟨.colon, place⟩ :: us :=
    skipTrivia_rest (State.rest_advance e) trivial rfl
  obtain ⟨trivia', -, split, head, ready, depth, -⟩ := h.colon spelt e rest
  obtain rfl : trivia = trivia' := by
    rw [parts, ← behindColon] at split
    exact List.append_cancel_right split
  have phrase := d.phrase.append (phrase_blanks blank room)
  have spent : st.advance.skipTrivia.advance.words inp = wordsOf (items ++ Item.blanks blanks) ++ behind := by
    rw [State.words, State.rest_advance rest]
    exact behindColon
  obtain ⟨zs, c, read, same⟩ := phrase.reads_items spelt ready (head.errors.trans silent) spent (by omega) ends
  have declares : Declares property zs := by
    rw [← declares_map_unplaced, same, Declares, ← declared_upToBlanks, upToBlanks_append_blanks d.closed]
    exact d.declares
  obtain ⟨outline, -, errors, left⟩ := declarationOf_unplaced declares inp t.start place.stop.offset
    (Grammar.components inp endsDeclaration st.advance.skipTrivia.advance).2
  have eq : Grammar.declaration inp t property st
      = declarationOf inp property t.start place.stop.offset (zs.map value)
        (Grammar.components inp endsDeclaration st.advance.skipTrivia.advance).2 := by
    unfold Grammar.declaration
    simp only [rest, read.values]
  rw [eq]
  refine ⟨?_, ?_⟩
  · rw [outline, d.outline, same, Item.declaration, ← declared_upToBlanks, upToBlanks_append_blanks d.closed,
      Item.declaration]
  · have all := (head.trans read.spends).congr left errors
    rw [← wordsOf_unplaced, same, wordsOf_append, wordsOf_blanks] at all
    simpa using all

/-! ## At-rules -/

omit spelt in
/-- What holds of the next word, and of the end of input, holds of the next kind. -/
theorem nextKind_of_ends (P : Token.Kind → Prop) (words : st.words inp = behind) (ends : ∀ w ∈ behind.head?, P w.kind)
    (eof : P .eof) : P st.nextKind := by
  subst words
  cases e : st.rest with
  | nil => simpa [State.nextKind, e] using eof
  | cons t ts =>
    rw [nextKind_of_rest e]
    exact ends (word inp.source t) (by rw [State.words_of_rest inp e]; rfl)

/-- What an at-rule says up to its block or its end is read. -/
theorem atRuleHead_read (place : Place) {rest : List Written} (h : Ready inp.source tokens st a) (silent : st.errors = [])
    (words : st.words inp = w :: wordsOf items ++ rest) (named : w.kind = .atKeyword name)
    (phrase : Phrase endsPrelude room items) (deep : room ≤ maxDepth - st.depth)
    (ends : ∀ w ∈ rest.head?, w.kind = .eof ∨ endsPrelude w.kind = true) :
    ∃ t ts zs b, st.rest = t :: ts ∧ entryOf place (t :: ts) = .atRule name ∧ t.kind = .atKeyword name
      ∧ ReadsItems inp tokens endsPrelude st.advance t.stop zs b ∧ zs.map Item.unplaced = items
      ∧ Spends inp st (w :: wordsOf items) (Grammar.components inp endsPrelude st.advance).2
      ∧ (preludeOf inp name (zs.map value)).1.map Parsed.unplaced = Item.prelude name items := by
  obtain ⟨t, ts, e, rfl, -⟩ := rest_of_words words
  have kind : t.kind = .atKeyword name := named
  have starts : entryOf place (t :: ts) = .atRule name := by
    cases place <;> simp [entryOf, kind]
  have step := spends_advance words
  have level := (sameLevel_advance st).depth
  obtain ⟨zs, b, read, rfl⟩ := phrase.reads_items spelt (h.advance e).ready (step.errors.trans silent)
    (step.rest words) (by rwa [level]) ends
  refine ⟨t, ts, zs, b, e, starts, kind, read, rfl, ?_, (preludeOf_unplaced name read.placed).1⟩
  rw [wordsOf_unplaced]
  exact step.trans read.spends

theorem IsStatement.read {stop : List Written} (s : IsStatement source room name w items stop b)
    (open_ : stop = [.semicolon] ∨ stop = []) :
    ReadsEntryAs inp tokens place room (w :: wordsOf items ++ stop) b
      fun k => stop = [] → k = .eof ∨ k = .curlyClose := by
  intro st a fuel behind h silent words deep enough ends
  rw [List.append_assoc] at words
  obtain ⟨t, ts, zs, _, e, starts, kind, read, rfl, spends, outline⟩ :=
    atRuleHead_read spelt place h silent words s.named s.phrase deep (fun w mem => by
      rcases open_ with rfl | rfl
      · obtain rfl : Written.semicolon = w := by simpa using mem
        exact .inr rfl
      · rcases ends w mem rfl with eof | close
        · exact .inl eof
        · exact .inr (by simp [endsPrelude, close]))
  have eq := atRuleHead_eq read
  -- no block follows, whichever way the at-rule ends
  have statement {last : Nat} {st' : State} (spends : Spends inp st (w :: wordsOf zs ++ stop) st')
      (eq : Grammar.atRuleHead inp t.stop st.advance = (⟨zs.map value, last, false⟩, st')) :
      ∃ t ts p st', st.rest = t :: ts ∧ EntryRead inp place fuel st t ts p st' ∧ p.unplaced = b.unplaced
        ∧ Spends inp st (w :: wordsOf zs ++ stop) st' := by
    refine ⟨t, ts, _, _, e, .atRule name starts kind rfl rfl, ?_⟩
    simp only [eq, Grammar.atRuleBody, Bool.false_eq_true, if_false, List.append_nil]
    exact ⟨by rw [unplaced_node, outline, s.outline], spends.discard _⟩
  rw [wordsOf_unplaced] at *
  have left := spends.rest words
  rcases open_ with rfl | rfl
  · have next := nextKind_of_words left
    simp only [next] at eq
    exact statement (spends.trans (spends_advance left)) eq
  · rw [← List.append_nil (w :: wordsOf zs)] at spends
    rcases nextKind_of_ends (fun k => k = .eof ∨ k = .curlyClose) left (fun w mem => ends w mem rfl) (.inl rfl) with k | k
    · simp only [k] at eq
      exact statement spends eq
    · simp only [k] at eq
      exact statement spends eq

/-! ## Blocks -/

omit spelt in
theorem ReadsEntriesAs.block {contents : Contents}
    (inside : ReadsEntriesAs inp tokens (.ofContents contents) room inner cs) (fuel : Nat)
    (construct : Diagnostic.Construct) (h : Ready inp.source tokens st a) (silent : st.errors = [])
    (words : st.words inp = .brace :: (inner ++ [.unbrace]) ++ behind) (deep : room + 1 ≤ maxDepth - st.depth)
    (enough : 2 * st.rest.length ≤ fuel) :
    (Grammar.block inp contents construct fuel st).1.unplaced = bare (.block contents) (cs.map Branch.unplaced)
      ∧ Spends inp st (.brace :: (inner ++ [.unbrace])) (Grammar.block inp contents construct fuel st).2 := by
  have words : st.words inp = .brace :: (inner ++ (.unbrace :: behind)) := by simpa using words
  obtain ⟨t, ts, e, opener, -⟩ := rest_of_words words
  rw [e, List.length_cons] at enough
  obtain ⟨fuel, rfl⟩ : ∃ n, fuel = n + 1 := ⟨fuel - 1, by omega⟩
  have step := spends_advance words
  have depth := (sameLevel_advance st).depth
  have entered := (h.advance e).enter ⟨construct, t.span⟩
  obtain ⟨read, spends⟩ := inside (st.advance.enter ⟨construct, t.span⟩) t.stop fuel (.unbrace :: behind) entered.ready
    (step.errors.trans silent) (step.rest words) (by simp only [State.enter]; omega)
    (by simp only [State.enter, State.advance_of_rest e]; omega)
    (fun w mem => by
      obtain rfl : Written.unbrace = w := by simpa using mem
      exact .inr ⟨by cases contents <;> simp [Place.ofContents], rfl⟩)
  have last := spends.rest (step.rest words)
  have closed : closeBlock inp (entries inp (.ofContents contents) fuel (st.advance.enter ⟨construct, t.span⟩)).2
      = (entries inp (.ofContents contents) fuel (st.advance.enter ⟨construct, t.span⟩)).2.advance.leave := by
    have next : _ = Token.Kind.curlyClose := nextKind_of_words last
    unfold closeBlock
    simp only [next]
  rw [Grammar.block.eq_def]
  simp only [e]
  rw [if_neg (by omega)]
  simp only [closed]
  exact ⟨by rw [unplaced_node, read], (step.trans (spends.of_enter.trans (spends_advance last))).leave⟩

theorem IsAtRule.read {n m : Node} {prelude : List Branch}
    (head : IsAtRule source (room + 1) name w items n prelude)
    (block : IsBlock source (atRuleContents name) inner m cs)
    (inside : ReadsEntriesAs inp tokens (.ofContents (atRuleContents name)) room inner cs) :
    ReadsEntryAs inp tokens place (room + 1) (w :: wordsOf items ++ .brace :: (inner ++ [.unbrace]))
      (.mk n (prelude ++ [.mk m cs])) fun _ => True := by
  intro st a fuel behind h silent words deep enough _
  have words : st.words inp = w :: wordsOf items ++ (.brace :: (inner ++ [.unbrace]) ++ behind) := by simpa using words
  obtain ⟨t, ts, zs, b, e, starts, kind, read, rfl, spends, outline⟩ :=
    atRuleHead_read spelt place h silent words head.named head.phrase deep (fun w mem => by
      obtain rfl : Written.brace = w := by simpa using mem
      exact .inr rfl)
  have eq := atRuleHead_eq read
  have left := spends.rest words
  have next : _ = Token.Kind.curlyOpen := nextKind_of_words left
  simp only [next] at eq
  have level := (sameLevel_advance st).trans (components_level inp endsPrelude st.advance)
  obtain ⟨_, reads⟩ := read.reads
  obtain ⟨same, spent⟩ := inside.block fuel .atRuleBlock reads.ready (spends.errors.trans silent) left
    (by rwa [level.depth]) (by have := spends.length_le; omega)
  refine ⟨t, ts, _, _, e, .atRule name starts kind rfl rfl, ?_⟩
  simp only [eq, Grammar.atRuleBody, if_true]
  refine ⟨?_, (spends.trans spent).discard _⟩
  rw [unplaced_node, Branch.unplaced_mk, head.kind, List.map_append, List.map_append, List.map_singleton,
    List.map_singleton, outline, same, head.outline, Branch.unplaced_mk, block.kind]

/-! ## Style rules -/

theorem IsRule.read {n m : Node} {l : Branch} (head : IsRule source place (room + 1) items n l)
    (block : IsBlock source .declarations inner m cs)
    (inside : ReadsEntriesAs inp tokens .declarations room inner cs) :
    ReadsEntryAs inp tokens place (room + 1) (wordsOf items ++ .brace :: (inner ++ [.unbrace])) (.mk n [l, .mk m cs])
      fun _ => True := by
  intro st a fuel behind h silent words deep enough _
  have words : st.words inp = wordsOf items ++ (.brace :: (inner ++ [.unbrace]) ++ behind) := by simpa using words
  obtain ⟨t, ts, e⟩ : ∃ t ts, st.rest = t :: ts := by
    refine List.exists_cons_of_ne_nil fun none => ?_
    rw [State.words, none] at words
    simp at words
  have starts : entryOf place (t :: ts) = .styleRule := by
    rw [← entryAt_word place inp.source, ← e]
    change entryAt place (st.words inp) = _
    rw [words, List.cons_append, entryAt_brace]
    exact head.starts
  have tiles := h.tiles
  rw [e] at tiles
  have first : (st.nextSpan inp).start.offset = a := by
    rw [← tiles.start_eq]
    simp [State.nextSpan, e, Token.start]
  obtain ⟨zs, b, read, same⟩ := head.phrase.reads_items spelt h silent words deep (fun w mem => by
    obtain rfl : Written.brace = w := by simpa using mem
    exact .inr rfl)
  have spends := read.spends
  rw [← wordsOf_unplaced, same] at spends
  have left := spends.rest words
  have next : _ = Token.Kind.curlyOpen := nextKind_of_words left
  have select : AllSelect zs := (allSelect_map_unplaced zs).1 (same ▸ head.selectors.select)
  have selected := selectorListOf_unplaced read.placed select (Grammar.components inp (endsSelectors place) st).2
  have quiet := selectorListOf_snd inp ((allSelect_iff zs).1 select) a
    (Grammar.components inp (endsSelectors place) st).2
  have eq : Grammar.ruleHead inp place st
      = (.block (selectorListOf inp a (zs.map value) (Grammar.components inp (endsSelectors place) st).2).1 a,
        (Grammar.components inp (endsSelectors place) st).2.discard (separators (zs.map value))) := by
    unfold Grammar.ruleHead
    simp only [next, first, read.values, quiet]
  have spent := spends.discard (separators (zs.map value))
  have read := h.ruleHead e starts
  rw [eq] at read
  obtain ⟨-, _, _, reads, -⟩ := read
  have level := (components_level inp (endsSelectors place) st).depth
  have shorter := spent.length_le
  have inside : ReadsEntriesAs inp tokens (.ofContents .declarations) room inner cs := inside
  obtain ⟨outline, last⟩ := inside.block fuel .ruleBlock reads.ready
    (spent.errors.trans silent) (spent.rest words) (by rwa [sameLevel_discard _ _ |>.depth, level])
    (by simp only; omega)
  refine ⟨t, ts, _, _, e, .rule starts eq rfl, ?_, spent.trans last⟩
  rw [unplaced_node, Branch.unplaced_mk, head.kind, List.map_cons, List.map_singleton, List.map_cons,
    List.map_singleton, outline, selected.outline, same, head.selectors.outline, Branch.unplaced_mk, block.kind]

/-! ## Lists -/

/-- **The words of entries are read as these entries**, wherever a list may end behind them. -/
theorem Entries.read (h : Entries source place room ws bs) : ReadsEntriesAs inp tokens place room ws bs := by
  induction h with
  | nil place room => exact readsEntriesAs_nil inp tokens place room
  | separator skips _ ih => exact ih.separator skips
  | comment kind outline _ _ ih =>
    exact .cons (readsEntryAs_comment kind outline) ih (by simp) (by simp) (by simp)
  | @declaration room property name trivia blanks ws items b bs d blank ends rest ih =>
    rw [← List.append_assoc]
    refine .cons (d.read spelt blank) ih (by simp) ?_ ?_
    · intro w mem
      exact .inr (by simp [endsDeclaration, ends w mem])
    · rintro - k (eof | ⟨-, close⟩)
      · exact .inl eof
      · exact .inr (by simp [endsDeclaration, close])
  | statement s ends _ ih =>
    refine .cons (s.read spelt (ends.imp_right And.left)) ih (by simp) ?_ ?_
    · rcases ends with rfl | ⟨rfl, rfl⟩
      · simp
      · simp
    · rintro - k (eof | ⟨-, close⟩) -
      · exact .inl eof
      · exact .inr close
  | atRule head _ block _ _ ihInside ih =>
    exact .cons (head.read spelt block ihInside) ih (by simp) (by simp) (by simp)
  | rule head _ block _ _ ihInside ih =>
    exact .cons (head.read spelt block ihInside) ih (by simp) (by simp) (by simp)

end

end AboveFold.Grammar
