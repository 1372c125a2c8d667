import AboveFold.Proofs.Grammar.Heads
import AboveFold.Proofs.Grammar.Lookahead
import AboveFold.Proofs.Token.Joining

/-!
# The grammar of lists

Which words are the entries of a list is said here apart from the functions that read them, with one clause for each kind
of entry (`Entries`). A derivation says what each entry is (`Branch.unplaced`) and which words each part of it is written
in (`Branch.Writes`), and nothing of places. So it can be had from one text and read from another.
-/

namespace AboveFold.Token.Written

/-- A word as a token, with no place. -/
def token (w : Written) : Token := ⟨w.kind, ⟨.start, .start, none⟩⟩

end AboveFold.Token.Written

namespace AboveFold.Branch
open Token

/-- A branch is written as these words. -/
def Writes (source : String) (b : Branch) (ws : List Written) : Prop :=
  b.render (some source) = String.ofList (textOf ws)

end AboveFold.Branch

namespace AboveFold.Grammar
open Source Node Parsed Token Item

/-- Whether the prelude of an at-rule ends before this token. -/
def endsPrelude (k : Token.Kind) : Bool := k = .semicolon || k = .curlyOpen || k = .curlyClose

/-- What some words start in a list at `place`. -/
def entryAt (place : Place) (ws : List Written) : Entry := entryOf place (ws.map Written.token)

/-- The items are the selectors of the list `l`. -/
structure IsSelectors (source : String) (items : List Item) (l : Branch) : Prop where
  outline : l.unplaced = Item.selectorList items
  select : AllSelect items
  shown : l.Writes source (wordsOf (trim items))
  each : List.Forall₂ (fun g (b : Branch) => b.Writes source (wordsOf (trim g))) (groups items) l.children

/-- A declaration: its property, a colon behind blanks and comments, and its value. -/
structure IsDeclaration (source : String) (room : Nat) (property : String) (name : Written) (trivia : List Written)
    (items : List Item) (b : Branch) : Prop where
  named : name.kind = .ident property
  trivial : ∀ w ∈ trivia, w.kind.isTrivia = true
  phrase : Phrase endsDeclaration room items
  closed : ∀ i ∈ items.getLast?, i.isWhite = false
  declares : Declares property items
  simple : startsNestedRule property ((trivia ++ .colon :: wordsOf items).map Written.token) = false
  outline : b.unplaced = Item.declaration property items
  shown : b.Writes source (name :: trivia ++ .colon :: wordsOf items)

/-- An at-rule without a block: its name, its prelude, and perhaps a semicolon. -/
structure IsStatement (source : String) (room : Nat) (name : String) (keyword : Written) (items : List Item)
    (stop : List Written) (b : Branch) : Prop where
  named : keyword.kind = .atKeyword name
  phrase : Phrase endsPrelude room items
  outline : b.unplaced = bare (.atRule name) (Item.prelude name items)
  shown : b.Writes source (keyword :: wordsOf items ++ stop)

/-- A block around the words `inner`. -/
structure IsBlock (source : String) (contents : Contents) (inner : List Written) (n : Node) (cs : List Branch) : Prop where
  kind : n.kind = .block contents
  shown : (Branch.mk n cs).Writes source (.brace :: (inner ++ [.unbrace]))

/-- An at-rule up to its block: its name and its prelude. -/
structure IsAtRule (source : String) (room : Nat) (name : String) (keyword : Written) (items : List Item) (n : Node)
    (prelude : List Branch) : Prop where
  kind : n.kind = .atRule name
  named : keyword.kind = .atKeyword name
  phrase : Phrase endsPrelude room items
  outline : prelude.map Branch.unplaced = Item.prelude name items
  shown : ∀ b ∈ prelude, b.Writes source (wordsOf (trim items))

/-- A style rule up to its block: its selectors. -/
structure IsRule (source : String) (place : Place) (room : Nat) (items : List Item) (n : Node) (l : Branch) : Prop where
  kind : n.kind = .rule
  starts : entryAt place (wordsOf items ++ [.brace]) = .styleRule
  phrase : Phrase (endsSelectors place) room items
  selectors : IsSelectors source items l

/-- The words `ws` are the entries `bs` of a list at `place`, in which brackets nest at most `room` deep. Each part of an
entry is written as its words. -/
inductive Entries (source : String) : Place → Nat → List Written → List Branch → Prop where
  | nil (place : Place) (room : Nat) : Entries source place room [] []
  | separator {place : Place} {room : Nat} {w : Written} {ws : List Written} {bs : List Branch}
      (skips : entryAt place [w] = .separator) (rest : Entries source place room ws bs) :
      Entries source place room (w :: ws) bs
  | comment {place : Place} {room : Nat} {text : String} {w : Written} {ws : List Written} {b : Branch} {bs : List Branch}
      (kind : w.kind = .comment text) (outline : b.unplaced = bare (.comment text) []) (shown : b.Writes source [w])
      (rest : Entries source place room ws bs) : Entries source place room (w :: ws) (b :: bs)
  | declaration {room : Nat} {property : String} {name : Written} {trivia blanks ws : List Written} {items : List Item}
      {b : Branch} {bs : List Branch} (d : IsDeclaration source room property name trivia items b)
      (blank : ∀ w ∈ blanks, w.kind = .whitespace) (ends : ∀ w ∈ ws.head?, w.kind = .semicolon)
      (rest : Entries source .declarations room ws bs) :
      Entries source .declarations room (name :: trivia ++ .colon :: wordsOf items ++ (blanks ++ ws)) (b :: bs)
  | statement {place : Place} {room : Nat} {name : String} {keyword : Written} {stop ws : List Written}
      {items : List Item} {b : Branch} {bs : List Branch} (s : IsStatement source room name keyword items stop b)
      (ends : stop = [.semicolon] ∨ stop = [] ∧ ws = []) (rest : Entries source place room ws bs) :
      Entries source place room (keyword :: wordsOf items ++ stop ++ ws) (b :: bs)
  | atRule {place : Place} {room : Nat} {name : String} {keyword : Written} {inner ws : List Written} {items : List Item}
      {n m : Node} {prelude cs bs : List Branch} (head : IsAtRule source (room + 1) name keyword items n prelude)
      (inside : Entries source (.ofContents (atRuleContents name)) room inner cs)
      (block : IsBlock source (atRuleContents name) inner m cs)
      (shown : (Branch.mk n (prelude ++ [.mk m cs])).Writes source
        (keyword :: wordsOf items ++ .brace :: (inner ++ [.unbrace])))
      (rest : Entries source place (room + 1) ws bs) :
      Entries source place (room + 1) (keyword :: wordsOf items ++ .brace :: (inner ++ [.unbrace]) ++ ws)
        (.mk n (prelude ++ [.mk m cs]) :: bs)
  | rule {place : Place} {room : Nat} {inner ws : List Written} {items : List Item} {n m : Node} {l : Branch}
      {cs bs : List Branch} (head : IsRule source place (room + 1) items n l)
      (inside : Entries source .declarations room inner cs) (block : IsBlock source .declarations inner m cs)
      (shown : (Branch.mk n [l, .mk m cs]).Writes source (wordsOf items ++ .brace :: (inner ++ [.unbrace])))
      (rest : Entries source place (room + 1) ws bs) :
      Entries source place (room + 1) (wordsOf items ++ .brace :: (inner ++ [.unbrace]) ++ ws)
        (.mk n [l, .mk m cs] :: bs)

variable {inp : Input} {tokens : List Token} {st st' st'' : State} {t : Token} {ts us : List Token} {room fuel a : Nat}
  {w : Written} {ws vs behind : List Written} {p : Parsed} {ps : List Parsed} {items : List Item} {b : Branch}
  {bs : List Branch} {place : Place} {source : String} {name property : String}

/-! ## What words start -/

theorem blockFollows_congr (same : ts.map Token.kind = us.map Token.kind) : blockFollows ts = blockFollows us := by
  induction ts generalizing us with
  | nil => rw [List.map_eq_nil_iff.1 same.symm]
  | cons t ts ih =>
    obtain ⟨u, us, rfl, kind, rest⟩ := List.map_eq_cons_iff.1 same.symm
    rw [blockFollows_cons, blockFollows_cons, kind, ih rest.symm]

theorem entryOf_congr (place : Place) (same : ts.map Token.kind = us.map Token.kind) :
    entryOf place ts = entryOf place us := by
  cases ts with
  | nil => rw [List.map_eq_nil_iff.1 same.symm]
  | cons t ts =>
    obtain ⟨u, us, rfl, kind, rest⟩ := List.map_eq_cons_iff.1 same.symm
    have nested (name : String) : startsNestedRule name ts = startsNestedRule name us := by
      rw [startsNestedRule, startsNestedRule, blockFollows_congr rest.symm]
    unfold entryOf
    simp only [kind, nested]

theorem blockFollows_append_of (us : List Token) (follows : blockFollows ts = true) : blockFollows (ts ++ us) = true := by
  induction ts with
  | nil => cases follows
  | cons t ts ih =>
    rw [List.cons_append, blockFollows_cons]
    rw [blockFollows_cons] at follows
    cases ends : endsLookahead t.kind with
    | true =>
      rw [ends, if_pos rfl] at follows
      rwa [if_pos rfl]
    | false =>
      rw [ends] at follows
      exact ih follows

/-- No nested rule starts where words go on as one that does not. -/
theorem startsNestedRule_of_prefix (simple : startsNestedRule name ts = false)
    (words : ts.map (word source) = ws ++ vs) : startsNestedRule name (ws.map Written.token) = false := by
  have kinds : ts.map Token.kind = ((ws ++ vs).map Written.token).map Token.kind := by
    rw [← words, List.map_map, List.map_map]
    rfl
  rw [startsNestedRule, blockFollows_congr kinds, List.map_append] at simple
  rw [startsNestedRule]
  cases follows : blockFollows (ws.map Written.token) with
  | true => rwa [blockFollows_append_of _ follows] at simple
  | false => exact Bool.and_false _

theorem kind_token (w : Written) : w.token.kind = w.kind := rfl

theorem map_kind_token (ws : List Written) : (ws.map Written.token).map Token.kind = ws.map Written.kind := by
  rw [List.map_map]
  rfl

theorem map_kind_word (source : String) (ts : List Token) :
    ((ts.map (word source)).map Written.token).map Token.kind = ts.map Token.kind := by
  rw [map_kind_token, List.map_map]
  rfl

theorem blockFollows_brace (xs ys : List Token) {t : Token} (kind : t.kind = .curlyOpen) :
    blockFollows (xs ++ t :: ys) = blockFollows (xs ++ [t]) := by
  induction xs with
  | nil => rw [List.nil_append, List.nil_append, blockFollows_cons, blockFollows_cons, kind]; rfl
  | cons x xs ih => rw [List.cons_append, List.cons_append, blockFollows_cons, blockFollows_cons, ih]

/-- What stands behind a brace that opens does not matter for what starts in front of it. -/
theorem entryAt_brace (place : Place) (ws vs : List Written) :
    entryAt place (ws ++ .brace :: vs) = entryAt place (ws ++ [.brace]) := by
  cases ws with
  | nil => cases place <;> rfl
  | cons w ws =>
    have follows := blockFollows_brace (ws.map Written.token) (vs.map Written.token) (t := Written.token .brace) rfl
    have nested (name : String) : startsNestedRule name ((ws ++ .brace :: vs).map Written.token)
        = startsNestedRule name ((ws ++ [Written.brace]).map Written.token) := by
      rw [startsNestedRule, startsNestedRule, List.map_append, List.map_append, List.map_cons, List.map_singleton, follows]
    rw [entryAt, entryAt, List.cons_append, List.cons_append, List.map_cons, List.map_cons]
    unfold entryOf
    simp only [nested]

theorem entryAt_word (place : Place) (source : String) (ts : List Token) :
    entryAt place (ts.map (word source)) = entryOf place ts :=
  entryOf_congr place (map_kind_word source ts)

/-- A list neither starts with a brace that would end it nor with the end of input. -/
theorem Entries.head (h : Entries source place room ws bs) : ∀ w ∈ ws.head?, w.kind ≠ .eof ∧ w.kind ≠ .curlyClose := by
  have of_kind {k : Token.Kind} {w : Written} (kind : w.kind = k) (apart : k ≠ .eof ∧ k ≠ .curlyClose) :
      w.kind ≠ .eof ∧ w.kind ≠ .curlyClose := by rwa [kind]
  cases h with
  | nil => simp
  | separator skips =>
    simp only [List.head?_cons, Option.mem_def, Option.some.injEq, forall_eq']
    constructor
    · intro eof
      simp [entryAt, entryOf, kind_token, eof] at skips
    · intro close
      cases place <;> simp [entryAt, entryOf, kind_token, close] at skips
  | comment kind => simpa using of_kind kind (by simp)
  | declaration d => simpa using of_kind d.named (by simp)
  | statement s => simpa using of_kind s.named (by simp)
  | atRule head => simpa using of_kind head.named (by simp)
  | @rule place room inner ws items n m l cs bs head inside block =>
    have starts := head.starts
    intro w mem
    obtain ⟨us, e⟩ : ∃ us, wordsOf items ++ [.brace] = w :: us := by
      cases e : wordsOf items with
      | nil => exact ⟨[], by simpa [e] using mem⟩
      | cons v vs => exact ⟨vs ++ [.brace], by simpa [e] using mem⟩
    rw [e] at starts
    constructor
    · intro eof
      simp [entryAt, entryOf, kind_token, eof] at starts
    · intro close
      cases place <;> simp [entryAt, entryOf, kind_token, close] at starts

/-! ## Steps of reading -/

theorem State.rest_advance (e : st.rest = t :: ts) : st.advance.rest = ts := by
  rw [State.advance_of_rest e]

/-- Items were read from `st` at byte `a` up to byte `b`. -/
structure ReadsItems (inp : Input) (tokens : List Token) (stop : Token.Kind → Bool) (st : State) (a : Nat)
    (zs : List Item) (b : Nat) : Prop where
  values : (Grammar.components inp stop st).1 = zs.map value
  reads : ∃ used, Reads inp.source tokens st a used (Grammar.components inp stop st).2 b
  placed : Placed inp.source a b zs
  spends : Spends inp st (wordsOf zs) (Grammar.components inp stop st).2
  ended : (Grammar.components inp stop st).2.nextKind = .eof ∨ stop (Grammar.components inp stop st).2.nextKind = true

theorem Ready.placed {zs : List Item} {stop : Token.Kind → Bool} (h : Ready inp.source tokens st a)
    (values : (Grammar.components inp stop st).1 = zs.map value) (texts : ∀ z ∈ zs, z.In inp.source)
    (spends : Spends inp st (wordsOf zs) (Grammar.components inp stop st).2) :
    ∃ b, ReadsItems inp tokens stop st a zs b := by
  obtain ⟨used, b, reads, adjoin, -, -, ended⟩ := h.components stop
  rw [values, List.map_map] at adjoin
  exact ⟨b, values, ⟨used, reads⟩, ⟨h.boundary, adjoin, texts⟩, spends, ended⟩

/-- What is read without a report are items. -/
theorem Ready.reads_items (spelt : ∀ t ∈ tokens, (word inp.source t).Spelt) (h : Ready inp.source tokens st a)
    (stop : Token.Kind → Bool) (silent : (Grammar.components inp stop st).2.errors = []) :
    ∃ zs b, ReadsItems inp tokens stop st a zs b ∧ Phrase stop (maxDepth - st.depth) (zs.map Item.unplaced) := by
  obtain ⟨zs, values, phrase, spends, texts⟩ := h.phrase spelt stop silent
  obtain ⟨b, read⟩ := h.placed values texts spends
  exact ⟨zs, b, read, phrase⟩

/-- Items are read where their words stand, up to a word that ends them. -/
theorem Phrase.reads_items {stop : Token.Kind → Bool} (spelt : ∀ t ∈ tokens, (word inp.source t).Spelt)
    (phrase : Phrase stop room items) (h : Ready inp.source tokens st a) (silent : st.errors = [])
    (words : st.words inp = wordsOf items ++ behind) (deep : room ≤ maxDepth - st.depth)
    (ends : ∀ w ∈ behind.head?, w.kind = .eof ∨ stop w.kind = true) :
    ∃ zs b, ReadsItems inp tokens stop st a zs b ∧ zs.map Item.unplaced = items := by
  obtain ⟨zs, values, unplaced, spends, texts⟩ := phrase.read spelt h silent words deep ends
  have same : wordsOf items = wordsOf zs := by rw [← unplaced, wordsOf_unplaced]
  obtain ⟨b, read⟩ := h.placed values texts (same ▸ spends)
  exact ⟨zs, b, read, unplaced⟩

/-- Tokens that were taken have the text from the first to the last. -/
theorem Ready.text (h : Ready inp.source tokens st a) (e : st.rest = us ++ ts) (last : us.getLast? = some t) :
    ByteSpan.slice ⟨a, t.stop⟩ inp.source = some (String.ofList (textOf (us.map (word inp.source)))) := by
  have tiles := h.tiles
  rw [e] at tiles
  exact tiles.slice h.boundary last

theorem Ready.text_head (h : Ready inp.source tokens st a) (e : st.rest = t :: ts) :
    ByteSpan.slice ⟨a, t.stop⟩ inp.source = some (String.ofList (textOf [word inp.source t])) := by
  have rest : st.rest = [t] ++ ts := e
  exact h.text rest rfl

theorem spends_skipTrivia (inp : Input) (st : State) : ∃ trivia, Spends inp st (trivia.map (word inp.source)) st.skipTrivia
    ∧ st.rest = trivia ++ st.skipTrivia.rest ∧ ∀ t ∈ trivia, t.kind.isTrivia = true := by
  obtain ⟨trivia, e, all⟩ := exists_trivia st.lastEnd st.rest
  refine ⟨trivia, ⟨?_, rfl⟩, e, all⟩
  rw [State.words, e, List.map_append]
  rfl

/-- A token that is always the same sign is the word of that. -/
theorem word_of_sign (spelt : ∀ t ∈ tokens, (word source t).Spelt) (suffix : ts <:+ tokens) (mem : t ∈ ts)
    {k : Token.Kind} {c : Char} (kind : t.kind = k) (sign : k.sign? = some c) : word source t = ⟨k, [c]⟩ := by
  subst kind
  have text := (spelt t (suffix.subset mem)).sign c sign
  rw [← text]
  rfl

theorem writes_branch (text : p.span.slice source = some (String.ofList (textOf ws))) : p.branch.Writes source ws :=
  render_branch text

theorem Ready.eq_of_rest {a b : Nat} (h : Ready inp.source tokens st a) (h' : Ready inp.source tokens st' b)
    (e : st.rest = t :: ts) (e' : st'.rest = t :: ts) : a = b := by
  have tiles := h.tiles
  have tiles' := h'.tiles
  rw [e] at tiles
  rw [e'] at tiles'
  exact tiles.start_eq.symm.trans tiles'.start_eq

theorem words_trim_unplaced (zs : List Item) : wordsOf (trim (zs.map Item.unplaced)) = wordsOf (trim zs) := by
  rw [trim_map_unplaced, wordsOf_unplaced]

/-- A selector list that was read, as a branch. -/
theorem ReadsSelectors.branch {zs : List Item} (h : ReadsSelectors source zs p) (select : AllSelect zs) :
    IsSelectors source (zs.map Item.unplaced) p.branch where
  outline := by rw [unplaced_branch, h.outline]
  select := (allSelect_map_unplaced zs).2 select
  shown := by
    rw [words_trim_unplaced]
    exact writes_branch h.text
  each := by
    obtain ⟨k, span, ps⟩ := p
    rw [branch_node, groups_map_unplaced]
    refine List.forall₂_map_left_iff.2 (List.forall₂_map_right_iff.2 (h.texts.imp fun g q text => ?_))
    rw [words_trim_unplaced]
    exact writes_branch text

/-- The prelude of an at-rule that was read, as branches. -/
theorem prelude_branches {zs : List Item} {lo hi : Nat} (name : String) (placed : Placed inp.source lo hi zs) :
    let bs := (preludeOf inp name (zs.map value)).1.map Parsed.branch
    bs.map Branch.unplaced = Item.prelude name (zs.map Item.unplaced)
      ∧ ∀ b ∈ bs, b.Writes inp.source (wordsOf (trim (zs.map Item.unplaced))) := by
  obtain ⟨outline, texts⟩ := preludeOf_unplaced name placed
  rw [words_trim_unplaced]
  refine ⟨?_, List.forall_mem_map.2 fun p mem => writes_branch (texts p mem)⟩
  rw [unplaced_branchAll, outline]

/-- A declaration up to its colon. -/
theorem Ready.colon (spelt : ∀ t ∈ tokens, (word inp.source t).Spelt) (h : Ready inp.source tokens st a)
    (e : st.rest = t :: ts) {place : Span} (colon : st.advance.skipTrivia.rest = ⟨.colon, place⟩ :: us) :
    ∃ trivia, (∀ w ∈ trivia, w.kind.isTrivia = true)
      ∧ ts.map (word inp.source) = trivia ++ .colon :: us.map (word inp.source)
      ∧ Spends inp st (word inp.source t :: trivia ++ [.colon]) st.advance.skipTrivia.advance
      ∧ Ready inp.source tokens st.advance.skipTrivia.advance place.stop.offset
      ∧ st.advance.skipTrivia.advance.depth = st.depth
      ∧ ByteSpan.slice ⟨t.start, place.stop.offset⟩ inp.source
        = some (String.ofList (textOf (word inp.source t :: trivia ++ [.colon]))) := by
  have tiles := h.tiles
  rw [e] at tiles
  have step := h.advance e
  obtain ⟨trivia, skipped, rest, blank⟩ := spends_skipTrivia inp st.advance
  obtain ⟨used, mid, skip, -⟩ := step.ready.skipTrivia
  have sign : word inp.source ⟨.colon, place⟩ = .colon :=
    word_of_sign spelt skip.ready.suffix (colon ▸ List.mem_cons_self) rfl rfl
  rw [State.rest_advance e, colon] at rest
  have depth := (((sameLevel_advance st).trans (sameLevel_skipTrivia _)).trans (sameLevel_advance _)).depth
  have spent := ((spends_advance (State.words_of_rest inp e)).trans skipped).trans
    (spends_advance (State.words_of_rest inp colon))
  have taken : st.rest = t :: (trivia ++ [⟨.colon, place⟩]) ++ us := by
    rw [e, rest]
    simp
  have text := h.text taken (by rw [← List.cons_append, List.getLast?_concat])
  rw [sign] at spent
  rw [tiles.start_eq]
  refine ⟨trivia.map (word inp.source), List.forall_mem_map.2 blank, ?_, by simpa using spent,
    (skip.ready.advance colon).ready, depth, ?_⟩
  · rw [rest, List.map_append, List.map_cons, sign]
  · rw [List.map_cons, List.map_append, List.map_singleton, sign] at text
    exact text

theorem endsPrelude_iff {k : Token.Kind} :
    endsPrelude k = true ↔ k = .semicolon ∨ k = .curlyOpen ∨ k = .curlyClose := by
  simp [endsPrelude, or_assoc]

/-- What an at-rule is up to its block, if it has one. -/
theorem atRuleHead_eq {zs : List Item} {b : Nat} (read : ReadsItems inp tokens endsPrelude st a zs b) :
    let st' := (Grammar.components inp endsPrelude st).2
    atRuleHead inp a st = match st'.nextKind with
      | .semicolon => (⟨zs.map value, st'.advance.lastOffset, false⟩, st'.advance)
      | .curlyOpen => (⟨zs.map value, b, true⟩, st')
      | _ => (⟨zs.map value, b, false⟩, st') := by
  have stop : (zs.map value).foldl (fun stop p => max stop p.span.stop) a = b := by
    have far := read.placed.adjoin.foldl_max
    rw [List.foldl_map] at far ⊢
    exact far
  intro st'
  have values : Grammar.components inp endsPrelude st = (zs.map value, st') := Prod.ext read.values rfl
  have ends : (fun k : Token.Kind => (decide (k = .semicolon) || decide (k = .curlyOpen)) || decide (k = .curlyClose))
      = endsPrelude := rfl
  unfold atRuleHead
  cases next : st'.nextKind <;> simp only [ends, values, stop, next]

end AboveFold.Grammar
