import AboveFold.Proofs.Grammar.Undamaged
import AboveFold.Proofs.Grammar.Unplaced

/-!
# The grammar of component values

Which words are a component value, and which one, is said here apart from the functions that read it (`Value`). Reading
agrees with this both ways: words that are component values are read as these, without a report (`Phrase.read`), and what
is read without a report has the words of component values (`Ready.phrase`).
-/

namespace AboveFold.Token

/-- The node of a word that is a component value by itself. -/
def Written.leaf (w : Written) : Node.Kind :=
  match w.kind with
  | .whitespace => .whitespace
  | .comment text => .comment text
  | .ident name => .ident name
  | .quotedString text => Grammar.stringLiteral text
  | .url url => .url url none
  | .comma => .comma
  | _ => .other (String.ofList w.text)

/-- A word is neither the end of input nor a fault. -/
def Written.Proper (w : Written) : Prop := w.kind ≠ .eof ∧ ∀ f, w.kind ≠ .fault f

/-- A kind of token is neither the end of input nor a fault. -/
def Kind.isProper : Kind → Bool
  | .eof | .fault _ => false
  | _ => true

theorem Written.Proper.of_kind {w : Written} {k : Kind} (kind : w.kind = k) (proper : k.isProper = true) :
    w.Proper := by
  constructor
  · intro eof
    rw [← kind, eof] at proper
    cases proper
  · intro f fault
    rw [← kind, fault] at proper
    cases proper

end AboveFold.Token

namespace AboveFold.Grammar
open Source Node Parsed Token

/-- A component value, with the words that it is written in. -/
structure Item where
  words : List Written
  value : Parsed

namespace Item

/-- An item of which the value is without its place. -/
def unplaced (i : Item) : Item := ⟨i.words, i.value.unplaced⟩

/-- The value stands in the source where its words do. -/
def In (source : String) (i : Item) : Prop := i.value.span.slice source = some (String.ofList (textOf i.words))

/-- The words of items, one after the other. -/
def wordsOf (items : List Item) : List Written := items.flatMap Item.words

@[simp] theorem wordsOf_nil : wordsOf [] = [] := rfl

@[simp] theorem wordsOf_cons (i : Item) (items : List Item) : wordsOf (i :: items) = i.words ++ wordsOf items := rfl

@[simp] theorem wordsOf_append (items more : List Item) : wordsOf (items ++ more) = wordsOf items ++ wordsOf more :=
  List.flatMap_append

@[simp] theorem words_unplaced (i : Item) : i.unplaced.words = i.words := rfl

@[simp] theorem value_unplaced (i : Item) : i.unplaced.value = i.value.unplaced := rfl

@[simp] theorem wordsOf_unplaced (items : List Item) : wordsOf (items.map unplaced) = wordsOf items := by
  rw [wordsOf, wordsOf, List.flatMap_map]
  rfl

@[simp] theorem value_map_unplaced (items : List Item) :
    (items.map unplaced).map value = (items.map value).map Parsed.unplaced := by
  rw [List.map_map, List.map_map]
  rfl

end Item

/-- The words `ws` are a component value, in which brackets nest at most `room` deep. -/
inductive Value : (room : Nat) → (ws : List Written) → Parsed → Prop where
  | single (room : Nat) {w : Written} (plain : w.kind.IsPlain) (more : w.kind ≠ .eof) : Value room [w] (bare w.leaf [])
  | group {room : Nat} {opener closer : Written} {g : Group} {items : List Item} (opens : Group.of? opener.kind = some g)
      (inside : ∀ i ∈ items, Value room i.words i.value) (closes : closer.kind.closing? = some g.closeChar) :
      Value (room + 1) (opener :: (Item.wordsOf items ++ [closer])) (groupNode g ⟨0, 0⟩ (items.map Item.value)).1

/-- Component values side by side, of which none starts with a word that ends them. -/
structure Phrase (stop : Token.Kind → Bool) (room : Nat) (items : List Item) : Prop where
  values : ∀ i ∈ items, Value room i.words i.value
  goes : ∀ i ∈ items, ∀ w ∈ i.words.head?, stop w.kind = false

/-- The words of the tokens to come. -/
def State.words (inp : Input) (st : State) : List Written := st.rest.map (word inp.source)

/-- Reading went from `st` to `st'` over the words `ws`, with nothing to report. -/
structure Spends (inp : Input) (st : State) (ws : List Written) (st' : State) : Prop where
  words : st.words inp = ws ++ st'.words inp
  errors : st'.errors = st.errors

variable {inp : Input} {tokens : List Token} {st st' st'' : State} {t : Token} {ts : List Token} {room fuel a : Nat}
  {w : Written} {ws vs behind : List Written} {p : Parsed} {items more : List Item} {stop : Token.Kind → Bool} {g : Group}

/-! ## Words and values -/

theorem leafKind_eq (inp : Input) (t : Token) : leafKind inp t = (word inp.source t).leaf := by
  have text : inp.slice t.span.bytes = String.ofList (word inp.source t).text := by simp [Input.slice, word]
  unfold leafKind Written.leaf
  rw [text]
  rfl

/-- The first word of a component value neither closes a bracket nor ends the input. -/
theorem Value.head (h : Value room ws p) : ∃ w us, ws = w :: us ∧ w.kind ≠ .eof ∧ w.kind.closing? = none := by
  cases h with
  | single room plain more => exact ⟨_, [], rfl, more, plain.2.1⟩
  | @group room opener closer g items opens inside closes =>
    refine ⟨opener, _, rfl, ?_, ?_⟩ <;> cases k : opener.kind <;> rw [k] at opens
      <;> first | rfl | (cases opens; done) | simp

/-- The words of a component value are neither faults nor the end of input. -/
theorem Value.proper (h : Value room ws p) : ∀ w ∈ ws, w.Proper := by
  induction h with
  | single room plain more => simpa using ⟨more, plain.2.2⟩
  | @group room opener closer g items opens inside closes ih =>
    simp only [List.forall_mem_cons, List.forall_mem_append, List.not_mem_nil, Item.wordsOf, List.mem_flatMap]
    refine ⟨⟨?_, ?_⟩, ?_, ⟨?_, ?_⟩, by simp⟩
    · rintro eof
      rw [eof] at opens
      cases opens
    · intro f fault
      rw [fault] at opens
      cases opens
    · rintro w ⟨i, hi, mem⟩
      exact ih i hi w mem
    · rintro eof
      rw [eof] at closes
      cases closes
    · intro f fault
      rw [fault] at closes
      cases closes

/-- A component value that is no whitespace ends in a word that ends by itself. -/
theorem Value.closed (h : Value room ws p) (solid : p.isWhitespace = false) : Closed ws := by
  cases h with
  | @single room w plain more =>
    intro v mem
    obtain rfl : w = v := by simpa using mem
    refine ⟨fun white => ?_, fun name function => ?_⟩
    · simp [isWhitespace, Written.leaf, white, Node.Kind.isWhitespace] at solid
    · have := plain.1
      rw [function] at this
      cases this
  | @group room opener closer g items opens inside closes =>
    intro v mem
    rw [← List.cons_append, List.getLast?_concat] at mem
    obtain rfl : closer = v := by simpa using mem
    refine ⟨fun white => ?_, fun name function => ?_⟩
    · rw [white] at closes
      cases closes
    · rw [function] at closes
      cases closes

/-- Whitespace that is a component value is one word. -/
theorem Value.white (h : Value room ws p) (white : p.isWhitespace = true) : ∃ w, ws = [w] ∧ w.kind = .whitespace := by
  cases h with
  | @single room w plain more =>
    refine ⟨w, rfl, ?_⟩
    unfold Written.leaf stringLiteral at white
    cases k : w.kind <;> simp_all [isWhitespace, Node.Kind.isWhitespace]
    split at white <;> simp at white
  | @group room opener closer g items opens inside closes =>
    exfalso
    unfold groupNode at white
    cases g <;> simp only at white
    case function => split at white <;> cases white
    all_goals cases white

/-- A component value that is no whitespace does not start with blanks. -/
theorem Value.solid (h : Value room ws p) (solid : p.isWhitespace = false) : ∀ w ∈ ws.head?, w.kind ≠ .whitespace := by
  intro w mem white
  cases h with
  | single room plain more =>
    obtain rfl : _ = w := by simpa using mem
    simp [isWhitespace, Written.leaf, white, Node.Kind.isWhitespace] at solid
  | group opens inside closes =>
    obtain rfl : _ = w := by simpa using mem
    rw [white] at opens
    cases opens

theorem Phrase.nil : Phrase stop room [] := ⟨by simp, by simp⟩

theorem Phrase.append (h : Phrase stop room items) (h' : Phrase stop room more) : Phrase stop room (items ++ more) := by
  constructor
  · rw [List.forall_mem_append]
    exact ⟨h.values, h'.values⟩
  · rw [List.forall_mem_append]
    exact ⟨h.goes, h'.goes⟩

theorem Phrase.of_subset (h : Phrase stop room items) (sub : more ⊆ items) : Phrase stop room more :=
  ⟨fun i mem => h.values i (sub mem), fun i mem => h.goes i (sub mem)⟩

theorem Phrase.words_ne_nil (h : Phrase stop room items) (some : items ≠ []) : Item.wordsOf items ≠ [] := by
  obtain ⟨i, items, rfl⟩ := List.exists_cons_of_ne_nil some
  obtain ⟨w, us, words, -⟩ := (h.values i (by simp)).head
  simp [words]

theorem Phrase.proper (h : Phrase stop room items) : ∀ w ∈ Item.wordsOf items, w.Proper := by
  intro w mem
  obtain ⟨i, hi, inside⟩ := List.mem_flatMap.1 mem
  exact (h.values i hi).proper w inside

theorem Phrase.sound (h : Phrase stop room items) : ∀ w ∈ Item.wordsOf items, ∀ f, w.kind ≠ .fault f :=
  fun w mem => (h.proper w mem).2

/-! ## Steps of reading -/

theorem Spends.refl (inp : Input) (st : State) : Spends inp st [] st := ⟨rfl, rfl⟩

theorem Spends.trans (h : Spends inp st ws st') (h' : Spends inp st' vs st'') : Spends inp st (ws ++ vs) st'' :=
  ⟨by rw [h.words, h'.words, List.append_assoc], h'.errors.trans h.errors⟩

theorem Spends.congr (h : Spends inp st ws st') (rest : st''.rest = st'.rest) (errors : st''.errors = st'.errors) :
    Spends inp st ws st'' :=
  ⟨by rw [h.words, State.words, State.words, rest], errors.trans h.errors⟩

theorem Spends.discard (h : Spends inp st ws st') (ps : List Parsed) : Spends inp st ws (st'.discard ps) :=
  ⟨h.words, h.errors⟩

theorem Spends.leave (h : Spends inp st ws st') : Spends inp st ws st'.leave := ⟨h.words, h.errors⟩

theorem Spends.of_enter {o : Diagnostic.Opening} (h : Spends inp (st.enter o) ws st') : Spends inp st ws st' :=
  ⟨h.words, h.errors⟩

/-- What comes behind words that were passed is what stood behind them. -/
theorem Spends.rest (h : Spends inp st ws st') (words : st.words inp = ws ++ behind) : st'.words inp = behind :=
  List.append_cancel_left (h.words.symm.trans words)

theorem State.words_of_rest (inp : Input) (e : st.rest = t :: ts) :
    st.words inp = word inp.source t :: ts.map (word inp.source) := by
  rw [State.words, e, List.map_cons]

theorem rest_of_words (h : st.words inp = w :: ws) :
    ∃ t ts, st.rest = t :: ts ∧ word inp.source t = w ∧ ts.map (word inp.source) = ws := by
  obtain ⟨t, ts, e, first, rest⟩ := List.map_eq_cons_iff.1 h
  exact ⟨t, ts, e, first, rest⟩

theorem nextKind_of_words (h : st.words inp = w :: ws) : st.nextKind = w.kind := by
  obtain ⟨t, ts, e, rfl, -⟩ := rest_of_words h
  exact nextKind_of_rest e

theorem spends_advance (h : st.words inp = w :: ws) : Spends inp st [w] st.advance := by
  obtain ⟨t, ts, e, rfl, rfl⟩ := rest_of_words h
  rw [State.advance_of_rest e]
  exact ⟨State.words_of_rest inp e, rfl⟩

/-! ## Values are read -/

/-- The words of a component value are read as that value. -/
def ReadsAs (inp : Input) (room : Nat) (ws : List Written) (p : Parsed) : Prop :=
  ∀ st fuel behind, st.words inp = ws ++ behind → room ≤ maxDepth - st.depth → 2 * st.rest.length ≤ fuel →
    (component inp fuel st).1.unplaced = p ∧ Spends inp st ws (component inp fuel st).2

/-- A component value has the text of the words that it was read from. -/
theorem Ready.text_of_spends (spelt : ∀ t ∈ tokens, (word inp.source t).Spelt) (h : Ready inp.source tokens st a)
    (more : st.nextKind ≠ .eof) (enough : 2 * st.rest.length ≤ fuel) (silent : st.errors = [])
    (spends : Spends inp st ws (component inp fuel st).2) :
    Item.In inp.source ⟨ws, (component inp fuel st).1⟩ := by
  obtain ⟨used, took, -, us, _, e, said, rfl⟩ :=
    (componentsSay spelt fuel).one st a h more enough (spends.errors.trans silent)
  have words : ws = used.map (word inp.source) := by
    have split : ws ++ (component inp fuel st).2.words inp
        = used.map (word inp.source) ++ (component inp fuel st).2.words inp := by
      rw [← spends.words, State.words, took, List.map_append]
      rfl
    exact List.append_cancel_right split
  rw [List.append_nil] at e
  rw [Item.In, words, e]
  exact said.text

theorem length_words (inp : Input) (st : State) : (st.words inp).length = st.rest.length := List.length_map _

theorem Spends.length_le (h : Spends inp st ws st') : ws.length + st'.rest.length = st.rest.length := by
  rw [← length_words inp st, ← length_words inp st', h.words, List.length_append]

/-- Values side by side are read one after the other, up to a word that ends them. -/
theorem readsAs_items (spelt : ∀ t ∈ tokens, (word inp.source t).Spelt) (phrase : Phrase stop room items)
    (one : ∀ i ∈ items, ReadsAs inp room i.words i.value) (words : st.words inp = Item.wordsOf items ++ behind)
    (deep : room ≤ maxDepth - st.depth) (enough : 2 * st.rest.length + 1 ≤ fuel)
    (ends : ∀ w ∈ behind.head?, w.kind = .eof ∨ stop w.kind = true) :
    ∃ zs : List Item, (componentList inp stop fuel st).1 = zs.map Item.value ∧ zs.map Item.unplaced = items
      ∧ Spends inp st (Item.wordsOf items) (componentList inp stop fuel st).2
      ∧ ∀ a, Ready inp.source tokens st a → st.errors = [] → ∀ z ∈ zs, z.In inp.source := by
  obtain ⟨fuel, rfl⟩ : ∃ n, fuel = n + 1 := ⟨fuel - 1, by omega⟩
  induction items generalizing st fuel with
  | nil =>
    have stops : (st.nextKind = .eof || stop st.nextKind) = true := by
      cases behind with
      | nil => simp_all [State.words, State.nextKind]
      | cons w behind =>
        rw [nextKind_of_words words]
        simpa using ends w rfl
    refine ⟨[], ?_⟩
    rw [componentList, if_pos stops]
    exact ⟨rfl, rfl, .refl inp st, by simp⟩
  | cons i items ih =>
    obtain ⟨values, goes⟩ := phrase
    simp only [List.mem_cons, forall_eq_or_imp] at values goes one
    obtain ⟨w, us, first, more, -⟩ := values.1.head
    rw [Item.wordsOf_cons, List.append_assoc] at words
    have next : st.nextKind = w.kind := nextKind_of_words (by rw [words, first]; rfl)
    have goesOn : ¬(st.nextKind = .eof || stop st.nextKind) = true := by
      rw [next]
      simp [more, goes.1 w (by rw [first]; rfl)]
    obtain ⟨value, spends⟩ := one.1 st fuel _ words deep (by omega)
    have shorter := spends.length_le
    rw [first, List.length_cons] at shorter
    have level := ((componentsLevel inp fuel).1 st).depth
    obtain ⟨fuel, rfl⟩ : ∃ n, fuel = n + 1 := ⟨fuel - 1, by omega⟩
    obtain ⟨zs, read, unplaced, later, text⟩ :=
      ih ⟨values.2, goes.2⟩ one.2 (spends.rest words) (level ▸ deep) fuel (by omega)
    rw [componentList, if_neg goesOn]
    refine ⟨⟨i.words, (component inp (fuel + 1) st).1⟩ :: zs, ?_, ?_, spends.trans later, fun a ready silent => ?_⟩
    · exact congrArg ((component inp (fuel + 1) st).1 :: ·) read
    · rw [List.map_cons, unplaced, Item.unplaced, value]
    · rw [List.forall_mem_cons]
      have more : st.nextKind ≠ .eof := next ▸ more
      obtain ⟨t, ts, e, -⟩ := rest_of_nextKind more
      obtain ⟨used, b, -, reads, -⟩ := (componentsRead inp tokens (fuel + 1)).one st a ready (by simp [e]) (by omega)
      exact ⟨ready.text_of_spends spelt more (by omega) silent spends, text b reads.ready (spends.errors.trans silent)⟩

/-- **Words that are a component value are read as that value.** -/
theorem Value.read (spelt : ∀ t ∈ tokens, (word inp.source t).Spelt) (h : Value room ws p) : ReadsAs inp room ws p := by
  induction h with
  | @single room w plain more =>
    intro st fuel behind words deep enough
    obtain ⟨t, ts, e, rfl, -⟩ := rest_of_words words
    rw [e, List.length_cons] at enough
    obtain ⟨fuel, rfl⟩ : ∃ n, fuel = n + 1 := ⟨fuel - 1, by omega⟩
    have single : Group.of? t.kind = none := by
      have := plain.1
      rw [Group.closer?_of?] at this
      exact Option.map_eq_none_iff.1 this
    have sound : leafError inp t = none := by
      obtain ⟨-, shut, whole⟩ := plain
      unfold leafError
      change t.kind.closing? = none at shut
      change ∀ f, t.kind ≠ .fault f at whole
      cases k : t.kind <;> simp_all [Token.Kind.closing?]
    rw [component_of_rest fuel e single, leaf, sound]
    exact ⟨by rw [unplaced_leaf, leafKind_eq], spends_advance words⟩
  | @group room opener closer g items opens inside closes ih =>
    intro st fuel behind words deep enough
    obtain ⟨t, ts, e, rfl, -⟩ := rest_of_words words
    rw [e, List.length_cons] at enough
    obtain ⟨fuel, rfl⟩ : ∃ n, fuel = n + 1 := ⟨fuel - 1, by omega⟩
    have opens : Group.of? t.kind = some g := opens
    have step := spends_advance words
    have depth := (sameLevel_advance st).depth
    rw [component.eq_def]
    simp only [e, opens]
    rw [if_neg (by omega)]
    have inner : (st.advance.enter ⟨g.construct, t.span⟩).words inp
        = Item.wordsOf items ++ (closer :: behind) := by
      have all : st.words inp = [word inp.source t] ++ (Item.wordsOf items ++ (closer :: behind)) := by
        rw [words]
        simp
      exact step.rest all
    have phrase : Phrase g.endsAt room items := by
      refine ⟨inside, fun i mem w first => ?_⟩
      obtain ⟨v, us, eq, -, shut⟩ := (inside i mem).head
      obtain rfl : v = w := by simpa [eq] using first
      unfold Group.endsAt
      rw [shut]
      cases k : v.kind <;> simp_all [Token.Kind.closing?]
    have enough : 2 * (st.advance.enter ⟨g.construct, t.span⟩).rest.length + 1 ≤ fuel := by
      simp only [State.enter, State.advance_of_rest e]
      omega
    obtain ⟨zs, read, unplaced, spends, -⟩ := readsAs_items spelt phrase ih inner
      (by simp only [State.enter]; omega) enough
      (fun w first => by
        obtain rfl : closer = w := by simpa using first
        simp [Group.endsAt, closes])
    have last := spends.rest inner
    have closed : closeGroup inp g (componentList inp g.endsAt fuel (st.advance.enter ⟨g.construct, t.span⟩)).2
        = (componentList inp g.endsAt fuel (st.advance.enter ⟨g.construct, t.span⟩)).2.advance.leave := by
      have next := nextKind_of_words last
      have more : closer.kind ≠ .eof := by
        intro eof
        rw [eof] at closes
        cases closes
      unfold closeGroup
      simp only [next, closes, more, if_false, if_true]
    simp only [closed]
    refine ⟨?_, ?_⟩
    · rw [groupNode_unplaced, read, ← Item.value_map_unplaced, unplaced]
    · exact ((step.trans (spends.of_enter.trans (spends_advance last))).leave).discard _

/-! ## What is read are values -/

/-- What `component` and `componentList` read with the given fuel, if they report nothing. -/
structure ComponentsDerive (inp : Input) (tokens : List Token) (fuel : Nat) : Prop where
  one : ∀ st a, Ready inp.source tokens st a → st.nextKind ≠ .eof → 2 * st.rest.length ≤ fuel →
    (component inp fuel st).2.errors = [] → ∃ ws, Value (maxDepth - st.depth) ws (component inp fuel st).1.unplaced
      ∧ Spends inp st ws (component inp fuel st).2
  many : ∀ stop st a, Ready inp.source tokens st a → 2 * st.rest.length + 1 ≤ fuel →
    (componentList inp stop fuel st).2.errors = [] → ∃ zs : List Item,
      (componentList inp stop fuel st).1 = zs.map Item.value ∧ Phrase stop (maxDepth - st.depth) (zs.map Item.unplaced)
        ∧ Spends inp st (Item.wordsOf zs) (componentList inp stop fuel st).2 ∧ ∀ z ∈ zs, z.In inp.source

theorem ComponentsDerive.component_succ (ih : ComponentsDerive inp tokens fuel) (h : Ready inp.source tokens st a)
    (more : st.nextKind ≠ .eof) (enough : 2 * st.rest.length ≤ fuel + 1)
    (silent : (component inp (fuel + 1) st).2.errors = []) :
    ∃ ws, Value (maxDepth - st.depth) ws (component inp (fuel + 1) st).1.unplaced
      ∧ Spends inp st ws (component inp (fuel + 1) st).2 := by
  obtain ⟨t, ts, e, kind⟩ := rest_of_nextKind more
  have step := spends_advance (State.words_of_rest inp e)
  cases group : Group.of? t.kind with
  | none =>
    rw [component_of_rest fuel e group, leaf] at silent ⊢
    cases error : leafError inp t with
    | some d =>
      rw [error] at silent
      cases silent
    | none =>
      refine ⟨[word inp.source t], ?_, step⟩
      simp only [unplaced_leaf, leafKind_eq]
      exact .single _ (isPlain_of_leafError group error) (show t.kind ≠ .eof from kind ▸ more)
  | some g =>
    have level := (sameLevel_advance st).depth
    rw [component.eq_def] at silent ⊢
    simp only [e, group] at silent ⊢
    split at silent
    next => cases silent
    next shallow =>
      rw [if_neg shallow]
      have entered := (h.advance e).enter ⟨g.construct, t.span⟩
      obtain ⟨c, ts', e', closes, closed⟩ := closeGroup_clean inp silent
      simp only [closed] at silent ⊢
      rw [State.advance_of_rest e'] at silent
      obtain ⟨zs, read, phrase, spends, -⟩ := ih.many g.endsAt _ _ entered.ready
        (by simp only [State.enter, State.advance_of_rest e]; rw [e, List.length_cons] at enough; omega) silent
      have last := spends_advance (State.words_of_rest inp e')
      refine ⟨word inp.source t :: (Item.wordsOf zs ++ [word inp.source c]), ?_,
        ((step.trans (spends.of_enter.trans last)).leave).discard _⟩
      obtain ⟨room, deep⟩ : ∃ n, maxDepth - st.depth = n + 1 := Nat.exists_eq_succ_of_ne_zero (by omega)
      have less : maxDepth - (st.advance.enter ⟨g.construct, t.span⟩).depth = room := by
        simp only [State.enter]
        omega
      rw [less] at phrase
      rw [groupNode_unplaced, read, ← Item.value_map_unplaced, ← Item.wordsOf_unplaced, deep]
      exact .group group phrase.values closes

theorem ComponentsDerive.componentList_succ (spelt : ∀ t ∈ tokens, (word inp.source t).Spelt)
    (ih : ComponentsDerive inp tokens fuel) (stop : Token.Kind → Bool) (h : Ready inp.source tokens st a)
    (enough : 2 * st.rest.length + 1 ≤ fuel + 1) (silent : (componentList inp stop (fuel + 1) st).2.errors = []) :
    ∃ zs : List Item, (componentList inp stop (fuel + 1) st).1 = zs.map Item.value
      ∧ Phrase stop (maxDepth - st.depth) (zs.map Item.unplaced)
      ∧ Spends inp st (Item.wordsOf zs) (componentList inp stop (fuel + 1) st).2 ∧ ∀ z ∈ zs, z.In inp.source := by
  rw [componentList] at silent ⊢
  split at silent
  next stops =>
    rw [if_pos stops]
    exact ⟨[], rfl, .nil, .refl inp st, by simp⟩
  next goes =>
    rw [if_neg goes]
    have more : st.nextKind ≠ .eof := by simp_all
    obtain ⟨t, ts, e, kind⟩ := rest_of_nextKind more
    obtain ⟨used, b, took, reads, -⟩ := (componentsRead inp tokens fuel).one st a h (by simp [e]) (by omega)
    have shorter := reads.length
    have := List.length_pos_iff.2 took
    have within : 2 * (component inp fuel st).2.rest.length + 1 ≤ fuel := by omega
    obtain ⟨_, _, after, -⟩ := (componentsRead inp tokens fuel).many stop _ _ reads.ready within
    have quiet := after.clean silent
    obtain ⟨ws, value, spends⟩ := ih.one st a h more (by omega) quiet
    obtain ⟨zs, read, phrase, later, text⟩ := ih.many stop _ b reads.ready within silent
    rw [((componentsLevel inp fuel).1 st).depth] at phrase
    refine ⟨⟨ws, (component inp fuel st).1⟩ :: zs, congrArg ((component inp fuel st).1 :: ·) read, ?_,
      spends.trans later, ?_⟩
    · have one : Phrase stop (maxDepth - st.depth) [⟨ws, (component inp fuel st).1.unplaced⟩] := by
        refine ⟨by simpa using value, ?_⟩
        obtain ⟨w, us, rfl, -⟩ := value.head
        have first := nextKind_of_words spends.words
        rw [first] at goes
        simp_all
      exact one.append phrase
    · rw [List.forall_mem_cons]
      exact ⟨h.text_of_spends spelt more (by omega) (reads.clean quiet) spends, text⟩

theorem componentsDerive (spelt : ∀ t ∈ tokens, (word inp.source t).Spelt) (fuel : Nat) :
    ComponentsDerive inp tokens fuel := by
  induction fuel with
  | zero =>
    refine ⟨fun st a _ more enough => ?_, fun stop st a _ enough => by omega⟩
    obtain ⟨t, ts, e, -⟩ := rest_of_nextKind more
    simp [e] at enough
  | succ fuel ih =>
    exact ⟨fun _ _ h more enough => ih.component_succ h more enough,
      fun stop _ _ h enough => ih.componentList_succ spelt stop h enough⟩

/-- **What is read without a report has the words of component values.** -/
theorem Ready.phrase (spelt : ∀ t ∈ tokens, (word inp.source t).Spelt) (h : Ready inp.source tokens st a)
    (stop : Token.Kind → Bool) (silent : (Grammar.components inp stop st).2.errors = []) :
    ∃ zs : List Item, (Grammar.components inp stop st).1 = zs.map Item.value
      ∧ Phrase stop (maxDepth - st.depth) (zs.map Item.unplaced)
      ∧ Spends inp st (Item.wordsOf zs) (Grammar.components inp stop st).2 ∧ ∀ z ∈ zs, z.In inp.source :=
  (componentsDerive spelt _).many stop st a h (Nat.le_refl _) silent

/-- **The words of component values are read as these**, up to a word that ends them. -/
theorem Phrase.read (spelt : ∀ t ∈ tokens, (word inp.source t).Spelt) (phrase : Phrase stop room items)
    (h : Ready inp.source tokens st a) (silent : st.errors = []) (words : st.words inp = Item.wordsOf items ++ behind)
    (deep : room ≤ maxDepth - st.depth) (ends : ∀ w ∈ behind.head?, w.kind = .eof ∨ stop w.kind = true) :
    ∃ zs : List Item, (components inp stop st).1 = zs.map Item.value ∧ zs.map Item.unplaced = items
      ∧ Spends inp st (Item.wordsOf items) (components inp stop st).2 ∧ ∀ z ∈ zs, z.In inp.source := by
  obtain ⟨zs, read, unplaced, spends, text⟩ := readsAs_items spelt phrase
    (fun i mem => (phrase.values i mem).read spelt) words deep (Nat.le_refl _) ends
  exact ⟨zs, read, unplaced, spends, text a h silent⟩

end AboveFold.Grammar
