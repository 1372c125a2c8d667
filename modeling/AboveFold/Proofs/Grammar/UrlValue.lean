import AboveFold.Proofs.Grammar.ComponentUses
import AboveFold.Proofs.Token.UrlText

/-!
# Reading a url that was written

The tokens of a url are one component value, and as the value of a declaration they are all of it. Reading
them reports nothing (`Passes`), provided that one more bracket may be opened if the url has quotes: they
make it a function of one string.
-/

namespace AboveFold.Grammar
open Source Node Token

variable {inp : Input} {url : String} {quote : Option Char} {st st' st'' : State} {k stop : Token.Kind}
  {ks more : List Token.Kind}

/-- The kinds of the tokens to come. -/
def State.kinds (st : State) : List Token.Kind := st.rest.map Token.kind

/-- Reading went from `st` to `st'` with nothing to report and all brackets closed, and tokens of the kinds `more`
are still to come. -/
structure Passes (st : State) (more : List Token.Kind) (st' : State) : Prop where
  kinds : st'.kinds = more
  errors : st'.errors = st.errors
  depth : st'.depth = st.depth
  openings : st'.openings = st.openings

theorem Passes.trans (h : Passes st ks st') (h' : Passes st' more st'') : Passes st more st'' where
  kinds := h'.kinds
  errors := h'.errors.trans h.errors
  depth := h'.depth.trans h.depth
  openings := h'.openings.trans h.openings

theorem Passes.discard (h : Passes st more st') (ps : List Parsed) : Passes st more (st'.discard ps) :=
  ⟨h.kinds, h.errors, h.depth, h.openings⟩

/-- What was opened is left again. -/
theorem Passes.leave {o : Diagnostic.Opening} (h : Passes (st.enter o) more st') : Passes st more st'.leave where
  kinds := h.kinds
  errors := h.errors
  depth := by
    change st'.depth - 1 = st.depth
    rw [h.depth]
    rfl
  openings := by
    change st'.openings.tail = st.openings
    rw [h.openings]
    rfl

theorem rest_of_kinds (h : st.kinds = k :: ks) :
    ∃ t ts, st.rest = t :: ts ∧ t.kind = k ∧ ts.map Token.kind = ks := by
  obtain ⟨t, ts, e, kind, rest⟩ := List.map_eq_cons_iff.1 h
  exact ⟨t, ts, e, kind, rest⟩

theorem nextKind_of_kinds (h : st.kinds = k :: ks) : st.nextKind = k := by
  obtain ⟨t, ts, e, kind, -⟩ := rest_of_kinds h
  rw [nextKind_of_rest e, kind]

theorem passes_advance (h : st.kinds = k :: ks) : Passes st ks st.advance := by
  obtain ⟨t, ts, e, -, rest⟩ := rest_of_kinds h
  rw [State.advance_of_rest e]
  exact ⟨rest, rfl, rfl, rfl⟩

/-! ## The component value -/

/-- A token that is a component value by itself and no error. -/
theorem component_leaf (inp : Input) (fuel : Nat) (h : st.kinds = k :: ks) (single : Group.of? k = none)
    (sound : ∀ t : Token, t.kind = k → leafError inp t = none) :
    ∃ t, t.kind = k ∧ component inp (fuel + 1) st = (.leaf (leafKind inp t) t.span.bytes, st.advance) := by
  obtain ⟨t, ts, e, kind, -⟩ := rest_of_kinds h
  refine ⟨t, kind, ?_⟩
  rw [component_of_rest fuel e (kind ▸ single), leaf, sound t kind]

theorem component_bareUrl (inp : Input) (fuel : Nat) {text : String} (h : st.kinds = .url text :: more) :
    ∃ span, component inp (fuel + 1) st = (.leaf (.url text none) span, st.advance) := by
  obtain ⟨t, kind, read⟩ := component_leaf inp fuel h rfl fun t kind => by simp [leafError, kind]
  exact ⟨t.span.bytes, by rw [read, leafKind, kind]⟩

theorem stringLiteral_quoted (text : String) (q : Char) :
    stringLiteral (String.ofList (q :: (text.toList ++ [q]))) = .stringLit text q := by
  simp [stringLiteral]

theorem component_string (inp : Input) (fuel : Nat) {text : String} {q : Char}
    (h : st.kinds = .quotedString (String.ofList (q :: (text.toList ++ [q]))) :: more) :
    ∃ span, component inp (fuel + 1) st = (.leaf (.stringLit text q) span, st.advance) := by
  obtain ⟨t, kind, read⟩ := component_leaf inp fuel h rfl fun t kind => by simp [leafError, kind]
  refine ⟨t.span.bytes, ?_⟩
  rw [read, leafKind, kind]
  simp only [stringLiteral_quoted]

/-- A list of component values ends before a token that ends it. -/
theorem componentList_stop (inp : Input) {ends : Token.Kind → Bool} (fuel : Nat) (h : ends st.nextKind = true) :
    componentList inp ends fuel st = ([], st) := by
  cases fuel with
  | zero => rfl
  | succ fuel => simp [componentList, h]

theorem componentList_cons (inp : Input) {ends : Token.Kind → Bool} (fuel : Nat) (h : st.kinds = k :: ks)
    (goes : k ≠ .eof ∧ ends k = false) :
    componentList inp ends (fuel + 1) st =
      ((component inp fuel st).1 :: (componentList inp ends fuel (component inp fuel st).2).1,
        (componentList inp ends fuel (component inp fuel st).2).2) := by
  have next := nextKind_of_kinds h
  simp [componentList, next, goes]

/-- Before its closing bracket a group ends as it should. -/
theorem closeGroup_of_kinds (inp : Input) (g : Group) (h : st.kinds = k :: ks)
    (closes : k.closing? = some g.closeChar) : closeGroup inp g st = st.advance.leave := by
  have next := nextKind_of_kinds h
  have more : k ≠ .eof := by
    rintro rfl
    cases closes
  unfold closeGroup
  simp only [next, closes, more, if_false, if_true]

theorem component_quotedUrl (inp : Input) (fuel : Nat) {text : String} {q : Char}
    (h : st.kinds = .function "url" :: .quotedString (String.ofList (q :: (text.toList ++ [q]))) :: .parenClose :: more)
    (room : st.depth < maxDepth) :
    ∃ span st', component inp (fuel + 3) st = (.leaf (.url text (some q)) span, st') ∧ Passes st more st' := by
  obtain ⟨t, ts, e, kind, -⟩ := rest_of_kinds h
  have first := passes_advance h
  have deep : ¬maxDepth ≤ st.advance.depth := by
    rw [first.depth]
    exact Nat.not_le.2 room
  have inside : (st.advance.enter ⟨Group.construct (.function "url"), t.span⟩).kinds = _ := first.kinds
  rw [component.eq_def]
  simp only [e, kind, Group.of?]
  rw [if_neg deep]
  generalize entered : st.advance.enter ⟨Group.construct (.function "url"), t.span⟩ = st₁ at inside ⊢
  obtain ⟨span, string⟩ := component_string inp fuel inside
  have second := passes_advance inside
  have children : componentList inp (Group.endsAt (.function "url")) (fuel + 2) st₁
      = ([.leaf (.stringLit text q) span], st₁.advance) := by
    rw [componentList_cons inp (fuel + 1) inside ⟨by simp, rfl⟩, string,
      componentList_stop inp (fuel + 1) (by rw [nextKind_of_kinds second.kinds]; rfl)]
  have closed := closeGroup_of_kinds inp (.function "url") second.kinds rfl
  have third := passes_advance second.kinds
  simp only [children, closed]
  subst entered
  exact ⟨_, _, rfl, (first.trans (second.trans third).leave).discard _⟩

/-! ## Urls -/

/-- What the tokens of a url are read as. -/
def urlKind (url : String) (quote : Option Char) : Node.Kind :=
  .url (spelling url quote).1 (spelling url quote).2

/-- Whether reading a url opens a bracket. -/
def opensUrl (url : String) (quote : Option Char) : Bool := (spelling url quote).2.isSome

/-- The kinds of the tokens of a url. -/
def urlKinds (url : String) (quote : Option Char) : List Token.Kind := (urlWords url quote).map Written.kind

/-- **The tokens of a url are one component value.** -/
theorem component_url (inp : Input) (fuel : Nat) (h : st.kinds = urlKinds url quote ++ more)
    (room : opensUrl url quote = true → st.depth < maxDepth) :
    ∃ span st', component inp (fuel + 3) st = (.leaf (urlKind url quote) span, st') ∧ Passes st more st' := by
  unfold urlKinds urlWords at h
  unfold opensUrl at room
  unfold urlKind
  generalize spelling url quote = spelled at h room ⊢
  obtain ⟨text, _ | q⟩ := spelled
  case none =>
    obtain ⟨span, read⟩ := component_bareUrl inp (fuel + 2) h
    exact ⟨span, st.advance, read, passes_advance h⟩
  case some => exact component_quotedUrl inp fuel h (room rfl)

/-! ## Declarations of a url -/

/-- Whether a token neither ends a statement nor opens a block. -/
def isInner : Token.Kind → Bool
  | .eof | .semicolon | .curlyOpen | .curlyClose => false
  | _ => true

theorem exists_urlKinds (url : String) (quote : Option Char) :
    ∃ k ks, urlKinds url quote = k :: ks ∧ ∀ k' ∈ k :: ks, isInner k' = true := by
  unfold urlKinds urlWords
  generalize spelling url quote = spelled
  obtain ⟨text, _ | q⟩ := spelled <;> exact ⟨_, _, rfl, by simp [isInner]⟩

theorem goesOn_of_isInner (h : isInner k = true) : k ≠ .eof ∧ endsDeclaration k = false := by
  cases k <;> first | (cases h; done) | exact ⟨by simp, by simp [endsDeclaration]⟩

/-- A declaration whose value is one url. -/
def DeclaresUrl (property url : String) (quote : Option Char) (p : Parsed) : Prop :=
  ∃ outer value inner,
    p = .node (.declaration property false) outer [.node .value value [.leaf (urlKind url quote) inner]]

theorem declarationOf_url (inp : Input) (property : String) (start colonEnd : Nat) (span : ByteSpan) (st : State) :
    ∃ p dropped, declarationOf inp property start colonEnd [.leaf (urlKind url quote) span] st = (p, st.discard dropped)
      ∧ DeclaresUrl property url quote p :=
  ⟨_, [], rfl, _, _, _, rfl⟩

/-- **A url is all of the value** of a declaration that it was written for. -/
theorem declaration_url (inp : Input) (t : Token) (property : String)
    (h : st.kinds = k :: .colon :: (urlKinds url quote ++ stop :: more)) (ends : endsDeclaration stop = true)
    (room : opensUrl url quote = true → st.depth < maxDepth) :
    ∃ p st', declaration inp t property st = (p, st') ∧ DeclaresUrl property url quote p
      ∧ Passes st (stop :: more) st' := by
  have first := passes_advance h
  obtain ⟨⟨_, place⟩, ts, e, rfl, -⟩ := rest_of_kinds first.kinds
  have second := passes_advance first.kinds
  have plain : st.advance.nextKind.isTrivia = false := by rw [nextKind_of_kinds first.kinds]; rfl
  obtain ⟨k, ks, shape, inner⟩ := exists_urlKinds url quote
  have kinds := second.kinds
  obtain ⟨fuel, enough⟩ : ∃ fuel, 2 * st.advance.advance.rest.length + 1 = fuel + 4 := by
    have := congrArg List.length kinds
    simp only [State.kinds, List.length_map, List.length_append, List.length_cons, shape] at this
    exact ⟨2 * st.advance.advance.rest.length - 3, by omega⟩
  obtain ⟨span, st', read, passes⟩ := component_url inp fuel kinds (by rwa [second.depth, first.depth])
  have goes := goesOn_of_isInner (inner k List.mem_cons_self)
  have values : components inp endsDeclaration st.advance.advance = ([.leaf (urlKind url quote) span], st') := by
    rw [components, enough, componentList_cons inp (fuel + 3) (by rw [kinds, shape]; rfl) goes, read,
      componentList_stop inp (fuel + 3) (by rw [nextKind_of_kinds passes.kinds]; exact ends)]
  unfold declaration
  rw [skipTrivia_of_not_trivia plain]
  simp only [e, values]
  obtain ⟨p, dropped, made, declares⟩ := declarationOf_url inp property t.start place.stop.offset span st'
  exact ⟨p, _, made, declares, (first.trans (second.trans passes)).discard dropped⟩

/-- No block opens in a statement of inner tokens. -/
theorem blockFollows_eq_false {front : List Token.Kind} {ts : List Token}
    (h : ts.map Token.kind = front ++ stop :: more) (inner : ∀ k ∈ front, isInner k = true)
    (ends : endsDeclaration stop = true) : blockFollows ts = false := by
  induction front generalizing ts with
  | nil =>
    obtain ⟨t, ts, rfl, kind, -⟩ := List.map_eq_cons_iff.1 h
    rw [blockFollows, kind]
    cases stop <;> first | rfl | simp [endsDeclaration] at ends
  | cons k front ih =>
    rw [List.forall_mem_cons] at inner
    obtain ⟨t, ts, rfl, kind, rest⟩ := List.map_eq_cons_iff.1 h
    have later := ih rest inner.2
    rw [blockFollows, kind]
    cases k <;> first | exact later | rfl | cases inner.1

theorem entries_url (inp : Input) (fuel : Nat) (property : String)
    (h : st.kinds = .ident property :: .colon :: (urlKinds url quote ++ .curlyClose :: more))
    (room : opensUrl url quote = true → st.depth < maxDepth) :
    ∃ p st', entries inp .declarations (fuel + 2) st = ([p], st') ∧ DeclaresUrl property url quote p
      ∧ Passes st (.curlyClose :: more) st' := by
  obtain ⟨t, ts, e, kind, rest⟩ := rest_of_kinds h
  obtain ⟨p, st', read, declares, passes⟩ := declaration_url inp t property h rfl room
  obtain ⟨k, ks, shape, inner⟩ := exists_urlKinds url quote
  have inside : ∀ k' ∈ .colon :: urlKinds url quote, isInner k' = true := by
    rw [List.forall_mem_cons, shape]
    exact ⟨rfl, inner⟩
  have flat : startsNestedRule property ts = false := by
    rw [startsNestedRule, blockFollows_eq_false rest inside rfl, Bool.and_false]
  have entry : entryOf .declarations (t :: ts) = .declaration property := by
    simp [entryOf, kind, flat]
  obtain ⟨u, us, e', kind', -⟩ := rest_of_kinds passes.kinds
  refine ⟨p, st', ?_, declares, passes⟩
  rw [entries.eq_def]
  simp only [e, entry, read]
  rw [entries.eq_def]
  simp only [e', entryOf, kind']

/-- **A block that was written for one url** declares that url and nothing else. -/
theorem block_url (inp : Input) (construct : Diagnostic.Construct) (fuel : Nat) (property : String)
    (h : st.kinds = .curlyOpen :: .ident property :: .colon :: (urlKinds url quote ++ .curlyClose :: more))
    (room : st.depth + (opensUrl url quote).toNat < maxDepth) :
    ∃ outer p st', block inp .declarations construct (fuel + 3) st = (.node (.block .declarations) outer [p], st')
      ∧ DeclaresUrl property url quote p ∧ Passes st more st' := by
  obtain ⟨t, ts, e, -, -⟩ := rest_of_kinds h
  have first := passes_advance h
  have deep : ¬maxDepth ≤ st.advance.depth := by
    rw [first.depth]
    omega
  have inside : (st.advance.enter ⟨construct, t.span⟩).kinds = _ := first.kinds
  obtain ⟨p, st', read, declares, passes⟩ := entries_url inp fuel property inside fun opens => by
    change st.advance.depth + 1 < maxDepth
    rw [first.depth]
    rwa [opens] at room
  have closed : closeBlock inp st' = st'.advance.leave := by
    rw [closeBlock, nextKind_of_kinds passes.kinds]
  have last := passes_advance passes.kinds
  rw [block.eq_def]
  simp only [e]
  rw [if_neg deep]
  simp only [Place.ofContents, read, closed]
  exact ⟨_, p, _, rfl, declares, first.trans (passes.trans last).leave⟩

/-! ## A whole stylesheet -/

theorem selectorListOf_name (inp : Input) (start : Nat) (name : String) (span : ByteSpan) (st : State) :
    ∃ list dropped, selectorListOf inp start [.leaf (.ident name) span] st = (list, st.discard dropped)
      ∧ list.kind = .selectorList :=
  ⟨_, _, rfl, rfl⟩

/-- The selector list of a name alone. -/
theorem ruleHead_name (inp : Input) {name : String} (h : st.kinds = .ident name :: .curlyOpen :: more) :
    ∃ list start st', ruleHead inp .topLevel st = (.block list start, st') ∧ list.kind = .selectorList
      ∧ Passes st (.curlyOpen :: more) st' := by
  have first := passes_advance h
  obtain ⟨fuel, enough⟩ : ∃ fuel, 2 * st.rest.length + 1 = fuel + 2 := by
    have := congrArg List.length h
    simp only [State.kinds, List.length_map, List.length_cons] at this
    exact ⟨2 * st.rest.length - 1, by omega⟩
  obtain ⟨t, kind, read⟩ := component_leaf inp fuel h rfl fun t kind => by simp [leafError, kind]
  rw [leafKind, kind] at read
  have atoms : components inp (endsSelectors .topLevel) st = ([.leaf (.ident name) t.span.bytes], st.advance) := by
    rw [components, enough, componentList_cons inp (fuel + 1) h ⟨by simp, by simp [endsSelectors]⟩, read,
      componentList_stop inp (fuel + 1) (by rw [nextKind_of_kinds first.kinds]; rfl)]
  unfold ruleHead
  simp only [atoms, nextKind_of_kinds first.kinds]
  obtain ⟨list, dropped, made, selectors⟩ :=
    selectorListOf_name inp (st.nextSpan inp).start.offset name t.span.bytes st.advance
  rw [made]
  exact ⟨list, _, _, rfl, selectors, first.discard dropped⟩

/-- **A rule that was written for one url** is read without diagnostics and declares that url alone. -/
theorem Input.read_url (inp : Input) {tokens : List Token} {name property : String}
    (h : tokens.map Token.kind = .ident name :: .curlyOpen :: .ident property :: .colon
      :: (urlKinds url quote ++ [.curlyClose, .eof])) :
    (inp.read tokens).errors = [] ∧ ∃ outer rule list block p, (inp.read tokens).sheet
        = .node .styleSheet outer [.node .rule rule [list, .node (.block .declarations) block [p]]]
      ∧ list.kind = .selectorList ∧ DeclaresUrl property url quote p := by
  have kinds : (State.start tokens).kinds = _ := h
  obtain ⟨t, ts, e, kind, -⟩ := rest_of_kinds kinds
  obtain ⟨fuel, enough⟩ : ∃ fuel, 2 * tokens.length + 1 = fuel + 4 := by
    have := congrArg List.length h
    simp only [List.length_map, List.length_cons] at this
    exact ⟨2 * tokens.length - 3, by omega⟩
  obtain ⟨list, start, st', head, selectors, passes⟩ := ruleHead_name inp kinds
  obtain ⟨outer, p, st'', body, declares, later⟩ := block_url inp .ruleBlock fuel property passes.kinds (by
    rw [passes.depth]
    exact Nat.lt_of_le_of_lt (Nat.add_le_add_left (Bool.toNat_le _) _) (show 0 + 1 < maxDepth by decide))
  obtain ⟨u, us, e', last, -⟩ := rest_of_kinds later.kinds
  have rest : entries inp .topLevel (fuel + 3) st'' = ([], st'') := by
    rw [entries.eq_def]
    simp only [e', entryOf, last]
  have all : entries inp .topLevel (2 * tokens.length + 1) (.start tokens)
      = ([.node .rule ⟨start, outer.stop⟩ [list, .node (.block .declarations) outer [p]]], st'') := by
    rw [enough, entries.eq_def]
    simp only [e, entryOf, kind, head, body, rest]
    rfl
  unfold Input.read
  simp only [all]
  refine ⟨?_, _, _, list, outer, p, rfl, selectors, declares⟩
  rw [later.errors, passes.errors]
  rfl

end AboveFold.Grammar
