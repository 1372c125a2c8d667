import AboveFold.Proofs.Grammar.ComponentUses
import AboveFold.Proofs.Token.Wording
import AboveFold.Prune.Comments
import AboveFold.Tree.Render

/-!
# What component values say

A component value says the words that it was read from (`Parsed.Says`): a leaf those of its text, and a group
those of its children between two brackets. If nothing is reported, then every value that is read says just
the words of the tokens that were taken for it.
-/

namespace AboveFold.Parsed
open Source Token

/-- What the words of a component value at its ends and its kind say of each other. -/
structure Bounds (k : Node.Kind) (ws : List Written) : Prop where
  component : k.isComponent = true
  first : ∃ w ∈ ws.head?, w.kind.joinsBefore = true → Prune.isSolid k = true
  last : ∃ w ∈ ws.getLast?, (w.kind.joinsBehind = true → Prune.isSolid k = true)
    ∧ (w.kind = .whitespace → k.isWhitespace = true) ∧ ∀ name, w.kind ≠ .function name
  alone : k.isTrivia = true → ∃ w, ws = [w] ∧ w.kind.isTrivia = true ∧ w.kind.isComment = k.isComment

/-- A group of this kind is written between these words. -/
structure Brackets (k : Node.Kind) (opener closer : Written) : Prop where
  holds : Prune.holdsComponents k = true
  inside : opener.kind.joinsBehind = false
  outside : closer.kind.joinsBefore = false
  layout : ∀ pieces, (layout k pieces).toList = opener.text ++ (Piece.joined pieces).toList ++ closer.text

mutual

/-- A component value was read from these words: it has their text, and its children, if it has any, say those
between two brackets. -/
def Says (source : String) : Parsed → List Written → Prop
  | node k span ps, ws =>
    Bounds k ws ∧ span.slice source = some (String.ofList (textOf ws))
      ∧ (ps = [] ∨ ∃ opener inner closer, ws = opener :: (inner ++ [closer]) ∧ Brackets k opener closer
        ∧ SaysAll source ps inner)

/-- Component values say these words one after the other. -/
def SaysAll (source : String) : List Parsed → List Written → Prop
  | [], ws => ws = []
  | p :: ps, ws => ∃ us vs, ws = us ++ vs ∧ Says source p us ∧ SaysAll source ps vs

end

variable {source : String} {p : Parsed} {ps qs : List Parsed} {ws vs : List Written}

theorem Says.bounds (h : Says source p ws) : Bounds p.kind ws := by
  cases p
  exact h.1

theorem Says.single (h : Says source p ws) : SaysAll source [p] ws := ⟨ws, [], (List.append_nil ws).symm, h, rfl⟩

theorem SaysAll.append (h : SaysAll source ps ws) (h' : SaysAll source qs vs) :
    SaysAll source (ps ++ qs) (ws ++ vs) := by
  induction ps generalizing ws with
  | nil =>
    obtain rfl : ws = [] := h
    exact h'
  | cons p ps ih =>
    obtain ⟨us, ws, rfl, first, rest⟩ := h
    exact ⟨us, ws ++ vs, List.append_assoc .., first, ih rest⟩

end AboveFold.Parsed

namespace AboveFold.Grammar
open Source Node Parsed Token

variable {inp : Input} {tokens : List Token} {st st' st'' : State} {ps qs : List Parsed} {a : Nat}

/-- Component values were read from `st` to `st'`: if nothing was reported, they say the words of the tokens that
reading took, and these are well-formed. -/
def Phrases (inp : Input) (st : State) (ps : List Parsed) (st' : State) : Prop :=
  st'.errors = [] → ∃ used, st.rest = used ++ st'.rest ∧ (∀ t ∈ used, t.kind ≠ .eof ∧ ∀ f, t.kind ≠ .fault f)
    ∧ SaysAll inp.source ps (used.map (word inp.source))

theorem Phrases.nil (st : State) : Phrases inp st [] st := fun _ => ⟨[], rfl, by simp, rfl⟩

theorem Phrases.append (h : Phrases inp st ps st') (h' : Phrases inp st' qs st'')
    (clean : st''.errors = [] → st'.errors = []) : Phrases inp st (ps ++ qs) st'' := by
  intro none
  obtain ⟨used, rest, sound, said⟩ := h (clean none)
  obtain ⟨used', rest', sound', said'⟩ := h' none
  refine ⟨used ++ used', by rw [rest, rest', List.append_assoc], ?_, ?_⟩
  · rw [List.forall_mem_append]
    exact ⟨sound, sound'⟩
  · rw [List.map_append]
    exact said.append said'

/-! ## Single tokens -/

/-- A token that opens nothing stands alone. -/
theorem bounds_leafKind (inp : Input) {t : Token} (single : Group.of? t.kind = none) :
    Bounds (leafKind inp t) [word inp.source t] := by
  have solid : (leafKind inp t).isTrivia = t.kind.isTrivia ∧ (leafKind inp t).isComment = t.kind.isComment
      ∧ ((leafKind inp t).isWhitespace = true ↔ t.kind = .whitespace)
      ∧ (t.kind.isTrivia = false → t.kind ≠ .comma → Prune.isSolid (leafKind inp t) = true) := by
    unfold leafKind stringLiteral
    repeat' split
    all_goals simp_all [Node.Kind.isTrivia, Node.Kind.isWhitespace, Node.Kind.isComment, Token.Kind.isTrivia,
      Token.Kind.isComment, Prune.isSolid]
  obtain ⟨trivia, comment, white, solid⟩ := solid
  refine ⟨(leafKind_isComponent inp t).1, ⟨_, rfl, fun joins => ?_⟩,
    ⟨_, rfl, fun joins => ?_, white.2, fun name k => ?_⟩, fun blank => ⟨_, rfl, trivia ▸ blank, comment.symm⟩⟩
  · simp only [word, Token.Kind.joinsBefore, Bool.and_eq_true, Bool.not_eq_true'] at joins
    exact solid joins.1.1 (of_decide_eq_true joins.1.2)
  · simp only [word, Token.Kind.joinsBehind, Bool.and_eq_true, Bool.not_eq_true'] at joins
    exact solid joins.1.1 (of_decide_eq_true joins.1.2)
  · rw [show t.kind = .function name from k] at single
    cases single

theorem Ready.leaf_phrases {t : Token} {ts : List Token} (h : Ready inp.source tokens st a) (e : st.rest = t :: ts)
    (more : t.kind ≠ .eof) (single : Group.of? t.kind = none) :
    Phrases inp st [(leaf inp t st.advance).1] (leaf inp t st.advance).2 := by
  have tiles := h.tiles
  rw [e] at tiles
  rw [leaf_fst]
  unfold leaf
  cases error : leafError inp t with
  | some d => exact fun none => by cases none
  | none =>
    intro _
    refine ⟨[t], by simp [State.advance_of_rest e, e], ?_, Says.single ⟨bounds_leafKind inp single, ?_, .inl rfl⟩⟩
    · simp only [List.mem_singleton, forall_eq]
      refine ⟨more, fun f k => ?_⟩
      simp [leafError, k] at error
    · have tiles : Tiles inp.source a ([t] ++ ts) := tiles
      have text := tiles.slice h.boundary rfl
      rw [← Tiles.start_eq tiles] at text
      exact text

/-! ## Groups -/

theorem closeGroup_clean (inp : Input) {g : Group} (clean : (closeGroup inp g st).errors = []) :
    ∃ c ts, st.rest = c :: ts ∧ c.kind.closing? = some g.closeChar ∧ closeGroup inp g st = st.advance.leave := by
  unfold closeGroup at *
  simp only at *
  split at clean
  next => cases clean
  next more =>
    split at clean
    next closes =>
      obtain ⟨c, ts, e, k⟩ := rest_of_nextKind more
      exact ⟨c, ts, e, k ▸ closes, by rw [if_neg more, if_pos closes]⟩
    next => cases clean

section

variable {t c : Token} {g : Group} {inner : List Written}

/-- A word that closes a group is the bracket that does. -/
theorem text_of_closing (closes : c.kind.closing? = some g.closeChar) (spelt : (word inp.source c).Spelt) :
    (word inp.source c).text = [g.closeChar] ∧ c.kind.joinsBefore = false := by
  have kind : (word inp.source c).kind = c.kind := rfl
  have sign : c.kind.sign? = some g.closeChar := by
    rw [← closes]
    cases k : c.kind <;> first | rfl | (rw [k] at closes; cases closes)
  refine ⟨spelt.sign _ (kind ▸ sign), ?_⟩
  simp [Token.Kind.joinsBefore, closes]

theorem bounds_group {k : Node.Kind} (component : k.isComponent = true) (solid : Prune.isSolid k = true)
    (closes : c.kind.closing? = some g.closeChar) : Bounds k (word inp.source t :: (inner ++ [word inp.source c])) := by
  have kind : (word inp.source c).kind = c.kind := rfl
  have last : (word inp.source t :: (inner ++ [word inp.source c])).getLast? = some (word inp.source c) := by
    rw [← List.cons_append, List.getLast?_concat]
  refine ⟨component, ⟨_, rfl, fun _ => solid⟩, ⟨_, last, fun _ => solid, fun white => ?_, fun name k => ?_⟩,
    fun trivia => ?_⟩
  · rw [kind.symm.trans white] at closes
    cases closes
  · rw [kind.symm.trans k] at closes
    cases closes
  · simp [Prune.isSolid, trivia] at solid

theorem says_groupNode {span : ByteSpan} {children : List Parsed} (opens : Group.of? t.kind = some g)
    (closes : c.kind.closing? = some g.closeChar) (opener : (word inp.source t).Spelt)
    (closer : (word inp.source c).Spelt) (said : SaysAll inp.source children inner)
    (text : span.slice inp.source
      = some (String.ofList (textOf (word inp.source t :: (inner ++ [word inp.source c]))))) :
    Says inp.source (groupNode g span children).1 (word inp.source t :: (inner ++ [word inp.source c])) := by
  obtain ⟨last, outside⟩ := text_of_closing closes closer
  have group {k : Node.Kind} (component : k.isComponent = true) (solid : Prune.isSolid k = true)
      (brackets : Brackets k (word inp.source t) (word inp.source c)) :
      Says inp.source (.node k span children) (word inp.source t :: (inner ++ [word inp.source c])) :=
    ⟨bounds_group component solid closes, text, .inr ⟨_, inner, _, rfl, brackets, said⟩⟩
  have block (first : (word inp.source t).text = [g.openChar]) (inside : t.kind.joinsBehind = false)
      (same : closerOf g.openChar = g.closeChar) :
      Brackets (.simpleBlock g.openChar) (word inp.source t) (word inp.source c) :=
    ⟨rfl, inside, outside, fun pieces => by simp [layout, first, last, same]⟩
  cases k : t.kind <;> rw [k] at opens <;> cases opens
  case function name =>
    have first : (word inp.source t).text = name.toList ++ ['('] := opener.function name k
    unfold groupNode
    simp only
    split
    next => exact ⟨bounds_group rfl rfl closes, text, .inl rfl⟩
    next =>
      refine group rfl rfl ⟨rfl, ?_, outside, fun pieces => ?_⟩
      · simp [word, k, Token.Kind.joinsBehind, Token.Kind.closer?]
      · simp [layout, first, last, Group.closeChar]
  all_goals
    refine group rfl rfl (block (opener.sign _ ?_) ?_ rfl)
    · show t.kind.sign? = _
      rw [k]
      rfl
    · rw [k]
      rfl

end

/-! ## Values and lists of values -/

/-- What `component` and `componentList` say with the given fuel. -/
structure ComponentsSay (inp : Input) (tokens : List Token) (fuel : Nat) : Prop where
  one : ∀ st a, Ready inp.source tokens st a → st.nextKind ≠ .eof → 2 * st.rest.length ≤ fuel →
    Phrases inp st [(component inp fuel st).1] (component inp fuel st).2
  many : ∀ stop st a, Ready inp.source tokens st a → 2 * st.rest.length + 1 ≤ fuel →
    Phrases inp st (componentList inp stop fuel st).1 (componentList inp stop fuel st).2

section

variable {fuel : Nat} (spelt : ∀ t ∈ tokens, (word inp.source t).Spelt)

include spelt

theorem ComponentsSay.component_succ (ih : ComponentsSay inp tokens fuel) (h : Ready inp.source tokens st a)
    (more : st.nextKind ≠ .eof) (enough : 2 * st.rest.length ≤ fuel + 1) :
    Phrases inp st [(component inp (fuel + 1) st).1] (component inp (fuel + 1) st).2 := by
  obtain ⟨t, ts, e, kind⟩ := rest_of_nextKind more
  cases group : Group.of? t.kind with
  | none =>
    rw [component_of_rest fuel e group]
    exact h.leaf_phrases e (kind ▸ more) group
  | some g =>
    have step := h.advance e
    rw [component.eq_def]
    simp only [e, group]
    split
    next =>
      have reads := step.report (.tooDeep t.span)
      obtain ⟨_, _, passes, -⟩ := reads.ready.skipNested (reads.started (.inl (by simp)))
      intro none
      cases passes.clean none
    next =>
      have entered := step.enter ⟨g.construct, t.span⟩
      have stepped : (st.advance.enter ⟨g.construct, t.span⟩).rest = ts := by
        simp [State.enter, State.advance_of_rest e]
      have within : 2 * (st.advance.enter ⟨g.construct, t.span⟩).rest.length + 1 ≤ fuel := by
        rw [stepped]
        rw [e, List.length_cons] at enough
        omega
      have inside := ih.many g.endsAt _ _ entered.ready within
      generalize componentList inp g.endsAt fuel (st.advance.enter ⟨g.construct, t.span⟩) = read at inside ⊢
      intro none
      obtain ⟨c, ts', e', closes, closed⟩ := closeGroup_clean inp none
      rw [closed, State.advance_of_rest e'] at none ⊢
      obtain ⟨used, took, sound, said⟩ := inside none
      rw [stepped, e'] at took
      have all : st.rest = (t :: (used ++ [c])) ++ ts' := by
        rw [e, took]
        simp
      have tiles := h.tiles
      rw [all] at tiles
      have text := Tiles.slice (t := c) tiles h.boundary (by rw [← List.cons_append, List.getLast?_concat])
      rw [← Tiles.start_eq tiles, List.map_cons, List.map_append, List.map_singleton] at text
      have there {u : Token} (mem : u ∈ t :: (used ++ [c])) : u ∈ tokens := by
        apply h.suffix.subset
        rw [all]
        exact List.mem_append_left _ mem
      refine ⟨t :: (used ++ [c]), all, ?_, ?_⟩
      · simp only [List.mem_cons, List.mem_append, List.not_mem_nil, or_false]
        rintro u (rfl | mem | rfl)
        · constructor
          · exact fun k => by simp [k, Group.of?] at group
          · exact fun f k => by simp [k, Group.of?] at group
        · exact sound u mem
        · constructor
          · exact fun k => by simp [k, Token.Kind.closing?] at closes
          · exact fun f k => by simp [k, Token.Kind.closing?] at closes
      · rw [List.map_cons, List.map_append, List.map_singleton]
        exact (says_groupNode group closes (spelt t (there (by simp))) (spelt c (there (by simp))) said text).single

omit spelt in
theorem ComponentsSay.componentList_succ (ih : ComponentsSay inp tokens fuel) (stop : Token.Kind → Bool)
    (h : Ready inp.source tokens st a) (enough : 2 * st.rest.length + 1 ≤ fuel + 1) :
    Phrases inp st (componentList inp stop (fuel + 1) st).1 (componentList inp stop (fuel + 1) st).2 := by
  rw [componentList.eq_def]
  simp only
  split
  next => exact .nil st
  next more =>
    have next : st.nextKind ≠ .eof := by simp_all
    obtain ⟨t, ts, e, -⟩ := rest_of_nextKind next
    have some : st.rest ≠ [] := by simp [e]
    obtain ⟨used, b, took, reads, -⟩ := (componentsRead inp tokens fuel).one st a h some (by omega)
    have shorter := reads.length
    have := List.length_pos_iff.2 took
    have within : 2 * (component inp fuel st).2.rest.length + 1 ≤ fuel := by omega
    obtain ⟨_, _, later, -⟩ := (componentsRead inp tokens fuel).many stop _ _ reads.ready within
    exact (ih.one st a h next (by omega)).append (ih.many stop _ b reads.ready within) later.clean

theorem componentsSay (fuel : Nat) : ComponentsSay inp tokens fuel := by
  induction fuel with
  | zero =>
    constructor
    · intro st a _ more enough
      obtain ⟨t, ts, e, -⟩ := rest_of_nextKind more
      simp [e] at enough
    · intro stop st a _ enough
      omega
  | succ fuel ih =>
    exact ⟨fun _ _ h more enough => ih.component_succ spelt h more enough,
      fun stop _ _ h enough => ih.componentList_succ stop h enough⟩

/-- Component values say the words of the tokens that they were read from. -/
theorem Ready.components_say (h : Ready inp.source tokens st a) (stop : Token.Kind → Bool) :
    Phrases inp st (Grammar.components inp stop st).1 (Grammar.components inp stop st).2 :=
  (componentsSay spelt _).many stop st a h (Nat.le_refl _)

end

end AboveFold.Grammar
