import AboveFold.Proofs.Grammar.Shape
import AboveFold.Prune.Variables

/-!
# What component values use

A custom property is used where `var(` stands before its name. The tokens show this, and so does the
tree: a function `var` whose first argument is the name. Reading finds in the tree what the tokens use,
in the same order, unless it reports something (`Finds`). Of what a list of component values leaves out
nothing is a function, so that trimming it or dividing it at commas loses no use.
-/

namespace AboveFold

/-- The name of an identifier. -/
def Token.Kind.ident? : Token.Kind → Option String
  | .ident name => some name
  | _ => none

namespace Token

/-- The identifier that stands first, after blanks and comments. -/
def argument? (ts : List Token) : Option String :=
  (ts.find? (!·.kind.isTrivia)).bind (·.kind.ident?)

/-- The custom property that is used at the front of the tokens: there stands `var(`, in any case of its
letters, and its first argument is a name with two dashes in front. -/
def use? : List Token → Option String
  | [] => none
  | t :: ts =>
    match t.kind with
    | .function name =>
      if Text.eqIgnoreCase name "var" then (argument? ts).filter (·.startsWith "--") else none
    | _ => none

/-- The custom properties that are used anywhere in the tokens, in order. -/
def uses : List Token → List String
  | [] => []
  | t :: ts => (use? (t :: ts)).toList ++ uses ts

variable {t : Token} {ts : List Token}

theorem use?_eq_none (plain : ∀ name, t.kind ≠ .function name) (ts : List Token) : use? (t :: ts) = none := by
  simp only [use?]

/-- Tokens that open no function use nothing. -/
theorem uses_append_of_plain {us : List Token} (plain : ∀ t ∈ us, ∀ name, t.kind ≠ .function name) :
    uses (us ++ ts) = uses ts := by
  induction us with
  | nil => rfl
  | cons u us ih =>
    simp only [List.mem_cons, forall_eq_or_imp] at plain
    simp [uses, use?_eq_none plain.1, ih plain.2]

end Token

namespace Node.Kind

/-- The name of an identifier. -/
def ident? : Kind → Option String
  | ident name => some name
  | _ => none

/-- The custom property that a node uses, by the kinds of its children. -/
def use? (k : Kind) (cs : List Kind) : Option String :=
  match k with
  | function name =>
    if Text.eqIgnoreCase name "var" then
      ((cs.find? (!·.isTrivia)).bind ident?).filter (·.startsWith "--")
    else none
  | _ => none

theorem use?_eq_none {k : Kind} (plain : ∀ name, k ≠ function name) (cs : List Kind) : k.use? cs = none := by
  unfold use?
  split
  next name => exact absurd rfl (plain name)
  next => rfl

/-- Among component values only groups have children. -/
theorem Composes.eq_nil {k : Kind} {cs : List Kind} (h : k.Composes cs) (component : k.isComponent)
    (group : ∀ name, k ≠ function name) (block : ∀ c, k ≠ simpleBlock c) : cs = [] := by
  cases k <;> first | exact h | exact absurd rfl (group _) | exact absurd rfl (block _) | cases component

end Node.Kind

namespace Parsed

/-- The custom properties that are used anywhere in a tree that was read, in document order. -/
def uses (p : Parsed) : List String :=
  p.nodes.filterMap fun q => q.kind.use? (q.children.map kind)

variable {k : Node.Kind} {span : Source.ByteSpan} {p : Parsed} {ps : List Parsed}

theorem uses_node (k : Node.Kind) (span : Source.ByteSpan) (ps : List Parsed) :
    (node k span ps).uses = (k.use? (ps.map kind)).toList ++ ps.flatMap uses := by
  have all : (nodesAll ps).filterMap (fun q => q.kind.use? (q.children.map kind)) = ps.flatMap uses := by
    induction ps with
    | nil => rfl
    | cons p ps ih => simp only [nodesAll, List.filterMap_append, ih, List.flatMap_cons, uses]
  rw [uses, nodes, List.filterMap_cons, all]
  simp only [kind, children]
  cases k.use? (ps.map kind) <;> rfl

/-- Nodes other than functions use what their children use. -/
theorem uses_of_plain (plain : ∀ name, k ≠ .function name) : (node k span ps).uses = ps.flatMap uses := by
  rw [uses_node, Node.Kind.use?_eq_none plain, Option.toList_none, List.nil_append]

/-- A component value that is no group uses nothing. -/
theorem IsComponent.uses_eq_nil (h : p.IsComponent) (function : ∀ name, p.kind ≠ .function name)
    (block : ∀ c, p.kind ≠ .simpleBlock c) : p.uses = [] := by
  obtain ⟨component, formed⟩ := h
  have childless := List.map_eq_nil_iff.1 (formed.self.composes.eq_nil component function block)
  obtain ⟨k, span, ps⟩ := p
  simp only [children] at childless
  rw [uses_of_plain (k := k) function, childless, List.flatMap_nil]

theorem IsComponent.uses_of_isTrivia (h : p.IsComponent) (trivia : p.kind.isTrivia) : p.uses = [] := by
  unfold Node.Kind.isTrivia Node.Kind.isWhitespace Node.Kind.isComment at trivia
  apply h.uses_eq_nil <;> intro _ e <;> simp [e] at trivia

/-! ## Trimmed and divided lists -/

/-- A list is what is left of it after trimming, with whitespace around that. -/
theorem exists_trim (ps : List Parsed) :
    ∃ lead trail, ps = lead ++ trim ps ++ trail ∧ ∀ p ∈ lead ++ trail, p.isWhitespace :=
  Text.exists_trimBy isWhitespace ps

theorem uses_trim (all : ∀ p ∈ ps, p.IsComponent) : (trim ps).flatMap uses = ps.flatMap uses := by
  obtain ⟨lead, trail, e, white⟩ := exists_trim ps
  have nothing {p : Parsed} (mem : p ∈ lead ++ trail) : p.uses = [] := by
    apply (all p _).uses_of_isTrivia
    · have := white p mem
      simp only [isWhitespace] at this
      simp [Node.Kind.isTrivia, this]
    · rw [e]
      rcases List.mem_append.1 mem with mem | mem <;> simp [mem]
  have first : lead.flatMap uses = [] := List.flatMap_eq_nil_iff.2 fun p mem => nothing (by simp [mem])
  have last : trail.flatMap uses = [] := List.flatMap_eq_nil_iff.2 fun p mem => nothing (by simp [mem])
  calc (trim ps).flatMap uses = (lead ++ trim ps ++ trail).flatMap uses := by simp [first, last]
    _ = ps.flatMap uses := by rw [← e]

theorem uses_splitAtCommas (all : ∀ p ∈ ps, p.IsComponent) :
    (splitAtCommas ps).flatten.flatMap uses = ps.flatMap uses := by
  induction ps with
  | nil => rfl
  | cons p ps ih =>
    simp only [List.mem_cons, forall_eq_or_imp] at all
    have later := ih all.2
    unfold splitAtCommas
    split
    next comma =>
      have kind : p.kind = .comma := by simpa [isComma] using comma
      have nothing : p.uses = [] := all.1.uses_eq_nil (by simp [kind]) (by simp [kind])
      simpa [nothing] using later
    next =>
      split
      next e => simp_all
      next group groups e => simp_all

end Parsed

namespace Grammar
open Source Node Parsed

variable {inp : Input} {tokens : List Token} {st st' st'' : State} {names names' : List String}

/-! ## Steps of the state -/

/-- Reading went from `st` to `st'` and what it gave uses `names`: if nothing was reported, these are
what the tokens use that it took. -/
def Finds (st : State) (names : List String) (st' : State) : Prop :=
  st'.errors = [] → Token.uses st.rest = names ++ Token.uses st'.rest

theorem Reads.clean {source : String} {a b : Nat} {used : List Token} (h : Reads source tokens st a used st' b)
    (clean : st'.errors = []) : st.errors = [] := by
  refine List.eq_nil_iff_forall_not_mem.2 fun d mem => ?_
  simpa [clean] using h.errors d mem

theorem Finds.refl (st : State) : Finds st [] st := fun _ => rfl

theorem Finds.trans (h : Finds st names st') (h' : Finds st' names' st'')
    (clean : st''.errors = [] → st'.errors = []) : Finds st (names ++ names') st'' := by
  intro none
  rw [h (clean none), h' none, List.append_assoc]

/-- What is reported need not be found. -/
theorem Finds.of_reported {source : String} {a b : Nat} {used : List Token} {d : Diagnostic}
    (h : Reads source tokens (st'.report d) a used st'' b) : Finds st names st'' := by
  intro none
  cases h.clean none

/-- There is nothing to find among tokens that open no function. -/
theorem Finds.of_plain {source : String} {a b : Nat} {used : List Token} (h : Reads source tokens st a used st' b)
    (plain : ∀ t ∈ used, ∀ name, t.kind ≠ .function name) : Finds st [] st' := by
  intro _
  rw [h.rest, Token.uses_append_of_plain plain, List.nil_append]

/-! ## Component values -/

theorem leafKind_spec (inp : Input) (t : Token) :
    (leafKind inp t).isTrivia = t.kind.isTrivia ∧ (leafKind inp t).ident? = t.kind.ident? := by
  unfold leafKind stringLiteral
  repeat' split
  all_goals simp_all [Kind.isTrivia, Kind.isWhitespace, Kind.isComment, Kind.ident?, Token.Kind.isTrivia,
    Token.Kind.ident?]

theorem component_of_rest {t : Token} {ts : List Token} (fuel : Nat) (e : st.rest = t :: ts)
    (single : Group.of? t.kind = none) : component inp (fuel + 1) st = leaf inp t st.advance := by
  rw [component.eq_def]
  simp only [e, single]

theorem Group.of?_of_isTrivia {k : Token.Kind} (trivia : k.isTrivia) : Group.of? k = none := by
  cases k <;> first | rfl | cases trivia

/-- A component value is what its first token is, as far as that is trivia or an identifier. -/
theorem component_kind (inp : Input) {t : Token} {ts : List Token} (fuel : Nat) (e : st.rest = t :: ts) :
    (component inp (fuel + 1) st).1.kind.isTrivia = t.kind.isTrivia
      ∧ (component inp (fuel + 1) st).1.kind.ident? = t.kind.ident? := by
  cases group : Group.of? t.kind with
  | none =>
    rw [component_of_rest fuel e group, leaf_fst]
    exact leafKind_spec inp t
  | some g =>
    have token : t.kind.isTrivia = false ∧ t.kind.ident? = none := by
      cases k : t.kind <;> rw [k] at group <;> first | exact ⟨rfl, rfl⟩ | cases group
    have node (span : ByteSpan) (children : List Parsed) : (groupNode g span children).1.kind.isTrivia = false
        ∧ (groupNode g span children).1.kind.ident? = none := by
      unfold groupNode
      repeat' split
      all_goals exact ⟨rfl, rfl⟩
    rw [component.eq_def, token.1, token.2]
    simp only [e, group]
    split
    next => exact ⟨rfl, rfl⟩
    next => exact node _ _

/-- The first value of a list that is no trivia is an identifier if and only if the first such token is
one, unless a token like these ends the list. -/
theorem argument?_componentList (inp : Input) {stop : Token.Kind → Bool} (fuel : Nat)
    (ends : ∀ k, stop k → k.isTrivia = false ∧ k.ident? = none) (enough : 2 * st.rest.length + 1 ≤ fuel) :
    Token.argument? st.rest
      = (((componentList inp stop fuel st).1.map Parsed.kind).find? (!·.isTrivia)).bind Kind.ident? := by
  induction fuel generalizing st with
  | zero => omega
  | succ fuel ih =>
    rw [componentList]
    split
    next last =>
      cases e : st.rest with
      | nil => rfl
      | cons t ts =>
        rw [nextKind_of_rest e] at last
        have token : t.kind.isTrivia = false ∧ t.kind.ident? = none := by
          rcases Bool.or_eq_true _ _ ▸ last with eof | stops
          · simp_all [Token.Kind.isTrivia, Token.Kind.ident?]
          · exact ends _ stops
        simp [Token.argument?, token]
    next more =>
      have some : st.nextKind ≠ .eof := by simp_all
      obtain ⟨t, ts, e, -⟩ := rest_of_nextKind some
      obtain ⟨fuel, rfl⟩ : ∃ n, fuel = n + 1 := ⟨fuel - 1, by simp [e] at enough; omega⟩
      obtain ⟨trivia, ident⟩ := component_kind inp fuel e
      simp only [List.map_cons]
      -- the first value is passed over just when the first token is
      by_cases k : t.kind.isTrivia
      · have after : (component inp (fuel + 1) st).2.rest = ts := by
          rw [component_of_rest fuel e (Group.of?_of_isTrivia k)]
          unfold leaf
          split <;> simp [State.advance_of_rest e, State.report]
        have less : 2 * (component inp (fuel + 1) st).2.rest.length + 1 ≤ fuel + 1 := by
          rw [after]
          rw [e, List.length_cons] at enough
          omega
        have := ih less
        rw [after] at this
        simp only [e, Token.argument?, List.find?_cons, trivia, k, Bool.not_true] at this ⊢
        exact this
      · have solid : t.kind.isTrivia = false := by simpa using k
        simp [e, Token.argument?, trivia, solid, ident]

/-! ## Groups -/

theorem endsAt_spec {g : Group} {k : Token.Kind} (ends : g.endsAt k) : k.isTrivia = false ∧ k.ident? = none := by
  cases k <;> first | exact ⟨rfl, rfl⟩ | (cases g <;> cases ends)

theorem Ready.closeGroup_finds {a : Nat} (h : Ready inp.source tokens st a) (g : Group) :
    Finds st [] (closeGroup inp g st) ∧ ((closeGroup inp g st).errors = [] → st.errors = []) := by
  unfold Grammar.closeGroup
  simp only
  split
  next => constructor <;> intro none <;> cases none
  next more =>
    split
    next closes =>
      obtain ⟨t, ts, e, k⟩ := rest_of_nextKind more
      have reads := (h.advance e).leave
      refine ⟨.of_plain reads fun u mem name function => ?_, reads.clean⟩
      obtain rfl : u = t := by simpa using mem
      rw [← k, function] at closes
      cases closes
    next => constructor <;> intro none <;> cases none

/-- A url with a quoted address has nothing but that and trivia in its parentheses. -/
theorem uses_of_soleString {children : List Parsed} (all : ∀ p ∈ children, p.IsComponent)
    {sole : String × Char} (e : soleString? children = some sole) : children.flatMap uses = [] := by
  refine List.flatMap_eq_nil_iff.2 fun p mem => ?_
  cases trivia : p.kind.isTrivia with
  | true => exact (all p mem).uses_of_isTrivia trivia
  | false =>
    unfold soleString? at e
    split at e
    next q single =>
      have : p ∈ children.filter (fun p => !p.kind.isTrivia) := List.mem_filter.2 ⟨mem, by simp [trivia]⟩
      obtain rfl : p = q := by simpa [single] using this
      split at e
      next k => exact (all p mem).uses_eq_nil (by simp [k]) (by simp [k])
      next => cases e
    next => cases e

/-- A group uses what its opening token and its children use. -/
theorem uses_groupNode {t : Token} {ts : List Token} {g : Group} (span : ByteSpan) {children : List Parsed}
    (opens : Group.of? t.kind = some g) (all : ∀ p ∈ children, p.IsComponent)
    (argument : Token.argument? ts = ((children.map Parsed.kind).find? (!·.isTrivia)).bind Kind.ident?) :
    (groupNode g span children).1.uses = (Token.use? (t :: ts)).toList ++ children.flatMap uses := by
  have block (plain : ∀ name, t.kind ≠ .function name) :
      (Parsed.node (.simpleBlock g.openChar) span children).uses
        = (Token.use? (t :: ts)).toList ++ children.flatMap uses := by
    simp [uses_of_plain, Token.use?_eq_none plain]
  cases k : t.kind <;> rw [k] at opens <;> cases opens
  case function name =>
    unfold groupNode
    simp only
    split
    next url quote sole =>
      split at sole
      next named =>
        have other : Text.eqIgnoreCase name "var" = false := by
          rw [Bool.eq_false_iff]
          intro var
          have := (Text.eqIgnoreCase_iff.1 named).symm.trans (Text.eqIgnoreCase_iff.1 var)
          exact absurd this (by decide)
        rw [uses_of_soleString all sole, Parsed.leaf, uses_of_plain (by simp)]
        simp [Token.use?, k, other]
      next => cases sole
    next =>
      rw [uses_node]
      simp only [Token.use?, k, Kind.use?, argument]
  all_goals exact block (by simp [k])

/-! ## Values and lists of values -/

/-- What `component` and `componentList` find with the given fuel. -/
structure ComponentsFind (inp : Input) (tokens : List Token) (fuel : Nat) : Prop where
  one : ∀ st a, Ready inp.source tokens st a → st.rest ≠ [] → 2 * st.rest.length ≤ fuel →
    Finds st (component inp fuel st).1.uses (component inp fuel st).2
  many : ∀ stop st a, Ready inp.source tokens st a → 2 * st.rest.length + 1 ≤ fuel →
    Finds st ((componentList inp stop fuel st).1.flatMap uses) (componentList inp stop fuel st).2

section

variable {fuel a : Nat}

theorem Ready.leaf_finds {t : Token} {ts : List Token} (h : Ready inp.source tokens st a) (e : st.rest = t :: ts)
    (single : Group.of? t.kind = none) :
    Finds st (leaf inp t st.advance).1.uses (leaf inp t st.advance).2 := by
  have plain (name : String) : t.kind ≠ .function name := by
    intro k
    rw [k] at single
    cases single
  have value (name : String) : leafKind inp t ≠ .function name := by
    unfold leafKind stringLiteral
    repeat' split
    all_goals simp
  rw [leaf_fst, Parsed.leaf, uses_of_plain value, List.flatMap_nil]
  unfold leaf
  split
  next => intro none; cases none
  next => exact .of_plain (h.advance e) (by simpa using plain)

theorem ComponentsFind.component_succ (ih : ComponentsFind inp tokens fuel) (h : Ready inp.source tokens st a)
    (rest : st.rest ≠ []) (enough : 2 * st.rest.length ≤ fuel + 1) :
    Finds st (component inp (fuel + 1) st).1.uses (component inp (fuel + 1) st).2 := by
  obtain ⟨t, ts, e⟩ := List.exists_cons_of_ne_nil rest
  cases group : Group.of? t.kind with
  | none =>
    rw [component_of_rest fuel e group]
    exact h.leaf_finds e group
  | some g =>
    have step := h.advance e
    rw [component.eq_def]
    simp only [e, group]
    split
    next =>
      have reads := step.report (.tooDeep t.span)
      obtain ⟨_, _, passes, -⟩ := reads.ready.skipNested (reads.started (.inl (by simp)))
      exact .of_reported passes
    next =>
      have entered := step.enter ⟨g.construct, t.span⟩
      have stepped : (st.advance.enter ⟨g.construct, t.span⟩).rest = ts := by
        simp [State.enter, State.advance_of_rest e]
      have within : 2 * (st.advance.enter ⟨g.construct, t.span⟩).rest.length + 1 ≤ fuel := by
        rw [stepped]
        rw [e, List.length_cons] at enough
        omega
      have children := (componentsFormed inp fuel).many g.endsAt (st.advance.enter ⟨g.construct, t.span⟩)
      have argument := argument?_componentList inp fuel (fun _ => endsAt_spec (g := g)) within
      have inside := ih.many g.endsAt _ _ entered.ready within
      obtain ⟨_, _, reads, -⟩ := (componentsRead inp tokens fuel).many g.endsAt _ _ entered.ready within
      obtain ⟨closed, clean⟩ := reads.ready.closeGroup_finds g
      have found := inside.trans closed clean
      rw [stepped] at argument
      intro none
      have later := found none
      rw [stepped] at later
      rw [uses_groupNode _ group children argument, e, Token.uses, later]
      simp [State.discard]

theorem ComponentsFind.componentList_succ (ih : ComponentsFind inp tokens fuel) (stop : Token.Kind → Bool)
    (h : Ready inp.source tokens st a) (enough : 2 * st.rest.length + 1 ≤ fuel + 1) :
    Finds st ((componentList inp stop (fuel + 1) st).1.flatMap uses) (componentList inp stop (fuel + 1) st).2 := by
  rw [componentList.eq_def]
  simp only
  split
  next => exact .refl st
  next more =>
    have next : st.nextKind ≠ .eof := by simp_all
    obtain ⟨t, ts, e, -⟩ := rest_of_nextKind next
    have some : st.rest ≠ [] := by simp [e]
    obtain ⟨used, b, took, reads, -⟩ := (componentsRead inp tokens fuel).one st a h some (by omega)
    have shorter := reads.length
    have := List.length_pos_iff.2 took
    have within : 2 * (component inp fuel st).2.rest.length + 1 ≤ fuel := by omega
    obtain ⟨_, _, later, -⟩ := (componentsRead inp tokens fuel).many stop _ _ reads.ready within
    exact (ih.one st a h some (by omega)).trans (ih.many stop _ b reads.ready within) later.clean

theorem componentsFind (inp : Input) (tokens : List Token) (fuel : Nat) : ComponentsFind inp tokens fuel := by
  induction fuel with
  | zero =>
    constructor
    · intro st a _ rest enough
      have := List.length_pos_iff.2 rest
      omega
    · intro stop st a _ enough
      omega
  | succ fuel ih =>
    exact ⟨fun _ _ h rest enough => ih.component_succ h rest enough,
      fun stop _ _ h enough => ih.componentList_succ stop h enough⟩

/-- Component values use what the tokens use that they were read from. -/
theorem Ready.components_find (h : Ready inp.source tokens st a) (stop : Token.Kind → Bool) :
    Finds st ((Grammar.components inp stop st).1.flatMap uses) (Grammar.components inp stop st).2 :=
  (componentsFind inp tokens _).many stop st a h (Nat.le_refl _)

end

end Grammar

end AboveFold
