import AboveFold.Proofs.Grammar.EntryUses
import AboveFold.Proofs.Grammar.Levels
import AboveFold.Proofs.Grammar.Nesting
import Mathlib.Data.List.Forall2

/-!
# The flag of a declaration

Whether a declaration is `!important` shows in the tokens between its colon and its end. Of those that stand outside of
all groups the last are a `!` and the word, with blanks and comments between the two, and with nothing but blanks behind
them (`EndsImportant`). The value is what was read from the tokens before. So it is for every declaration of a stylesheet
(`Input.read_flags`).
-/

namespace AboveFold.Token
open Text Source

theorem eq_of_lexeme_delim {c d : Char} {cs : List Char} {n : Nat} (reads : lexeme c cs = (.delim d, n)) :
    c = d ∧ n = 1 := by
  have begins := begins_lexeme c cs
  rw [reads] at begins
  generalize e : (Kind.delim d, n) = read at begins
  cases begins with
  | delim => exact ⟨(Kind.delim.inj (congrArg Prod.fst e)).symm, congrArg Prod.snd e⟩
  | string => rcases stringLexeme_kind c cs with ⟨_, k⟩ | ⟨_, k⟩ <;> (rw [← e] at k; cases k)
  | name => rcases identLexeme_kind (c :: cs) with ⟨_, k⟩ | ⟨_, k⟩ | ⟨_, k⟩ | ⟨_, k⟩ <;> (rw [← e] at k; cases k)
  | comment => rcases commentLexeme_kind cs.tail with ⟨_, k⟩ | ⟨_, k⟩ <;> (rw [← e] at k; cases k)
  | sign sign => obtain ⟨rfl, -⟩ := Prod.mk.inj e; cases sign
  | _ => cases congrArg Prod.fst e

/-- The first character of a token that is no end of input, and what it is read as. -/
theorem Spells.head {source : String} {tokens : List Token} {t : Token} (spells : Spells source tokens) (mem : t ∈ tokens)
    (more : t.kind ≠ .eof) :
    ∃ c xs r, t.span.bytes.slice source = some (String.ofList (c :: xs))
      ∧ lexeme c (xs ++ r) = (t.kind, xs.length + 1) := by
  obtain ⟨before, rest, rfl⟩ := List.append_of_mem mem
  have suffix : [t] ++ rest <:+ before ++ t :: rest := List.suffix_append before (t :: rest)
  obtain ⟨vs, ⟨c, xs, text, reads⟩, -⟩ := spells.stands suffix (by simpa using more)
  refine ⟨c, xs, _, ?_, reads⟩
  have some : t.span.bytes.slice source ≠ none := by
    intro none
    simp [word, none] at text
  obtain ⟨s, e⟩ := Option.ne_none_iff_exists'.1 some
  rw [e, ← show s.toList = c :: xs by simpa [word, e] using text, String.ofList_toList]

/-- A text that starts where a token does and is a `!` is that token. -/
theorem Spells.delim_of_slice {source : String} {tokens : List Token} {t : Token} {stop : Nat}
    (spells : Spells source tokens) (mem : t ∈ tokens) (more : t.kind ≠ .eof)
    (bang : ByteSpan.slice ⟨t.start, stop⟩ source = some (String.ofList ['!'])) : t.kind = .delim '!' := by
  obtain ⟨c, xs, r, text, reads⟩ := spells.head mem more
  obtain ⟨before, after, e, start, -⟩ := ByteSpan.slice_eq_some text
  obtain ⟨before', after', e', start', -⟩ := ByteSpan.slice_eq_some bang
  have same : byteSize before = byteSize before' := start.trans start'.symm
  rw [e, List.append_assoc, List.append_assoc] at e'
  obtain ⟨gap, rfl, rest⟩ := exists_append_of_byteSize_le e' (Nat.le_of_eq same)
  obtain rfl : gap = [] := by
    cases gap with
    | nil => rfl
    | cons d gap =>
      have := d.utf8Size_pos
      simp only [byteSize_append, byteSize] at same
      omega
  obtain rfl : c = '!' := by simpa using congrArg List.head? rest
  exact congrArg Prod.fst (reads.symm.trans (rfl : lexeme '!' (xs ++ r) = (.delim '!', 1)))

end AboveFold.Token

namespace AboveFold.Grammar
open Source Node Parsed Token

variable {inp : Input} {tokens : List Token} {st : State} {a : Nat} {t : Token} {ts heads front rest : List Token}
  {p : Parsed} {ps atoms kept : List Parsed} {property : String}

/-! ## Values and the tokens that they begin with -/

/-- A value is what the token at its front is, as far as that is trivia or an identifier. -/
theorem Headed.kind (h : Headed inp t p) : p.isWhitespace = decide (t.kind = .whitespace)
    ∧ p.kind.isTrivia = t.kind.isTrivia ∧ p.kind.ident? = t.kind.ident? := by
  have group {g : Group} (opens : Group.of? t.kind = some g) :
      t.kind ≠ .whitespace ∧ t.kind.isTrivia = false ∧ t.kind.ident? = none := by
    cases k : t.kind <;> rw [k] at opens <;> first | exact ⟨by simp, rfl, rfl⟩ | cases opens
  cases h with
  | leaf =>
    refine ⟨?_, leafKind_spec inp t⟩
    show (leafKind inp t).isWhitespace = _
    unfold leafKind stringLiteral
    repeat' split
    all_goals simp_all [Node.Kind.isWhitespace]
  | @group g opens stop children =>
    obtain ⟨solid, trivia, ident⟩ := group opens
    rw [trivia, ident, decide_eq_false solid]
    unfold groupNode
    repeat' split
    all_goals exact ⟨rfl, rfl, rfl⟩
  | deep opens =>
    obtain ⟨solid, trivia, ident⟩ := group opens
    rw [trivia, ident, decide_eq_false solid]
    exact ⟨rfl, rfl, rfl⟩

theorem Headed.ident_iff (h : Headed inp t p) {name : String} : p.kind = .ident name ↔ t.kind = .ident name := by
  have node : p.kind.ident? = some name ↔ p.kind = .ident name := by
    cases p.kind <;> simp [Node.Kind.ident?]
  have token : t.kind.ident? = some name ↔ t.kind = .ident name := by
    cases t.kind <;> simp [Token.Kind.ident?]
  rw [← node, h.kind.2.2, token]

/-- A value is a `!` if the token at its front is. -/
theorem Headed.bang_iff (h : Headed inp t p) (spells : Spells inp.source tokens) (mem : t ∈ tokens)
    (more : t.kind ≠ .eof) : p.kind = .other "!" ↔ t.kind = .delim '!' := by
  constructor
  · intro bang
    have starts {stop : Nat} (e : inp.slice ⟨t.start, stop⟩ = "!") : t.kind = .delim '!' := by
      refine spells.delim_of_slice mem more (?_ : ByteSpan.slice ⟨t.start, stop⟩ inp.source = some "!")
      unfold Input.slice at e
      cases cut : ByteSpan.slice ⟨t.start, stop⟩ inp.source with
      | none =>
        rw [cut] at e
        exact absurd e (by decide)
      | some text =>
        rw [cut] at e
        exact congrArg some e
    cases h with
    | leaf =>
      have bang : leafKind inp t = .other "!" := bang
      unfold leafKind stringLiteral at bang
      repeat' split at bang
      all_goals first | cases bang | exact starts (Node.Kind.other.inj bang)
    | group opens =>
      unfold groupNode at bang
      repeat' split at bang
      all_goals cases bang
    | deep opens stop => exact starts (Node.Kind.other.inj bang)
  · intro bang
    obtain ⟨c, xs, r, text, reads⟩ := spells.head mem more
    obtain ⟨rfl, one⟩ := eq_of_lexeme_delim (reads.trans (congrArg (·, xs.length + 1) bang))
    obtain rfl : xs = [] := List.eq_nil_of_length_eq_zero (Nat.succ.inj one)
    cases h with
    | leaf =>
      show leafKind inp t = .other "!"
      simp only [leafKind, bang, Input.slice, text]
      rfl
    | group opens | deep opens => rw [bang] at opens; cases opens

/-! ## The mark at the end of a value -/

section

variable {α β : Type} {R : α → β → Prop} {xs : List α} {ys : List β}

theorem forall_of_forall₂ {P : α → Prop} {Q : β → Prop} (related : List.Forall₂ R xs ys) (all : ∀ y ∈ ys, Q y)
    (step : ∀ x y, R x y → Q y → P x) : ∀ x ∈ xs, P x := by
  induction related with
  | nil => simp
  | cons r _ ih =>
    rw [List.forall_mem_cons] at all ⊢
    exact ⟨step _ _ r all.1, ih all.2⟩

/-- What is related to a list with two elements marked has these marked too. -/
theorem exists_marked {front gap trail : List β} {b w : β}
    (related : List.Forall₂ R xs (front ++ b :: (gap ++ w :: trail))) : ∃ front' b' gap' w' trail',
      xs = front' ++ b' :: (gap' ++ w' :: trail') ∧ List.Forall₂ R front' front ∧ R b' b ∧ List.Forall₂ R gap' gap
        ∧ R w' w ∧ List.Forall₂ R trail' trail := by
  have first := List.forall₂_take_append xs front _ related
  obtain ⟨b', more, bang, rest, e⟩ := List.forall₂_cons_right_iff.1 (List.forall₂_drop_append xs front _ related)
  have second := List.forall₂_take_append more gap _ rest
  obtain ⟨w', trail', word, last, e'⟩ := List.forall₂_cons_right_iff.1 (List.forall₂_drop_append more gap _ rest)
  refine ⟨_, b', _, w', trail', ?_, first, bang, second, word, last⟩
  rw [← e', List.take_append_drop, ← e, List.take_append_drop]

end

/-- Behind `front` stand a `!` and the word `important`, with blanks and comments between the two and blanks behind
them. -/
def EndsImportant (front heads : List Token) : Prop :=
  ∃ bang gap word trail, heads = front ++ bang :: (gap ++ word :: trail) ∧ bang.kind = .delim '!'
    ∧ (∀ t ∈ gap, t.kind.isTrivia) ∧ (∃ name, word.kind = .ident name ∧ Text.eqIgnoreCase name "important")
    ∧ ∀ t ∈ trail, t.kind = .whitespace

/-- What was read of a value that begins with these tokens: all of it, or what stands before the mark. -/
inductive ValueRead (inp : Input) (heads : List Token) : Bool → List Parsed → Prop where
  | plain (none : ∀ front, ¬EndsImportant front heads) {ps : List Parsed} (read : List.Forall₂ (Headed inp) heads ps) :
      ValueRead inp heads false (trim ps)
  | important {front : List Token} (ends : EndsImportant front heads) {ps : List Parsed}
      (read : List.Forall₂ (Headed inp) front ps) : ValueRead inp heads true (trim ps)

theorem ValueRead.important_iff {important : Bool} (h : ValueRead inp heads important ps) :
    important = true ↔ ∃ front, EndsImportant front heads := by
  cases h with
  | plain none => exact iff_of_false Bool.false_ne_true fun ⟨front, ends⟩ => none front ends
  | important ends => exact iff_of_true rfl ⟨_, ends⟩

theorem trim_append_of_white {lead : List Parsed} (white : ∀ p ∈ lead, p.isWhitespace = true) (ps : List Parsed) :
    trim (lead ++ ps) = trim ps := by
  rw [trim, List.dropWhile_append_of_pos white]
  rfl

/-- The values of a mark at the end are found, and what stands before them is kept. -/
theorem importantAt?_trim {i : Nat} (e : importantAt? (trim atoms) = some i) :
    ∃ front bang gap word trail, atoms = front ++ bang :: (gap ++ word :: trail) ∧ bang.kind = .other "!"
      ∧ (∀ p ∈ gap, p.kind.isTrivia) ∧ (∃ name, word.kind = .ident name ∧ Text.eqIgnoreCase name "important")
      ∧ (∀ p ∈ trail, p.isWhitespace) ∧ trim ((trim atoms).take i) = trim front := by
  obtain ⟨bang, gap, word, found, mark, trivia, ident⟩ := importantAt?_spec e
  obtain ⟨lead, trail, whole, white⟩ := exists_trim atoms
  rw [List.forall_mem_append] at white
  refine ⟨lead ++ (trim atoms).take i, bang, gap, word, trail, ?_, mark, trivia, ident, white.2,
    (trim_append_of_white white.1 _).symm⟩
  calc atoms = lead ++ ((trim atoms).take i ++ (trim atoms).drop i) ++ trail := by rw [List.take_append_drop, ← whole]
    _ = _ := by simp [found]

/-- A mark at the end is found. -/
theorem importantAt?_isSome {front gap trail : List Parsed} {bang word : Parsed}
    (whole : atoms = front ++ bang :: (gap ++ word :: trail)) (mark : bang.kind = .other "!")
    (trivia : ∀ p ∈ gap, p.kind.isTrivia)
    (ident : ∃ name, word.kind = .ident name ∧ Text.eqIgnoreCase name "important" = true)
    (white : ∀ p ∈ trail, p.isWhitespace) : importantAt? (trim atoms) ≠ none := by
  obtain ⟨name, ident, spelt⟩ := ident
  have bangSolid : bang.isWhitespace = false := by rw [isWhitespace, mark]; rfl
  have wordSolid : word.isWhitespace = false := by rw [isWhitespace, ident]; rfl
  have first : atoms.dropWhile isWhitespace = front.dropWhile isWhitespace ++ bang :: (gap ++ word :: trail) := by
    rw [whole, List.dropWhile_append]
    split
    next empty => rw [List.isEmpty_iff.1 empty, List.dropWhile_cons_of_neg (by simp [bangSolid]), List.nil_append]
    next => rfl
  have reversed : (trim atoms).reverse
      = word :: (gap.reverse ++ bang :: (front.dropWhile isWhitespace).reverse) := by
    have back : (front.dropWhile isWhitespace ++ bang :: (gap ++ word :: trail)).reverse
        = trail.reverse ++ word :: (gap.reverse ++ bang :: (front.dropWhile isWhitespace).reverse) := by simp
    rw [trim, List.reverse_reverse, first, back, List.dropWhile_append_of_pos (by simpa using white),
      List.dropWhile_cons_of_neg (by simp [wordSolid])]
  have between : (gap.reverse ++ bang :: (front.dropWhile isWhitespace).reverse).dropWhile (·.kind.isTrivia)
      = bang :: (front.dropWhile isWhitespace).reverse := by
    rw [List.dropWhile_append_of_pos (by simpa using trivia), List.dropWhile_cons_of_neg
      (by simp [mark, Node.Kind.isTrivia, Node.Kind.isWhitespace, Node.Kind.isComment])]
  simp [importantAt?, reversed, ident, spelt, between, mark]

section

variable (spells : Spells inp.source tokens) (solid : ∀ t ∈ heads, t ∈ tokens ∧ t.kind ≠ .eof)
  (read : List.Forall₂ (Headed inp) heads atoms)

include spells solid read

theorem valueRead_important {i : Nat} (e : importantAt? (trim atoms) = some i) :
    ValueRead inp heads true (trim ((trim atoms).take i)) := by
  obtain ⟨front, bang, gap, word, trail, rfl, mark, trivia, ⟨name, ident, spelt⟩, white, same⟩ := importantAt?_trim e
  obtain ⟨front', bang', gap', word', trail', rfl, before, bangs, between, words, behind⟩ := exists_marked read
  obtain ⟨mem, more⟩ := solid bang' (by simp)
  rw [same]
  refine .important ⟨bang', gap', word', trail', rfl, (bangs.bang_iff spells mem more).1 mark, ?_,
    ⟨name, words.ident_iff.1 ident, spelt⟩, ?_⟩ before
  · exact forall_of_forall₂ between trivia fun t p headed trivia => headed.kind.2.1 ▸ trivia
  · refine forall_of_forall₂ behind white fun t p headed white => ?_
    simpa using headed.kind.1.symm.trans white

theorem valueRead_plain (e : importantAt? (trim atoms) = none) : ValueRead inp heads false (trim atoms) := by
  refine .plain ?_ read
  rintro front ⟨bang, gap, word, trail, rfl, mark, trivia, ⟨name, ident, spelt⟩, white⟩
  obtain ⟨front', bang', gap', word', trail', whole, -, bangs, between, words, behind⟩ := exists_marked read.flip
  obtain ⟨mem, more⟩ := solid bang (by simp)
  refine importantAt?_isSome whole ((Headed.bang_iff bangs spells mem more).2 mark) ?_
    ⟨name, (Headed.ident_iff words).2 ident, spelt⟩ ?_ e
  · exact forall_of_forall₂ between trivia fun p t headed trivia => (Headed.kind headed).2.1 ▸ trivia
  · refine forall_of_forall₂ behind white fun p t headed white => ?_
    simpa [white] using (Headed.kind headed).1

/-- What a declaration's flag and value are shows in the tokens that its values begin with. -/
theorem declarationOf_reads (property : String) (start colonEnd : Nat) (st : State) :
    (declarationOf inp property start colonEnd atoms st).1.kind.isDeclaration = false
      ∨ ∃ important kept stop span, ValueRead inp heads important kept
        ∧ (declarationOf inp property start colonEnd atoms st).1
          = .node (.declaration property important) ⟨start, stop⟩ [.node .value span kept] := by
  unfold declarationOf
  cases e : importantAt? (trim atoms) with
  | none =>
    simp only [e]
    split
    next => exact .inl rfl
    next => exact .inr ⟨_, _, _, _, valueRead_plain spells solid read e, rfl⟩
  | some i =>
    simp only [e]
    split
    next => exact .inl rfl
    next => exact .inr ⟨_, _, _, _, valueRead_important spells solid read e, rfl⟩

end

/-! ## Every declaration -/

/-- A declaration at a level was read from its name, a colon and what follows up to its end, where groups may nest as deep
as they may on that level. -/
def ReadsFlag (inp : Input) (tokens : List Token) (depth : Nat) (p : Parsed) : Prop :=
  ∀ property important, p.kind = .declaration property important → ∃ before name gap colon rest span kept,
    tokens = before ++ name :: (gap ++ colon :: rest) ∧ name.kind = .ident property ∧ name.start = p.span.start
      ∧ (∀ t ∈ gap, t.kind.isTrivia) ∧ colon.kind = .colon ∧ p.children = [.node .value span kept]
      ∧ ValueRead inp (Nest.outer.survey (maxDepth - depth) endsDeclaration rest).1 important kept

theorem ReadsFlag.of_not_isDeclaration {depth : Nat} (plain : p.kind.isDeclaration = false) :
    ReadsFlag inp tokens depth p := by
  intro property important kind
  rw [kind] at plain
  cases plain

theorem Ready.declaration_readsFlag (spells : Spells inp.source tokens) (h : Ready inp.source tokens st a)
    (e : st.rest = t :: ts) (ident : t.kind = .ident property) :
    ReadsFlag inp tokens st.depth (Grammar.declaration inp t property st).1 := by
  obtain ⟨trivia, b, skip, blank⟩ := (h.advance e).ready.skipTrivia
  have level := (sameLevel_advance st).trans (sameLevel_skipTrivia _)
  obtain ⟨before, whole⟩ := h.suffix
  have gap : ts = trivia ++ st.advance.skipTrivia.rest := by
    rw [← skip.rest, State.advance_of_rest e]
  unfold Grammar.declaration
  simp only
  split
  next colon rest e' =>
    have behind : st.advance.skipTrivia.advance.rest = rest := by rw [State.advance_of_rest e']
    have depth : st.advance.skipTrivia.advance.depth = st.depth := (level.trans (sameLevel_advance _)).depth
    obtain ⟨read, -⟩ := components_survey inp endsDeclaration st.advance.skipTrivia.advance
    rw [behind, depth] at read
    have tokens' : tokens = before ++ t :: (trivia ++ ⟨.colon, colon⟩ :: rest) := by
      rw [← whole, e, gap, e']
    have solid : ∀ t ∈ (Nest.outer.survey (maxDepth - st.depth) endsDeclaration rest).1, t ∈ tokens ∧ t.kind ≠ .eof := by
      intro u mem
      obtain ⟨inside, more⟩ := Nest.of_mem_survey mem
      exact ⟨by simp [tokens', inside], more⟩
    rcases declarationOf_reads spells solid read property t.start colon.stop.offset
      (Grammar.components inp endsDeclaration st.advance.skipTrivia.advance).2 with plain | reads
    · exact .of_not_isDeclaration plain
    · obtain ⟨important, kept, stop, span, value, eq⟩ := reads
      rw [eq]
      rintro _ _ ⟨⟩
      exact ⟨before, t, trivia, _, rest, span, kept, tokens', ident, rfl, blank, rfl, rfl, value⟩
  next => exact .of_not_isDeclaration rfl

/-- **The flag of every declaration shows in the tokens behind its colon**: it is important if these end in `!important`
with nothing but blanks behind it, and its value is read from what stands before. -/
theorem Input.read_flags (inp : Input) : (inp.read (Token.tokens inp.source inp.path)).sheet.EveryAt
    (ReadsFlag inp (Token.tokens inp.source inp.path)) 0 := by
  have spells := spells_tokens inp.source inp.path
  obtain ⟨here, boundary, tiles⟩ := tiles_tokens inp.source inp.path
  have holds : HoldsWhereRead (ReadsFlag inp (Token.tokens inp.source inp.path)) inp (Token.tokens inp.source inp.path) :=
    ⟨⟨fun _ _ plain => .of_not_isDeclaration (Bool.or_eq_false_iff.1 plain).1, fun _ _ _ => .of_not_isDeclaration rfl⟩,
      fun _ _ _ _ _ ready e ident => ready.declaration_readsFlag spells e ident⟩
  exact holds.read boundary tiles

/-- A comment before the word does not matter, and one behind it hides the mark. -/
example :
    let flags (source : String) := ((Input.mk source none).read (Token.tokens source none)).sheet.nodes.map Parsed.kind
    .declaration "b" true ∈ flags "a\x7bb:c!/*x*/important\x7d"
      ∧ .declaration "b" false ∈ flags "a\x7bb:c!important/*x*/\x7d" := by
  decide +kernel

end AboveFold.Grammar
