import AboveFold.Proofs.Grammar.Listing

/-!
# Lists that lost entries

What is left of a list after pruning is written anew where something went, and as it was read elsewhere. Both together
are the words of a list again, and its entries are the branches that are left (`Entries.pare`). Each kind of entry stays
one whatever comes behind it (`Stays`), as long as a semicolon stands behind a declaration.
-/

namespace AboveFold.Grammar
open Source Node Token Item Branch
open Parsed hiding trim

/-- What a list at `place` holds, as the contents of a block. -/
def Place.contents : Place → Contents
  | .declarations => .declarations
  | .topLevel | .rules => .rules

/-- Among and below the branches there is no comment, and nothing that says nothing any more. -/
structure Settled (bs : List Branch) : Prop where
  solid : ∀ b ∈ preorderAll bs, b.kind.isComment = false
  full : ∀ b ∈ preorderAll bs, b.isEmptied = false

/-- What is among and below the branches may move: a selector to the front of its list, the name of an at-rule before a
space. -/
structure Movable (source : String) (bs : List Branch) : Prop where
  selects : ∀ b ∈ preorderAll bs, b.kind.isSelector = true → Selects (written (b.render (some source)).toList)
  shut : ∀ b ∈ preorderAll bs, ∀ name ∈ b.kind.atRuleName?, endsOpen 0 name.toList = false

instance (source : String) (bs : List Branch) : Decidable (Movable source bs) :=
  decidable_of_iff ((∀ b ∈ preorderAll bs, b.kind.isSelector = true → Selects (written (b.render (some source)).toList))
      ∧ ∀ b ∈ preorderAll bs, ∀ name ∈ b.kind.atRuleName?, endsOpen 0 name.toList = false)
    ⟨fun ⟨selects, shut⟩ => ⟨selects, shut⟩, fun ⟨selects, shut⟩ => ⟨selects, shut⟩⟩

/-- The words `ws` are written for the entries `bs` that a block goes on with; `pending` says that the entry before these
needs a semicolon. -/
structure WritesEntries (source : String) (place : Place) (room : Nat) (pending : Bool) (ws : List Written)
    (bs : List Branch) : Prop where
  entries : Entries source place room ws bs
  stands : Stands (ws ++ [.unbrace])
  text : Piece.entries place.contents pending (renderAll (some source) bs) = String.ofList (textOf ws)
  first : pending = true → ∀ w ∈ ws.head?, w = .semicolon

/-- The branch is an entry that is written as the words `vs`, whatever comes behind it. -/
structure Stays (source : String) (place : Place) (room : Nat) (b : Branch) (vs : List Written) : Prop where
  shown : b.Writes source vs
  enters : ∀ ws bs, Entries source place room ws bs →
    (Piece.endsOpen place.contents b.kind = true → ∀ w ∈ ws.head?, w = .semicolon) →
      Entries source place room (vs ++ ws) (b :: bs)
  stands : ∀ ws, Stands (ws ++ [.unbrace]) →
    (Piece.endsOpen place.contents b.kind = true → ∀ w ∈ ws.head?, w = .semicolon) → Stands (vs ++ (ws ++ [.unbrace]))

/-- What is left of the entries `bs`, which have the words `ws`, are the entries of a list again. -/
def StaysEntries (source : String) (place : Place) (room : Nat) (ws : List Written) (bs : List Branch) : Prop :=
  ∀ (pending t : Bool) (bs' : List Branch), Stands (ws ++ [.unbrace]) → Pares bs t bs' →
    (pending = true → place = .declarations) → Settled bs' → Movable source bs →
    ∃ vs, WritesEntries source place room pending vs bs'

variable {source name property : String} {place : Place} {room : Nat} {pending t : Bool} {w : Written}
  {ws vs us : List Written} {b l : Branch} {bs bs' cs cs' : List Branch} {n m : Node} {items : List Item}
  {keyword : Written} {inner : List Written} {contents : Contents}

theorem Settled.of_subset (h : Settled bs) (sub : preorderAll cs ⊆ preorderAll bs) : Settled cs :=
  ⟨fun c mem => h.solid c (sub mem), fun c mem => h.full c (sub mem)⟩

theorem Settled.tail (h : Settled (b :: bs)) : Settled bs := h.of_subset (by simp)

theorem Settled.head (h : Settled (b :: bs)) : Settled [b] := h.of_subset (by simp)

theorem Settled.of_below (h : Settled [.mk n cs]) : Settled cs := h.of_subset fun c mem => by simp [mem_preorder, mem]

theorem Movable.of_subset (h : Movable source bs) (sub : preorderAll cs ⊆ preorderAll bs) : Movable source cs :=
  ⟨fun c mem => h.selects c (sub mem), fun c mem => h.shut c (sub mem)⟩

theorem place_of_endsOpen {k : Node.Kind} (needs : Piece.endsOpen place.contents k = true) : place = .declarations := by
  cases place <;> first | rfl | cases needs

theorem IsDeclaration.proper {trivia : List Written} (d : IsDeclaration source room property w trivia items b) :
    ∀ v ∈ w :: trivia ++ .colon :: wordsOf items, v.Proper := by
  simp only [List.cons_append, List.forall_mem_cons, List.forall_mem_append]
  refine ⟨.of_kind d.named rfl, fun v mem => ?_, .of_kind rfl rfl, d.phrase.proper⟩
  have trivia := d.trivial v mem
  constructor
  · intro eof
    rw [eof] at trivia
    cases trivia
  · intro f fault
    rw [fault] at trivia
    cases trivia

theorem IsStatement.proper {stop : List Written} (s : IsStatement source room name keyword items stop b)
    (ends : stop = [.semicolon] ∨ stop = []) : ∀ v ∈ keyword :: wordsOf items ++ stop, v.Proper := by
  simp only [List.cons_append, List.forall_mem_cons, List.forall_mem_append]
  refine ⟨.of_kind s.named rfl, s.phrase.proper, ?_⟩
  rcases ends with rfl | rfl
  · simpa using .of_kind rfl rfl
  · simp

theorem proper_block (inside : ∀ w ∈ inner, w.Proper) : ∀ w ∈ .brace :: (inner ++ [.unbrace]), w.Proper := by
  simp only [List.forall_mem_cons, List.forall_mem_append, List.not_mem_nil]
  exact ⟨.of_kind rfl rfl, inside, .of_kind rfl rfl, by simp⟩

/-- The words of a list are neither faults nor the end of input. -/
theorem Entries.proper (h : Entries source place room ws bs) : ∀ w ∈ ws, w.Proper := by
  induction h with
  | nil => simp
  | separator skips rest ih =>
    refine List.forall_mem_cons.2 ⟨⟨fun eof => ?_, fun f fault => ?_⟩, ih⟩
    · simp [entryAt, entryOf, kind_token, eof] at skips
    · simp [entryAt, entryOf, kind_token, fault] at skips
  | comment kind outline shown rest ih => exact List.forall_mem_cons.2 ⟨.of_kind kind rfl, ih⟩
  | declaration d blank ends rest ih =>
    have blanks := fun w mem => Written.Proper.of_kind (blank w mem) rfl
    exact List.forall_mem_append.2 ⟨d.proper, List.forall_mem_append.2 ⟨blanks, ih⟩⟩
  | statement s ends rest ih =>
    exact List.forall_mem_append.2 ⟨s.proper (ends.imp_right And.left), ih⟩
  | atRule head inside block shown rest ihInside ih =>
    rw [List.cons_append, List.cons_append, List.forall_mem_cons, List.forall_mem_append, List.forall_mem_append]
    exact ⟨.of_kind head.named rfl, ⟨head.phrase.proper, proper_block ihInside⟩, ih⟩
  | rule head inside block shown rest ihInside ih =>
    exact List.forall_mem_append.2 ⟨List.forall_mem_append.2 ⟨head.phrase.proper, proper_block ihInside⟩, ih⟩

theorem Entries.sound (h : Entries source place room ws bs) : ∀ w ∈ ws, ∀ f, w.kind ≠ .fault f :=
  fun w mem => (h.proper w mem).2

/-! ## Written entries -/

theorem WritesEntries.nil (source : String) (place : Place) (room : Nat) (pending : Bool) :
    WritesEntries source place room pending [] [] :=
  ⟨.nil place room, stands_unbrace, rfl, by simp⟩

/-- Entries are written behind a semicolon, if the one before them needs it. -/
theorem WritesEntries.pend (h : WritesEntries source place room false ws (b :: bs)) (solid : b.kind.isComment = false)
    (pends : pending = true → place = .declarations) : ∃ us, WritesEntries source place room pending us (b :: bs) := by
  cases pending with
  | false => exact ⟨ws, h⟩
  | true =>
    obtain rfl := pends rfl
    obtain ⟨entries, stands, text, -⟩ := h
    refine ⟨.semicolon :: ws, .separator rfl entries, ?_, ?_, by simp⟩
    · exact stands_semicolon.sign_cons rfl stands
    · rw [renderAll, Piece.entries, if_neg (by simp [solid])] at text ⊢
      rw [textOf_cons, String.ofList_append, ← text]
      simp [Written.semicolon, String.append_assoc]

/-- An entry is written before others. -/
theorem WritesEntries.cons (pends : pending = true → place = .declarations) (solid : b.kind.isComment = false)
    (stays : Stays source place room b vs)
    (rest : WritesEntries source place room (Piece.endsOpen place.contents b.kind) ws bs) :
    ∃ us, WritesEntries source place room pending us (b :: bs) := by
  have stands := stays.stands ws rest.stands rest.first
  rw [← List.append_assoc] at stands
  refine WritesEntries.pend ⟨stays.enters ws bs rest.entries rest.first, stands, ?_, by simp⟩ solid pends
  rw [renderAll, Piece.entries, if_neg (by simp [solid]), rest.text, stays.shown, textOf_append, String.ofList_append]
  simp

/-- What is left of a list is an entry or what is left of it, if not nothing, and what is left behind it. -/
theorem StaysEntries.cons (rest : StaysEntries source place room ws bs) (behind : ws <:+ us)
    (same : Stands (us ++ [.unbrace]) → b.kind.isComment = false → ∃ vs, Stays source place room b vs)
    (mark : ∀ n cs cs', b = .mk n cs → n.kind.isClosed = false → Pares cs true cs' → Stands (us ++ [.unbrace]) →
      Settled [.mk { n with modified := true } cs'] → Movable source [b] →
      ∃ vs, Stays source place room (.mk { n with modified := true } cs') vs) :
    StaysEntries source place room us (b :: bs) := by
  intro pending t bs' stands pares pends settled movable
  have later : Stands (ws ++ [.unbrace]) := by
    obtain ⟨front, rfl⟩ := behind
    rw [List.append_assoc] at stands
    exact stands.right
  have movable' : Movable source bs := movable.of_subset (by simp)
  have first : Movable source [b] := movable.of_subset (by simp)
  cases pares with
  | same _ left =>
    have solid := settled.solid b (mem_preorderAll_of_mem (by simp))
    obtain ⟨vs, stays⟩ := same stands solid
    obtain ⟨ws, written⟩ := rest _ _ _ later left place_of_endsOpen settled.tail movable'
    exact written.cons pends solid stays
  | drop _ left => exact rest _ _ _ later left pends settled movable'
  | mark holder below left =>
    have solid := settled.solid _ (mem_preorderAll_of_mem List.mem_cons_self)
    obtain ⟨vs, stays⟩ := mark _ _ _ rfl holder below stands settled.head first
    obtain ⟨ws, written⟩ := rest _ _ _ later left place_of_endsOpen settled.tail movable'
    exact written.cons pends solid stays

theorem StaysEntries.nil (source : String) (place : Place) (room : Nat) : StaysEntries source place room [] [] := by
  intro pending t bs' _ pares _ _ _
  cases pares
  exact ⟨[], .nil source place room pending⟩

theorem StaysEntries.separator (rest : StaysEntries source place room ws bs) :
    StaysEntries source place room (w :: ws) bs :=
  fun pending t bs' stands pares => rest pending t bs' stands.tail pares

theorem StaysEntries.comment {text : String} (rest : StaysEntries source place room ws bs) (kind : b.kind = .comment text) :
    StaysEntries source place room (w :: ws) (b :: bs) := by
  refine rest.cons (List.suffix_cons w ws) (fun _ solid => ?_) fun n cs cs' e holder => ?_
  · rw [kind] at solid
    cases solid
  · have closed : b.kind.isClosed = true := by rw [kind]; rfl
    subst e
    exact absurd (closed.symm.trans holder) (by simp)

/-! ## Declarations and statements -/

/-- Entries of which the last word is a sign stand before any others. -/
theorem Stays.of_sign {v : Written} {c : Char} (shown : b.Writes source (vs ++ [v])) (stands : Stands (vs ++ [v]))
    (sound : ∀ w ∈ vs, ∀ f, w.kind ≠ .fault f) (sign : v.kind.sign? = some c)
    (enters : ∀ ws bs, Entries source place room ws bs → Entries source place room (vs ++ [v] ++ ws) (b :: bs)) :
    Stays source place room b (vs ++ [v]) where
  shown := shown
  enters ws bs rest _ := enters ws bs rest
  stands ws rest _ := by
    rw [List.append_assoc]
    exact stands.sign_append sound sign rest

/-- A declaration is one again before a semicolon, and before the end of its block. -/
theorem IsDeclaration.stays {trivia : List Written} (d : IsDeclaration source room property w trivia items b)
    (stands : Stands (w :: trivia ++ .colon :: wordsOf items ++ vs)) :
    Stays source .declarations room b (w :: trivia ++ .colon :: wordsOf items) := by
  have needs : Piece.endsOpen Place.declarations.contents b.kind = true := by
    rw [← Branch.kind_unplaced, d.outline]
    rfl
  have closed : Closed (w :: trivia ++ .colon :: wordsOf items) := by
    intro v mem
    rw [List.getLast?_append_of_ne_nil _ (by simp)] at mem
    by_cases none : wordsOf items = []
    · obtain rfl : .colon = v := by simpa [none] using mem
      simp [Written.colon]
    · rw [List.getLast?_cons_of_ne_nil none] at mem
      exact d.phrase.closed d.closed v mem
  have sound : ∀ v ∈ w :: trivia ++ .colon :: wordsOf items, ∀ f, v.kind ≠ .fault f := fun v mem => (d.proper v mem).2
  have alone := stands.left sound closed
  refine ⟨d.shown, fun ws bs rest head => ?_, fun ws rest head => ?_⟩
  · have none : ∀ v ∈ ([] : List Written), v.kind = .whitespace := by simp
    exact .declaration d none (fun v mem => by rw [head needs v mem]; rfl) rest
  · cases ws with
    | nil => exact alone.append_sign sound rest rfl rfl rfl
    | cons v ws =>
      obtain rfl := head needs v rfl
      exact alone.append_sign sound rest rfl rfl rfl

theorem Entries.eq_nil (h : Entries source place room [] bs) : bs = [] := by
  generalize e : [] = ws at h
  cases h with
  | nil => rfl
  | rule => exact absurd e (by simp)
  | _ => cases e

theorem kind_prelude_of_outline (outline : cs.map Branch.unplaced = Item.prelude name items) :
    ∀ c ∈ cs, c.kind = .prelude := by
  intro c mem
  have inside : c.unplaced ∈ Item.prelude name items := outline ▸ List.mem_map_of_mem mem
  unfold Item.prelude at inside
  split at inside
  · cases inside
  · rw [List.mem_singleton] at inside
    rw [← Branch.kind_unplaced, inside]
    rfl

/-- Nothing goes from a prelude. -/
theorem Pares.of_prelude (pares : Pares (cs ++ bs) t bs') (outline : cs.map Branch.unplaced = Item.prelude name items) :
    ∃ ds, bs' = cs ++ ds ∧ Pares bs t ds := by
  refine pares.of_append fun c mem => ?_
  rw [kind_prelude_of_outline outline c mem]
  exact ⟨rfl, rfl⟩

/-- What is left of a list that starts with a declaration. -/
theorem IsDeclaration.staysEntries {trivia blanks : List Written} (d : IsDeclaration source room property w trivia items b)
    (rest : StaysEntries source .declarations room ws bs) :
    StaysEntries source .declarations room (w :: trivia ++ .colon :: wordsOf items ++ (blanks ++ ws)) (b :: bs) := by
  have closed : b.kind.isClosed = true := by
    rw [← Branch.kind_unplaced, d.outline]
    rfl
  refine rest.cons ?_ (fun stands _ => ?_) fun n cs cs' e holder => ?_
  · rw [← List.append_assoc]
    exact List.suffix_append _ _
  · rw [List.append_assoc] at stands
    exact ⟨_, d.stays stands⟩
  · subst e
    exact absurd (closed.symm.trans holder) (by simp)

/-- What is left of a list that starts with an at-rule without a block. -/
theorem IsStatement.staysEntries {stop : List Written} (s : IsStatement source room name keyword items stop b)
    (ends : stop = [.semicolon] ∨ stop = [] ∧ ws = []) (entries : Entries source place room ws bs)
    (rest : StaysEntries source place room ws bs) :
    StaysEntries source place room (keyword :: wordsOf items ++ stop ++ ws) (b :: bs) := by
  have whole : ∀ n cs cs', b = .mk n cs → ¬Pares cs true cs' := by
    rintro n cs cs' rfl pares
    have outline := s.outline
    rw [Branch.unplaced_mk, bare, bare, Parsed.node.injEq] at outline
    rw [← List.append_nil cs] at pares
    obtain ⟨ds, -, none⟩ := Pares.of_prelude pares outline.2.2
    cases none
  have sound : ∀ w ∈ keyword :: wordsOf items ++ stop, ∀ f, w.kind ≠ .fault f :=
    fun w mem => (s.proper (ends.imp_right And.left) w mem).2
  rcases ends with rfl | ⟨rfl, rfl⟩
  · refine rest.cons (List.suffix_append _ _) (fun stands _ => ?_) fun n cs cs' e _ below => absurd below (whole n cs cs' e)
    have alone : Stands (keyword :: wordsOf items ++ [.semicolon]) := by
      rw [List.append_assoc] at stands
      exact stands.left sound (closed_concat (v := .semicolon) rfl _)
    refine ⟨_, .of_sign s.shown alone ?_ rfl fun ws bs rest => .statement s (.inl rfl) rest⟩
    exact fun w mem => sound w (List.mem_append_left _ mem)
  · obtain rfl := entries.eq_nil
    intro pending t bs' stands pares pends settled movable
    cases pares with
    | same _ left =>
      cases left
      have solid := settled.solid b (mem_preorderAll_of_mem (by simp))
      refine WritesEntries.pend ⟨.statement s (.inr ⟨rfl, rfl⟩) entries, stands, ?_, by simp⟩ solid pends
      rw [renderAll, renderAll, Piece.entries, if_neg (by simp [solid]), Piece.entries, s.shown]
      simp
    | drop _ left => exact rest pending _ _ stands.right left pends settled (movable.of_subset (by simp))
    | mark _ below => exact absurd below (whole _ _ _ rfl)

/-! ## Blocks -/

theorem Place.contents_ofContents (contents : Contents) : (Place.ofContents contents).contents = contents := by
  cases contents <;> rfl

/-- What is left of a block is one again, and stands up to its end. -/
theorem IsBlock.pare (block : IsBlock source contents inner m cs)
    (entries : Entries source (.ofContents contents) room inner cs)
    (inside : StaysEntries source (.ofContents contents) room inner cs) (stands : Stands (inner ++ [.unbrace]))
    (pares : Pares [.mk m cs] t bs') (settled : Settled bs') (movable : Movable source [.mk m cs]) :
    ∃ m' cs' vs, bs' = [.mk m' cs'] ∧ IsBlock source contents vs m' cs'
      ∧ Entries source (.ofContents contents) room vs cs' ∧ Stands (vs ++ [.unbrace]) := by
  have stays : (Branch.mk m cs).kind.isPrunable = false := by
    rw [kind_mk, block.kind]
    rfl
  rcases pares.of_cons stays with ⟨bs', rfl, rest⟩ | ⟨n, ds, cs', bs', u, e, rfl, -, -, below, rest⟩
  · cases rest
    exact ⟨m, cs, inner, rfl, block, entries, stands⟩
  · cases rest
    obtain ⟨rfl, rfl⟩ := Branch.mk.inj e
    obtain ⟨vs, written⟩ := inside false true cs' stands below (by simp) settled.of_below
      (movable.of_subset fun c mem => by simp [mem_preorder, mem])
    refine ⟨_, cs', vs, rfl, ⟨block.kind, ?_⟩, written.entries, written.stands⟩
    have text := written.text
    rw [Place.contents_ofContents] at text
    rw [Branch.Writes, Branch.render, Node.unchangedText?, if_pos rfl, block.kind]
    change "\x7b" ++ Piece.entries contents false (renderAll (some source) cs') ++ "\x7d" = _
    rw [text, textOf_cons, textOf_append, String.ofList_append, String.ofList_append, ← String.append_assoc]
    rfl

/-- A block stands where what is in it stands before its brace. -/
theorem stands_block (stands : Stands (inner ++ [.unbrace])) : Stands (.brace :: (inner ++ [.unbrace])) :=
  stands_brace.sign_cons rfl stands

/-- Entries that end in a block stand before any others. -/
theorem Stays.of_block (shown : b.Writes source (us ++ .brace :: (inner ++ [.unbrace])))
    (stands : Stands (us ++ .brace :: (inner ++ [.unbrace]))) (sound : ∀ w ∈ us, ∀ f, w.kind ≠ .fault f)
    (inside : ∀ w ∈ inner, ∀ f, w.kind ≠ .fault f)
    (enters : ∀ ws bs, Entries source place room ws bs →
      Entries source place room (us ++ .brace :: (inner ++ [.unbrace]) ++ ws) (b :: bs)) :
    Stays source place room b (us ++ .brace :: (inner ++ [.unbrace])) := by
  rw [← List.cons_append, ← List.append_assoc] at shown stands ⊢
  refine .of_sign (v := .unbrace) shown stands ?_ rfl fun ws bs rest => ?_
  · simp only [List.forall_mem_append, List.forall_mem_cons]
    exact ⟨sound, by simp [Written.brace], inside⟩
  · have entries := enters ws bs rest
    rwa [← List.cons_append, ← List.append_assoc] at entries

/-- An entry with a block stands without what is behind it. -/
theorem stands_entry (stands : Stands (us ++ .brace :: (inner ++ [.unbrace]) ++ ws ++ [.unbrace]))
    (sound : ∀ w ∈ us, ∀ f, w.kind ≠ .fault f) (inside : ∀ w ∈ inner, ∀ f, w.kind ≠ .fault f) :
    Stands (us ++ .brace :: (inner ++ [.unbrace])) := by
  have closed := closed_concat (v := .unbrace) rfl (us ++ .brace :: inner)
  rw [List.append_assoc, List.cons_append] at closed
  rw [List.append_assoc] at stands
  refine stands.left ?_ closed
  simp only [List.forall_mem_append, List.forall_mem_cons]
  exact ⟨sound, by simp [Written.brace], inside, by simp [Written.unbrace]⟩

/-! ## Rules -/

/-- A rule that says something has selectors. -/
theorem children_ne_nil_of_full (full : (Branch.mk n (l :: bs)).isEmptied = false) (kind : n.kind = .rule)
    (list : l.kind = .selectorList) : l.children ≠ [] := by
  intro none
  simp [isEmptied, isEmptyRule, selectorList?, child?, kind, list, none] at full

/-- What is left of the selectors of a rule that stays. -/
theorem IsRule.pare_cons (h : IsRule source place room items n l) (stands : Stands (wordsOf items ++ vs))
    (pares : Pares (l :: bs) t cs') (full : (Branch.mk m cs').isEmptied = false) (kind : m.kind = .rule)
    (movable : Movable source [l]) :
    ∃ zs l' bs' u, cs' = l' :: bs' ∧ Pares bs u bs' ∧ IsRule source place room zs m l'
      ∧ Stands (wordsOf zs) ∧ trim zs = zs := by
  have list : l.kind = .selectorList := by
    rw [← Branch.kind_unplaced, h.selectors.outline]
    rfl
  rcases pares.of_cons (by rw [list]; rfl) with ⟨bs', rfl, rest⟩ | ⟨k, ds, ds', bs', u, rfl, rfl, -, -, below, rest⟩
  · obtain ⟨trimmed, stands⟩ := h.trimmed stands kind
    exact ⟨_, l, bs', _, rfl, rest, trimmed, stands, trim_trim items⟩
  · have some : ds' ≠ [] := children_ne_nil_of_full full kind list
    have selects : ∀ c ∈ ds, Selects (written (c.render (Option.some source)).toList) := fun c mem =>
      movable.selects c (by simpa using mem_preorder_of_child mem (self_mem_preorder c)) (h.selectors.isSelector_of_mem mem)
    obtain ⟨zs, rule, stands, trimmed⟩ := h.pare stands kind below some selects
    exact ⟨zs, _, bs', _, rfl, rest, rule, stands, trimmed⟩

/-- What is left of a list that starts with a rule. -/
theorem IsRule.staysEntries (h : IsRule source place (room + 1) items n l)
    (entries : Entries source .declarations room inner cs) (inside : StaysEntries source .declarations room inner cs)
    (block : IsBlock source .declarations inner m cs)
    (shown : (Branch.mk n [l, .mk m cs]).Writes source (wordsOf items ++ .brace :: (inner ++ [.unbrace])))
    (rest : StaysEntries source place (room + 1) ws bs) :
    StaysEntries source place (room + 1) (wordsOf items ++ .brace :: (inner ++ [.unbrace]) ++ ws)
      (.mk n [l, .mk m cs] :: bs) := by
  refine rest.cons (List.suffix_append _ _) (fun stands _ => ?_) ?_
  · have stands := stands_entry stands h.phrase.sound entries.sound
    exact ⟨_, .of_block shown stands h.phrase.sound entries.sound fun ws bs => .rule h entries block shown⟩
  · intro k ds cs' e holder below stands settled movable
    obtain ⟨rfl, rfl⟩ := Branch.mk.inj e
    have stands := stands_entry stands h.phrase.sound entries.sound
    obtain ⟨zs, l', bs', u, rfl, left, rule, front, trimmed⟩ := h.pare_cons stands below
      (settled.full _ (mem_preorderAll_of_mem List.mem_cons_self)) h.kind (movable.of_subset (by simp [preorder]))
    obtain ⟨m', cs'', vs, rfl, block', entries', closes⟩ := block.pare entries inside stands.right.tail left
      settled.of_below.tail (movable.of_subset (by simp [preorder]))
    have shown' : (Branch.mk { n with modified := true } [l', .mk m' cs'']).Writes source
        (wordsOf zs ++ .brace :: (vs ++ [.unbrace])) := by
      have first := rule.selectors.shown
      rw [trimmed] at first
      rw [Branch.Writes, Branch.render, Node.unchangedText?, if_pos rfl, h.kind]
      change Piece.joined (renderAll (some source) [l', .mk m' cs'']) = _
      rw [renderAll, renderAll, renderAll, Piece.joined, first, block'.shown, textOf_append, String.ofList_append]
      simp
    have whole := front.append_sign rule.phrase.sound (stands_block closes) rfl rfl rfl
    exact ⟨_, .of_block shown' whole rule.phrase.sound entries'.sound fun ws bs => .rule rule entries' block' shown'⟩

/-! ## At-rules -/

/-- A space as an item. -/
def Item.space : Item := ⟨[.space], bare .whitespace []⟩

/-- Items with a single space before them and no other whitespace at their ends, if there is more. -/
def Item.spaced (items : List Item) : List Item := if (trim items).isEmpty then [] else space :: trim items

theorem trim_spaced (items : List Item) : trim (spaced items) = trim items := by
  unfold spaced
  split
  next none => rw [List.isEmpty_iff.1 none]; rfl
  next =>
    have white : ∀ i ∈ [space], i.isWhite = true := by simp [isWhite, space, isWhitespace, Node.Kind.isWhitespace]
    exact (Text.trimBy_append_of_leading (trim items) white).trans (trim_trim items)

theorem stands_space : Stands [Written.space] := ⟨⟨' ', [], rfl, rfl⟩, trivial⟩

/-- Items behind a space stand. -/
theorem stands_space_cons {stop : Token.Kind → Bool} (phrase : Phrase stop room items) (stands : Stands (wordsOf items))
    (first : ∀ i ∈ items.head?, i.isWhite = false) : Stands (.space :: wordsOf items) := by
  have solid : (textOf (wordsOf items)).head?.any Text.isBlank = false := by
    cases items with
    | nil => rfl
    | cons i items =>
      obtain ⟨v, us, words, -⟩ := (phrase.values i (by simp)).head
      have solid := (phrase.values i (by simp)).solid (first i rfl) v (by simp [words])
      rw [wordsOf_cons, words, List.cons_append] at stands ⊢
      obtain ⟨c, xs, text, -, begins⟩ := Stands.begins stands
      rw [textOf_cons, text, List.cons_append, List.head?_cons, Option.any_some, Bool.eq_false_iff]
      exact fun blank => solid (begins.blanks_iff.1 blank)
  refine stands_space.append (by simp [Written.space]) stands fun w mem => ?_
  obtain rfl : .space = w := by simpa using mem
  exact ⟨fun _ => solid, nofun, nofun, nofun⟩

/-- The name of an at-rule stands before its prelude. -/
theorem IsAtRule.stands_spaced {prelude : List Branch} (h : IsAtRule source room name keyword items n prelude)
    (stands : Stands (keyword :: wordsOf items ++ .brace :: vs)) (shut : endsOpen 0 name.toList = false) :
    Stands (keyword :: wordsOf (spaced items)) := by
  have text := stands.of_atKeyword h.named
  have alone : Stands [keyword] := by
    have front : Stands ([keyword] ++ (wordsOf items ++ .brace :: vs)) := stands
    refine front.left (by simp [h.named]) fun w mem => ?_
    obtain rfl : keyword = w := by simpa using mem
    simp [h.named]
  unfold spaced
  split
  next => exact alone
  next =>
    have inside : Stands (wordsOf (trim items)) :=
      h.phrase.stands_infix stands.tail (Text.trimBy_isInfix isWhite items) fun i => Text.getLast?_trimBy
    have behind := stands_space_cons (h.phrase.of_subset fun i => mem_of_mem_trim) inside fun i => Text.head?_trimBy
    refine alone.append (by simp [h.named]) behind fun w mem => ?_
    obtain rfl : keyword = w := by simpa using mem
    refine ⟨by simp [h.named], fun _ => rfl, fun _ _ => ?_, by simp [h.named]⟩
    rw [text, endsOpen, if_neg (by decide)]
    exact shut

/-- The name and the prelude of an at-rule, with a space between them. -/
theorem IsAtRule.spaced {prelude : List Branch} (h : IsAtRule source room name keyword items n prelude)
    (kind : m.kind = .atRule name) : IsAtRule source room name keyword (Item.spaced items) m prelude := by
  have same : Item.prelude name (Item.spaced items) = Item.prelude name items := by
    rw [← prelude_trim, trim_spaced, prelude_trim]
  refine ⟨kind, h.named, ?_, same ▸ h.outline, by rw [trim_spaced]; exact h.shown⟩
  unfold Item.spaced
  split
  next => exact .nil
  next =>
    have plain : Token.Kind.IsPlain Written.space.kind := ⟨rfl, rfl, nofun⟩
    have first : Phrase endsPrelude room [space] :=
      ⟨by rw [List.forall_mem_singleton]; exact .single room plain nofun, by simp [space, Written.space, endsPrelude]⟩
    exact first.append (h.phrase.of_subset fun i => mem_of_mem_trim)

/-- The text of words that start with the name of an at-rule. -/
theorem text_atKeyword (text : keyword.text = '@' :: name.toList) (ws : List Written) :
    String.ofList (textOf (keyword :: ws)) = "@" ++ name ++ String.ofList (textOf ws) := by
  rw [textOf_cons, text, String.ofList_append]
  congr 1
  exact String.toList_inj.1 (by simp)

/-- An at-rule that is put together has a space before its prelude. -/
theorem IsAtRule.layout {prelude : List Branch} {block : Branch}
    (h : IsAtRule source room name keyword items n prelude) (stands : Stands (wordsOf (trim items)))
    (kind : block.kind.isBlock = true) :
    layout (.atRule name) (renderAll (some source) (prelude ++ [block]))
      = "@" ++ name ++ String.ofList (textOf (wordsOf (Item.spaced items))) ++ block.render (some source) := by
  have other : block.kind ≠ .prelude := by
    intro e
    rw [e] at kind
    cases kind
  have outline := h.outline
  unfold Item.prelude at outline
  unfold Item.spaced
  cases none : (trim items).isEmpty with
  | true =>
    rw [none, if_pos rfl, List.map_eq_nil_iff] at outline
    subst outline
    simp [AboveFold.layout, renderAll, kind, other]
  | false =>
    rw [none, if_neg Bool.false_ne_true, List.map_eq_singleton_iff] at outline
    obtain ⟨p, rfl, outline⟩ := outline
    have prelude : p.kind = .prelude := by rw [← Branch.kind_unplaced, outline]; rfl
    have text := h.shown p (by simp)
    have filled : p.render (some source) ≠ "" := by
      have words := (h.phrase.of_subset fun i => mem_of_mem_trim).words_ne_nil (List.isEmpty_eq_false_iff.1 none)
      rw [text, Ne, ← String.toList_inj, String.toList_ofList]
      exact stands.textOf_ne_nil words
    have plain : Node.Kind.isBlock .prelude = false := rfl
    simp [AboveFold.layout, renderAll, prelude, plain, kind, filled, text.symm, space, Written.space, String.append_assoc]

/-- What is left of a list that starts with an at-rule with a block. -/
theorem IsAtRule.staysEntries {prelude : List Branch} (h : IsAtRule source (room + 1) name keyword items n prelude)
    (entries : Entries source (.ofContents (atRuleContents name)) room inner cs)
    (inside : StaysEntries source (.ofContents (atRuleContents name)) room inner cs)
    (block : IsBlock source (atRuleContents name) inner m cs)
    (shown : (Branch.mk n (prelude ++ [.mk m cs])).Writes source
      (keyword :: wordsOf items ++ .brace :: (inner ++ [.unbrace])))
    (rest : StaysEntries source place (room + 1) ws bs) :
    StaysEntries source place (room + 1) (keyword :: wordsOf items ++ .brace :: (inner ++ [.unbrace]) ++ ws)
      (.mk n (prelude ++ [.mk m cs]) :: bs) := by
  have sound {zs : List Item} (phrase : Phrase endsPrelude (room + 1) zs) :
      ∀ w ∈ keyword :: wordsOf zs, ∀ f, w.kind ≠ .fault f :=
    List.forall_mem_cons.2 ⟨by simp [h.named], phrase.sound⟩
  refine rest.cons (List.suffix_append _ _) (fun stands _ => ?_) ?_
  · have stands := stands_entry stands (sound h.phrase) entries.sound
    exact ⟨_, .of_block shown stands (sound h.phrase) entries.sound fun ws bs => .atRule h entries block shown⟩
  · intro k ds cs' e holder below stands settled movable
    obtain ⟨rfl, rfl⟩ := Branch.mk.inj e
    have stands := stands_entry stands (sound h.phrase) entries.sound
    obtain ⟨ds, rfl, left⟩ := Pares.of_prelude below h.outline
    obtain ⟨m', cs'', vs, rfl, block', entries', closes⟩ := block.pare entries inside stands.right.tail left
      (settled.of_below.of_subset (by simp)) (movable.of_subset (by simp [preorder]))
    have shut := movable.shut _ (mem_preorderAll_of_mem List.mem_cons_self) name (by simp [h.kind, Node.Kind.atRuleName?])
    have front := h.stands_spaced stands shut
    have spaced := h.spaced (m := { n with modified := true }) h.kind
    have shown' : (Branch.mk { n with modified := true } (prelude ++ [.mk m' cs''])).Writes source
        (keyword :: wordsOf (Item.spaced items) ++ .brace :: (vs ++ [.unbrace])) := by
      have inner : Stands (wordsOf (trim items)) := h.phrase.stands_infix stands.tail (Text.trimBy_isInfix isWhite items)
        fun i => Text.getLast?_trimBy
      rw [Branch.Writes, Branch.render, Node.unchangedText?, if_pos rfl, h.kind]
      refine (h.layout inner (by rw [kind_mk, block'.kind]; rfl)).trans ?_
      rw [block'.shown, List.cons_append, text_atKeyword (stands.of_atKeyword h.named), textOf_append, String.ofList_append,
        String.append_assoc]
    have whole := front.append_sign (sound spaced.phrase) (stands_block closes) rfl rfl rfl
    exact ⟨_, .of_block shown' whole (sound spaced.phrase) entries'.sound fun ws bs => .atRule spaced entries' block' shown'⟩

/-! ## All entries -/

/-- **What is left of a list after pruning is written as the entries of a list again.** -/
theorem Entries.pare (h : Entries source place room ws bs) : StaysEntries source place room ws bs := by
  induction h with
  | nil place room => exact .nil source place room
  | separator _ _ ih => exact ih.separator
  | comment kind outline shown rest ih =>
    have comment : _ = Node.Kind.comment _ := (Branch.kind_unplaced _).symm.trans (congrArg Parsed.kind outline)
    exact ih.comment comment
  | declaration d blank ends rest ih => exact d.staysEntries ih
  | statement s ends rest ih => exact s.staysEntries ends rest ih
  | atRule head inside block shown rest ihInside ih => exact head.staysEntries inside ihInside block shown ih
  | rule head inside block shown rest ihInside ih => exact head.staysEntries inside ihInside block shown ih

end AboveFold.Grammar
