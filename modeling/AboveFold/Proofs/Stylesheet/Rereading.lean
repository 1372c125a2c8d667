import AboveFold.Proofs.Grammar.Accepting
import AboveFold.Proofs.Grammar.Deriving
import AboveFold.Proofs.Grammar.Remaining
import AboveFold.Proofs.Stylesheet.Outlines
import AboveFold.Proofs.Stylesheet.Pruning

/-!
# Reading what was written

A stylesheet is read without a report exactly if its words are entries of a list (`errors_eq_nil_iff`), and these entries
are what is read. Passes that take nodes out leave words that are entries again: what is left of a stylesheet is written
as a text that is read without a report, as the tree that was left (`Orderly.readsAgain_passes`). This asks that comments
stand between rules and declarations only, since one of them may be all of a value, and that selectors may stand in front
of their list.
-/

namespace AboveFold.Token

variable {ws : List Written}

theorem Stands.not_eof (h : Stands ws) : ∀ w ∈ ws, w.kind ≠ .eof := by
  induction ws with
  | nil => simp
  | cons w ws ih =>
    refine List.forall_mem_cons.2 ⟨?_, ih h.tail⟩
    obtain ⟨c, xs, -, reads, -⟩ := Stands.begins h
    intro eof
    have more := lexeme_kind_ne_eof c (xs ++ textOf ws)
    rw [reads] at more
    exact more eof

/-- The words of a text that does not start with a byte order mark, and the end of input. -/
theorem map_word_tokens_unmarked {source : String} (unmarked : source.toList.head? ≠ some byteOrderMark)
    (path : Option String) : (tokens source path).map (word source) = written source.toList ++ [.last] := by
  unfold tokens
  split
  next cs e =>
    rw [e] at unmarked
    exact absurd rfl unmarked
  next => exact map_word_tokensFrom path [] .start rfl rfl

end AboveFold.Token

namespace AboveFold.Stylesheet
open Branch Grammar Source Token

variable {source text : String} {path : Option String} {ws : List Written} {bs : List Branch}

/-- The top of a stylesheet that was read, without its number. -/
def top (source : String) : Node := ⟨0, .styleSheet, some ⟨0, Text.byteSize source.toList⟩, false⟩

theorem unnumbered_parse (source : String) (path : Option String) :
    (parse source path).tree.sheet.unnumbered = ((Input.mk source path).read (tokens source path)).sheet.branch :=
  Parsed.unnumbered_number 0 ((Input.mk source path).read (tokens source path)).sheet

/-- What is read without a report is derived from the words of the text. -/
theorem parse_derives (source : String) (path : Option String) (silent : (parse source path).errors = []) :
    ∃ ws bs, Stands ws ∧ (tokens source path).map (word source) = ws ++ [.last]
      ∧ Entries source .topLevel maxDepth ws bs
      ∧ (parse source path).tree.sheet.unnumbered = .mk (top source) bs := by
  obtain ⟨here, boundary, tiles⟩ := tiles_tokens source path
  have spells := spells_tokens source path
  have silent := List.reverse_eq_nil_iff.1 silent
  have ready := Ready.start boundary tiles
  have spelt : ∀ t ∈ tokens source path, (word (Input.mk source path).source t).Spelt := spells.spelt
  obtain ⟨ws, spends, entries⟩ := (entriesDerive spelt _).list .topLevel _ _ ready (Nat.le_refl _) silent
  obtain ⟨_, _, reads, -, -, -, ended⟩ := (entriesRead ⟨source, path⟩ _ _).list .topLevel _ _ ready (Nat.le_refl _)
  obtain ⟨us, stands, words⟩ := spells
  -- all words but the end of input were spent
  have last : ∀ w ∈ State.words ⟨source, path⟩ _, w.kind = .eof :=
    List.forall_mem_map.2 (reads.ready.rest_of_eof (ended.resolve_right (by simp)))
  have same : ws = us := by
    have split := spends.words.symm.trans words
    have kept {xs : List Written} (more : ∀ w ∈ xs, w.kind ≠ .eof) : xs.filter (fun w => w.kind ≠ .eof) = xs :=
      List.filter_eq_self.2 (by simpa using more)
    have left := congrArg (List.filter fun w : Written => w.kind ≠ .eof) split
    rw [List.filter_append, List.filter_append, kept fun w mem => (entries.proper w mem).1, kept stands.not_eof,
      List.filter_eq_nil_iff.2 (by simpa using last)] at left
    simpa [Written.last] using left
  subst same
  exact ⟨ws, _, stands, words, entries, (unnumbered_parse source path).trans (Parsed.branch_node _ _ _)⟩

/-- Words that a list derives from are read as it, without a report. -/
theorem parse_of_entries (entries : Entries source .topLevel maxDepth ws bs)
    (words : (tokens text path).map (word text) = ws ++ [.last]) :
    (parse text path).errors = []
      ∧ (parse text path).tree.sheet.unplaced = .bare .styleSheet (bs.map Branch.unplaced) := by
  obtain ⟨here, boundary, tiles⟩ := tiles_tokens text path
  have ready := Ready.start boundary tiles
  have read : ReadsEntriesAs ⟨text, path⟩ (tokens text path) .topLevel maxDepth ws bs :=
    entries.read (spells_tokens text path).spelt
  obtain ⟨outline, spends⟩ := read (.start _) here _ [.last] ready rfl words (Nat.le_refl _) (Nat.le_refl _)
    (by simp [endsList, Written.last])
  refine ⟨List.reverse_eq_nil_iff.2 spends.errors, ?_⟩
  rw [← outline, ← unplaced_unnumbered, unnumbered_parse, Parsed.unplaced_branch]
  exact Parsed.unplaced_node _ _ _

/-- **The grammar of stylesheets**: a text is read without a report exactly if its words, before the end of input, are the
entries of a list. -/
theorem errors_eq_nil_iff (source : String) (path : Option String) :
    (parse source path).errors = [] ↔ ∃ ws bs, (tokens source path).map (word source) = ws ++ [.last]
      ∧ Entries source .topLevel maxDepth ws bs := by
  constructor
  · intro silent
    obtain ⟨ws, bs, -, words, entries, -⟩ := parse_derives source path silent
    exact ⟨ws, bs, words, entries⟩
  · rintro ⟨ws, bs, words, entries⟩
    exact (parse_of_entries entries words).1

/-! ## What passes leave -/

variable {ps : List Pass} {s : Stylesheet}

theorem movable_unnumbered : Movable source (bs.map unnumbered) ↔ Movable source bs := by
  constructor
  · rintro ⟨selects, shut⟩
    simp only [preorderAll_unnumbered, List.forall_mem_map, kind_unnumbered, render_unnumbered] at selects shut
    exact ⟨selects, shut⟩
  · rintro ⟨selects, shut⟩
    constructor
    · simpa only [preorderAll_unnumbered, List.forall_mem_map, kind_unnumbered, render_unnumbered] using selects
    · simpa only [preorderAll_unnumbered, List.forall_mem_map, kind_unnumbered] using shut

theorem settled_unnumbered (h : Settled bs) : Settled (bs.map unnumbered) := by
  obtain ⟨solid, full⟩ := h
  constructor
  · simpa only [preorderAll_unnumbered, List.forall_mem_map, kind_unnumbered] using solid
  · simpa only [preorderAll_unnumbered, List.forall_mem_map, isEmptied_unnumbered] using full

theorem tidy_unnumbered {b : Branch} (tidy : b.Tidy) : b.unnumbered.Tidy := by
  simpa only [Tidy, preorder_unnumbered, List.forall_mem_map, children_unnumbered, kind_unnumbered] using tidy

theorem entries_rules (pieces : List Piece) : Piece.entries .rules false pieces = Piece.joined pieces := by
  induction pieces with
  | nil => rfl
  | cons p ps ih =>
    have rest : Piece.entries .rules (Piece.endsOpen .rules p.kind) ps = Piece.joined ps := ih
    have joined : Piece.joined (p :: ps) = p.text ++ Piece.joined ps := by
      rw [Piece.joined, List.map_cons, String.join_cons, ← Piece.joined]
    rw [Piece.entries, ih, rest, joined]
    split <;> simp

/-- A text that stands and derives from entries is read as these, without a report. -/
theorem parse_of_stands (stands : Stands ws) (entries : Entries source .topLevel maxDepth ws bs)
    (unmarked : (Token.textOf ws).head? ≠ some byteOrderMark) (path : Option String) :
    (parse (String.ofList (Token.textOf ws)) path).errors = []
      ∧ (parse (String.ofList (Token.textOf ws)) path).tree.sheet.unplaced
        = .bare .styleSheet (bs.map Branch.unplaced) := by
  refine parse_of_entries entries ?_
  rw [map_word_tokens_unmarked (by rwa [String.toList_ofList]), String.toList_ofList, stands.written_eq]

/-- A stylesheet that was read without a report, with comments between rules and declarations only, and of which every
part may move. -/
structure Orderly (s : Stylesheet) : Prop where
  silent : s.errors = []
  tidy : s.tree.sheet.Tidy
  movable : Movable s.source s.tree.sheet.children

instance (s : Stylesheet) : Decidable s.Orderly :=
  decidable_of_iff (s.errors.isEmpty = true ∧ s.tree.sheet.Tidy ∧ Movable s.source s.tree.sheet.children)
    ⟨fun ⟨silent, tidy, movable⟩ => ⟨List.isEmpty_iff.1 silent, tidy, movable⟩,
      fun ⟨silent, tidy, movable⟩ => ⟨List.isEmpty_iff.2 silent, tidy, movable⟩⟩

/-- A stylesheet that is written as a text which is read without a report, as the tree that was written. -/
structure ReadsAgain (s : Stylesheet) (path : Option String) : Prop where
  silent : (parse s.render path).errors = []
  outline : (parse s.render path).tree.sheet.unplaced = s.tree.sheet.unplaced
  selectors : (parse s.render path).selectors = s.selectors

/-- A stylesheet that was not changed is written as its source. -/
theorem render_top (source : String) (bs : List Branch) : (Branch.mk (top source) bs).render (some source) = source := by
  have whole := Text.slice_append [] source.toList []
  rw [List.nil_append, List.append_nil, Text.byteSize, Nat.zero_add] at whole
  have text : ByteSpan.slice ⟨0, Text.byteSize source.toList⟩ source = some source := by
    rw [ByteSpan.slice, whole, Option.map_some, String.ofList_toList]
  have unchanged : Node.unchangedText? (some source) (top source) = some source := text
  rw [Branch.render, unchanged]

/-- What is left of the entries of a stylesheet is written as a text that stands and has these entries. -/
theorem exists_entries {bs' : List Branch} {t : Bool} (stands : Stands ws)
    (words : (tokens source path).map (word source) = ws ++ [.last]) (entries : Entries source .topLevel maxDepth ws bs)
    (pares : Pares bs t bs') (settled : Settled bs') (movable : Movable source bs) :
    let text := (Branch.mk { top source with modified := t } bs').render (some source)
    text.toList.head? ≠ some byteOrderMark →
      ∃ vs, Stands vs ∧ Entries source .topLevel maxDepth vs bs' ∧ text = String.ofList (Token.textOf vs) := by
  intro text unmarked
  cases t with
  | true =>
    have closes : Stands (ws ++ [.unbrace]) := stands.append_sign entries.sound stands_unbrace rfl rfl rfl
    obtain ⟨vs, written⟩ := entries.pare false true bs' closes pares (by simp) settled movable
    refine ⟨vs, written.stands.of_unbrace written.entries.sound, written.entries, ?_⟩
    rw [← written.text]
    exact (entries_rules _).symm
  | false =>
    obtain rfl := pares.eq_of_untouched rfl
    have same : text = source := render_top source bs'
    rw [same] at unmarked ⊢
    rw [map_word_tokens_unmarked unmarked] at words
    exact ⟨ws, stands, entries, by rw [← List.append_cancel_right words, textOf_written, String.ofList_toList]⟩

/-- What passes leave of a stylesheet, if they take comments out and at last what is empty. -/
theorem Reduces.pares {s s' : Stylesheet} (h : s.InOrder) (reduces : Reduces ps s s')
    (comments : ps.any Pass.isComments = true) (tidy : s.tree.sheet.Tidy)
    (sheet : s.tree.sheet.unnumbered = .mk (top source) bs) :
    ∃ t bs', s'.pruneEmptied.2.tree.sheet.unnumbered = .mk { top source with modified := t } bs' ∧ Pares bs t bs'
      ∧ Settled bs' := by
  have spacing : Pass.spacing ps = uncommented := by rw [Pass.spacing, if_pos comments]
  have nested : s.tree.sheet.unnumbered.Nested := nested_unnumbered.2 h.nested
  have left := reduces.pruneEmptied
  obtain ⟨t, node, pares⟩ := pares_swept_cutBelow (Pass.regular_marks ps) [] nested (tidy_unnumbered tidy)
  rw [Pass.plan, spacing] at left
  rw [← left, sheet, node_mk] at node
  rw [← left, sheet, children_mk] at pares
  refine ⟨t, s'.pruneEmptied.2.tree.sheet.unnumbered.children, ?_, pares, ?_⟩
  · generalize s'.pruneEmptied.2.tree.sheet.unnumbered = b at node
    obtain ⟨n, cs⟩ := b
    rw [node_mk] at node
    rw [node]
    rfl
  · rw [children_unnumbered]
    refine settled_unnumbered ⟨fun b mem => ?_, fun b mem => ?_⟩
    · exact reduces.free h comments b (mem_preorder.2 (.inr mem))
    · exact reduces.full b (mem_preorder.2 (.inr mem))

/-- **What passes leave is read again as it is**, if they take out what is marked, comments, and at last what is empty. -/
theorem Orderly.readsAgain_passes (h : (parse source path).Orderly) (planned : ∀ p ∈ ps, p.IsPlanned)
    (comments : .comments ∈ ps) :
    let s := (ps.foldl Pass.apply (parse source path)).pruneEmptied.2
    s.render.toList.head? ≠ some byteOrderMark → ∀ path', s.ReadsAgain path' := by
  intro s unmarked path'
  obtain ⟨ws, bs, stands, words, entries, sheet⟩ := parse_derives source path h.silent
  have inOrder := inOrder_parse source path
  have reduces := inOrder.passes planned
  have comments : ps.any Pass.isComments = true := List.any_eq_true.2 ⟨_, comments, rfl⟩
  obtain ⟨t, bs', left, pares, settled⟩ := reduces.pares inOrder comments h.tidy sheet
  have movable : Movable source bs := by
    have movable := movable_unnumbered.2 h.movable
    rwa [← children_unnumbered, sheet] at movable
  have render : s.render = (Branch.mk { top source with modified := t } bs').render (some source) := by
    have same : s.source = source := reduces.source
    rw [← left, render_unnumbered, render, same]
  rw [render] at unmarked
  obtain ⟨vs, stands, entries, text⟩ := exists_entries stands words entries pares settled movable unmarked
  rw [text, String.toList_ofList] at unmarked
  obtain ⟨errors, outline⟩ := parse_of_stands stands entries unmarked path'
  rw [← text, ← render] at errors outline
  have same : (parse s.render path').tree.sheet.unplaced = s.tree.sheet.unplaced := by
    rw [outline, ← unplaced_unnumbered s.tree.sheet, left, unplaced_mk]
    rfl
  exact ⟨errors, same, selectors_of_unplaced same⟩

/-- **Pruning leaves what is read again as it is.** -/
theorem Orderly.readsAgain_pruned (h : (parse source path).Orderly) (critical names : List String) (limit : Nat) :
    let s := (parse source path).pruned critical ⟨.keepAll, names, none, limit⟩
    s.render.toList.head? ≠ some byteOrderMark → ∀ path', s.ReadsAgain path' := by
  rw [pruned_eq]
  exact h.readsAgain_passes (Pass.planned_pipeline critical names limit) (by simp [Pass.pipeline])

/-- Selectors, rules and a comment go, from the stylesheet and from a block. -/
theorem readsAgain_pruned_rules :
    let s := parse "a,b\x7bc:d;/**/e:f\x7d@media screen\x7bb\x7bg:h\x7dj\x7b\x7d\x7dk\x7bl:m\x7d" none
    let s' := s.pruned ["b"] ⟨.keepAll, [], none, Prune.maxEmbed⟩
    s.Orderly ∧ s'.render = "b\x7bc:d;e:f\x7d@media screen\x7bb\x7bg:h\x7d\x7d" ∧ s'.ReadsAgain none := by
  intro s s'
  have orderly : s.Orderly := by decide +kernel
  exact ⟨orderly, by decide +kernel, orderly.readsAgain_pruned ["b"] [] Prune.maxEmbed (by decide +kernel) none⟩

end AboveFold.Stylesheet
