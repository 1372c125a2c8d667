import AboveFold.Proofs.Grammar.Lossless
import AboveFold.Proofs.Stylesheet.Editing
import AboveFold.Proofs.Tree.WellFormed

/-!
# Marks tell the truth

Whatever is done to a stylesheet after it was read, its tree stays well-formed, and a node that is not
marked stands for the text it was read from: it is the branch that reading made, and no node inside it
was edited.
-/

namespace AboveFold
open Source Branch

/-! ## Stylesheets that were just read -/

theorem Tree.numbered_ofOutcome (o : Grammar.Outcome) : (Tree.ofOutcome o).Numbered := by
  obtain ⟨ids, next⟩ := Parsed.ids_number 0 o.sheet
  obtain ⟨ids', size⟩ := Parsed.ids_numberAll (o.sheet.number 0).2 o.discarded
  rw [next] at ids' size
  have all : (Tree.ofOutcome o).ids = List.range (Tree.ofOutcome o).size := by
    simp only [Tree.ids, Tree.forest, Tree.ofOutcome, idsAll_cons, next, size, ids]
    rw [idsAll, ids', List.range_eq_range', List.range'_append_1, Nat.zero_add]
  intro n
  rw [all, List.nodup_range.count]
  simp only [List.mem_range]
  split <;> omega

/-- A node that was read has a text and no mark. -/
def Branch.Pristine (source : String) (b : Branch) : Prop :=
  b.node.modified = false ∧ ∃ span, b.node.span = some span ∧ span.FitsIn source

theorem Stylesheet.parse_pristine (source : String) (path : Option String) :
    ∀ b ∈ (parse source path).tree.branches, b.Pristine source := by
  obtain ⟨here, boundary, tiles⟩ := Token.tiles_tokens source path
  obtain ⟨ps, sheet, -, sound, discarded, -⟩ := (Grammar.Input.mk source path).read_spec boundary tiles
  have pristine {b : Branch} {q : Parsed} (reflects : b.Reflects q) (fits : q.span.FitsIn source) :
      b.Pristine source := ⟨reflects.pristine, q.span, reflects.span, fits⟩
  intro b mem
  rcases Tree.mem_branches.1 mem with mem | mem
  · obtain ⟨q, hq, reflects⟩ := Parsed.reflects_number 0 (Grammar.Input.read _ _).sheet b mem
    refine pristine reflects ?_
    simp only [sheet, Parsed.nodes, List.mem_cons, Parsed.mem_nodesAll] at hq
    rcases hq with rfl | ⟨p, hp, hq⟩
    · exact .of_boundaries (Nat.zero_le _) (isBoundary_zero source) (isBoundary_end source)
    · exact (sound p hp q hq).fits
  · obtain ⟨q, hq, reflects⟩ := Parsed.reflects_numberAll _ (Grammar.Input.read _ _).discarded b mem
    obtain ⟨p, hp, hq⟩ := Parsed.mem_nodesAll.1 hq
    exact pristine reflects (discarded p hp q hq).fits

/-- A node that has a text and no mark is written as its text. -/
theorem Branch.Pristine.render {source : String} {b : Branch} (h : b.Pristine source) :
    b.node.span.bind (·.slice source) = some (b.render (some source)) := by
  obtain ⟨unmodified, span, read, fits⟩ := h
  obtain ⟨text, e⟩ := fits.slice_isSome
  obtain ⟨n, cs⟩ := b
  simp only [Branch.node] at unmodified read ⊢
  simp [Branch.render, Node.unchangedText?, unmodified, read, e]

/-! ## Sessions -/

/-- Nodes with a mark. -/
def Tree.Marked (t : Tree) (id : Nat) : Prop :=
  ∀ b, t.find? id = some b → b.node.modified = true

/-- What every session keeps to. -/
structure Session.Kept (first : Stylesheet) (s : Session) : Prop where
  evolves : first.Evolves s.sheet
  edited : ∀ id ∈ s.edited, s.sheet.tree.Marked id

namespace Tree

variable {t t' : Tree} {id : Nat}

/-- A branch without a mark was there before, under the same number. -/
theorem Evolves.find?_eq (h : t.Evolves t') (numbered : t.Numbered) {b : Branch} (found : t'.find? id = some b)
    (unmodified : b.node.modified = false) : t.find? id = some b := by
  obtain ⟨mem, e⟩ := mem_of_find? found
  exact numbered.find?_eq_some.2 ⟨h.unmarked b mem unmodified, e⟩

/-- Marks stay. -/
theorem Evolves.marked (h : t.Evolves t') (numbered : t.Numbered) (marked : t.Marked id) : t'.Marked id := by
  intro b found
  cases unmodified : b.node.modified with
  | true => rfl
  | false =>
    have := marked b (h.find?_eq numbered found unmodified)
    rw [unmodified] at this
    cases this

/-- A node that has another kind or other children is marked. -/
theorem Evolves.marked_of_shape (h : t.Evolves t') (numbered : t.Numbered) (changed : t'.shape? id ≠ t.shape? id) :
    t'.Marked id := by
  intro b found
  cases unmodified : b.node.modified with
  | true => rfl
  | false =>
    have found' := h.find?_eq numbered found unmodified
    exact absurd (by rw [shape?, shape?, found, found']) changed

/-- An edit that marks its node. -/
theorem marked_edit (t : Tree) (id : Nat) {f : Branch → Branch} (numbered : (t.edit id f).Numbered)
    (kept : ∀ c, (f c).id = c.id) (marks : ∀ c, (f c).node.modified = true) : (t.edit id f).Marked id := by
  intro b found
  obtain ⟨mem, rfl⟩ := mem_of_find? found
  rcases t.edit_spec b.id f (fun c e => (kept c).trans e) with ⟨absent, e⟩ | ⟨c, edited, -, -⟩
  · rw [e] at mem
    exact absurd (mem_ids.2 ⟨b, mem, rfl⟩) absent
  · rw [numbered.unique mem edited.mem_new ((kept c).trans edited.id_eq).symm]
    exact marks c

end Tree

section

variable {first : Stylesheet} {s : Session}

/-- What an edit touches is marked afterwards. -/
theorem Edit.marked_touched {s : Stylesheet} (h : s.tree.Numbered) (e : Edit) (evolves : s.Evolves (e.apply s)) :
    ∀ id ∈ e.touched s, (e.apply s).tree.Marked id := by
  intro id mem
  rcases List.mem_append.1 mem with named | changed
  · have numbered := evolves.tree.numbered
    cases e with
    | setKind id' kind =>
      obtain rfl : id = id' := by simpa [marks] using named
      refine s.tree.marked_edit id numbered ?_ ?_
      all_goals rintro ⟨n, cs⟩; rfl
    | markModified id' =>
      obtain rfl : id = id' := by simpa [marks] using named
      refine s.tree.marked_edit id numbered ?_ ?_
      all_goals rintro ⟨n, cs⟩; rfl
    | _ => simp [marks] at named
  · simp only [List.mem_filter, decide_eq_true_eq] at changed
    exact evolves.tree.marked_of_shape h changed.2

theorem Session.Kept.perform (h : s.Kept first) (e : Edit) : (s.perform e).Kept first := by
  unfold Session.perform
  split
  next within =>
    have numbered := h.evolves.tree.numbered
    have evolves := e.evolves numbered (by simpa using within)
    refine ⟨h.evolves.trans evolves, fun id mem => ?_⟩
    rcases List.mem_append.1 mem with mem | mem
    · exact e.marked_touched numbered evolves id mem
    · exact evolves.tree.marked numbered (h.edited id mem)
  next => exact h

/-- What a session keeps to does not depend on the walks under way. -/
theorem Session.Kept.rounds (h : s.Kept first) (rounds : List Round) : Session.Kept first { s with rounds } :=
  ⟨h.evolves, h.edited⟩

/-- One command keeps to what every session keeps to. -/
theorem Session.Kept.step (h : s.Kept first) (c : Command) : (s.step c).Kept first := by
  cases c with
  | edit e => exact h.perform e
  | enter id =>
    simp only [Session.step]
    split
    · exact h.rounds _
    · exact h
  | descend =>
    simp only [Session.step]
    split
    · exact h.rounds _
    · exact h
  | skip =>
    simp only [Session.step]
    split
    · exact h.rounds _
    · exact h
  | drop =>
    simp only [Session.step]
    split
    · exact (h.perform _).rounds _
    · exact h
  | settle =>
    simp only [Session.step]
    split
    · exact (h.perform _).rounds _
    · exact h.rounds _
    · exact h

theorem Session.Kept.start (source : String) (path : Option String) :
    (Session.start source path).Kept (.parse source path) :=
  ⟨⟨.refl (Tree.numbered_ofOutcome _), rfl⟩, by simp [Session.start]⟩

/-- Every session keeps to it. -/
theorem Session.kept (source : String) (path : Option String) (commands : List Command) :
    (run source path commands).Kept (.parse source path) := by
  unfold run
  generalize Session.start source path = s, Session.Kept.start source path = h at *
  induction commands generalizing s with
  | nil => exact h
  | cons c commands ih => exact ih _ (h.step c)

end

/-! ## What every session keeps -/

/-- **Unmarked nodes are as they were read**: after any commands a node without a mark is the branch that
reading made, with no mark inside, and is written as its text; and a node that holds an edited node has
a mark. -/
theorem Session.run_faithful (source : String) (path : Option String) (commands : List Command) :
    let first := Stylesheet.parse source path
    let s := Session.run source path commands
    (∀ id b, s.sheet.tree.find? id = some b → b.node.modified = false →
      first.tree.find? id = some b ∧ (∀ c ∈ b.preorder, c.node.modified = false)
        ∧ first.sourceText? b = some (b.render (some s.sheet.source)))
      ∧ ∀ id b, s.sheet.tree.find? id = some b → ∀ n ∈ s.edited, n ∈ b.ids → b.node.modified = true := by
  intro first s
  have kept : s.Kept first := Session.kept source path commands
  have numbered : first.tree.Numbered := Tree.numbered_ofOutcome _
  have pristine := Stylesheet.parse_pristine source path
  have inside {b : Branch} (mem : b ∈ first.tree.branches) (c : Branch) (hc : c ∈ b.preorder) :
      c.node.modified = false :=
    (pristine c ((preorder_sublist_preorderAll first.tree.forest b mem).subset hc)).1
  refine ⟨fun id b found unmodified => ?_, fun id b found n edited below => ?_⟩
  · have found' := kept.evolves.tree.find?_eq numbered found unmodified
    have mem := (Tree.mem_of_find? found').1
    refine ⟨found', inside mem, ?_⟩
    rw [kept.evolves.source]
    exact (pristine b mem).render
  · cases unmodified : b.node.modified with
    | true => rfl
    | false =>
      obtain ⟨c, hc, rfl⟩ := List.mem_map.1 below
      have mem := (Tree.mem_of_find? found).1
      have old := (Tree.mem_of_find? (kept.evolves.tree.find?_eq numbered found unmodified)).1
      have found' := kept.evolves.tree.numbered.find?_eq_some.2
        ⟨(preorder_sublist_preorderAll s.sheet.tree.forest b mem).subset hc, rfl⟩
      have marked := kept.edited c.id edited c found'
      rw [inside old c hc] at marked
      cases marked

end AboveFold
