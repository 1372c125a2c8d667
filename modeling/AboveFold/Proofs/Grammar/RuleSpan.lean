import AboveFold.Proofs.Grammar.ComponentSpan
import AboveFold.Proofs.Grammar.Trimming

/-!
# Spans of preludes, selectors and declarations

These are built from lists of component values: a prelude and a selector list cover the values that are
left after trimming, their entries cover groups of them, and a declaration goes from its property to
the last value that is no whitespace. Raw text covers what was passed over.
-/

namespace AboveFold.Grammar
open Source Node Parsed

variable {inp : Input} {tokens : List Token} {lo hi : Nat}

theorem rawNode_spec (tokens : List Token) {start stop : Nat} (le : start ≤ stop) (a : IsBoundary inp.source start)
    (b : IsBoundary inp.source stop) :
    (rawNode inp start stop).span = ⟨start, stop⟩ ∧ (rawNode inp start stop).AllSound inp.source tokens := by
  have span : (rawNode inp start stop).span = ⟨start, stop⟩ := by
    simp [rawNode, Parsed.leaf, Parsed.span, Nat.max_eq_left le]
  refine ⟨span, .leaf ?_ (by simp) rfl⟩
  rw [Nat.max_eq_left le]
  exact .of_boundaries le a b

/-! ## Groups between commas -/

/-- A node over the values of a group that is trimmed is sound, unless it is a block. -/
theorem AllSound.over_trim {kind : Node.Kind} {group : List Parsed} {span : ByteSpan}
    (inner : kind ≠ .styleSheet) (block : kind.isBlock = false)
    (laid : ByteSpan.LaidOut lo hi (group.map Parsed.span))
    (all : ∀ p ∈ group, p.AllSound inp.source tokens) (eq : cover (trim group) = some span) :
    (Parsed.node kind span (trim group)).AllSound inp.source tokens := by
  have sub := trim_sublist group
  have sound : ∀ p ∈ trim group, p.AllSound inp.source tokens := fun p mem => all p (sub.subset mem)
  obtain ⟨-, -, fits, inside⟩ := fits_cover (laid.sublist (sub.map _)) sound eq
  exact .node fits inner (by simp [block]) inside sound

/-- Nodes over the trimmed groups of a list are laid out like the list. -/
theorem laidOut_filterMap (pick : List Parsed → Option Parsed) {groups : List (List Parsed)}
    (covers : ∀ group p, pick group = some p → cover (trim group) = some p.span)
    (laid : ByteSpan.LaidOut lo hi (groups.flatten.map Parsed.span))
    (all : ∀ p ∈ groups.flatten, p.AllSound inp.source tokens) :
    ByteSpan.LaidOut lo hi ((groups.filterMap pick).map Parsed.span) := by
  induction groups generalizing lo with
  | nil => exact laid
  | cons group groups ih =>
    rw [List.flatten_cons, List.map_append] at laid
    obtain ⟨mid, first, rest⟩ := ByteSpan.laidOut_append.1 laid
    have later := ih rest fun p mem => all p (by simp_all)
    cases e : pick group with
    | none =>
      rw [List.filterMap_cons_none e]
      exact later.of_le first.le
    | some p =>
      have sub := trim_sublist group
      obtain ⟨start, stop, fits, -⟩ := fits_cover (first.sublist (sub.map _))
        (fun p mem => all p (by have := sub.subset mem; simp_all)) (covers group p e)
      rw [List.filterMap_cons_some e]
      exact ⟨start, fits.start_le_stop, later.of_le stop⟩

/-! ## Preludes -/

theorem mediaQueries_spec {atoms : List Parsed} (laid : ByteSpan.LaidOut lo hi (atoms.map Parsed.span))
    (all : ∀ p ∈ atoms, p.AllSound inp.source tokens) :
    ByteSpan.LaidOut lo hi ((mediaQueries inp atoms).map Parsed.span)
      ∧ ∀ p ∈ mediaQueries inp atoms, p.AllSound inp.source tokens := by
  have sub := flatten_splitAtCommas_sublist atoms
  have sound : ∀ p ∈ (splitAtCommas atoms).flatten, p.AllSound inp.source tokens :=
    fun p mem => all p (sub.subset mem)
  have inside := laid.sublist (sub.map Parsed.span)
  refine ⟨laidOut_filterMap _ ?_ inside sound, ?_⟩
  · intro group p eq
    obtain ⟨span, e, rfl⟩ := Option.map_eq_some_iff.1 eq
    exact e
  · intro p mem
    obtain ⟨group, member, eq⟩ := List.mem_filterMap.1 mem
    obtain ⟨span, e, rfl⟩ := Option.map_eq_some_iff.1 eq
    have part := List.sublist_flatten_of_mem member
    exact AllSound.over_trim (by simp) rfl (inside.sublist (part.map _)) (fun p mem => sound p (part.subset mem)) e

theorem preludeOf_spec {atoms : List Parsed} (name : String)
    (laid : ByteSpan.LaidOut lo hi (atoms.map Parsed.span)) (all : ∀ p ∈ atoms, p.AllSound inp.source tokens) :
    ByteSpan.LaidOut lo hi ((preludeOf inp name atoms).1.map Parsed.span)
      ∧ (∀ p ∈ (preludeOf inp name atoms).1, p.AllSound inp.source tokens)
      ∧ ∀ p ∈ (preludeOf inp name atoms).2, p.AllSound inp.source tokens := by
  have sub := trim_sublist atoms
  have sound : ∀ p ∈ trim atoms, p.AllSound inp.source tokens := fun p mem => all p (sub.subset mem)
  have trimmed : ∀ p ∈ trimmings atoms, p.AllSound inp.source tokens :=
    fun p mem => all p (mem_of_mem_trimmings mem)
  unfold preludeOf
  simp only
  split
  next => exact ⟨laid.le, by simp, trimmed⟩
  next span eq =>
    obtain ⟨start, stop, fits, inside⟩ := fits_cover (laid.sublist (sub.map _)) sound eq
    have placed : ByteSpan.LaidOut lo hi [span] := ⟨start, fits.start_le_stop, stop⟩
    split
    · obtain ⟨queries, sounds⟩ := mediaQueries_spec inside sound
      refine ⟨placed, by simpa using .node fits (by simp) (by simp [Node.Kind.isBlock]) queries sounds, ?_⟩
      intro p mem
      rcases List.mem_append.1 mem with mem | mem
      · exact trimmed p mem
      · exact sound p (mem_of_mem_separators mem)
    · exact ⟨placed, by simpa using .node fits (by simp) (by simp [Node.Kind.isBlock]) inside sound, trimmed⟩

/-! ## Selectors -/

/-- The selector that a group stands for, unless it holds nothing but whitespace and comments. -/
def selectorOf? (inp : Input) (group : List Parsed) : Option Parsed :=
  (cover (trim group)).bind fun span =>
    if (trim group).any (fun p => !p.kind.isComment) then
      some (.node (.selector (Text.normalizeSelector (inp.slice span))) span (trim group))
    else none

theorem selectors_fst (start : Nat) (groups : List (List Parsed)) (st : State) :
    (selectors inp start groups st).1 = groups.filterMap (selectorOf? inp) := by
  induction groups generalizing start st with
  | nil => rfl
  | cons group groups ih =>
    simp only [selectors, List.filterMap_cons, selectorOf?]
    split
    next span e =>
      simp only [e, Option.bind_some]
      split
      · simp [ih]
      · simp [ih]
    next e => simp [e, ih]

theorem Reads.selectors {st st' : State} {a b : Nat} {used : List Token} {groups : List (List Parsed)}
    (start : Nat) (h : Reads inp.source tokens st a used st' b)
    (all : ∀ p ∈ groups.flatten, p.AllSound inp.source tokens) :
    Reads inp.source tokens st a used (selectors inp start groups st').2 b := by
  induction groups generalizing start st' with
  | nil => exact h
  | cons group groups ih =>
    have later : ∀ p ∈ groups.flatten, p.AllSound inp.source tokens := fun p mem => all p (by simp_all)
    have kept : ∀ p ∈ trim group, p.AllSound inp.source tokens :=
      fun p mem => all p (by have := (trim_sublist group).subset mem; simp_all)
    simp only [Grammar.selectors]
    split
    · split
      · exact ih _ h later
      · exact ih _ ((h.discard kept).report _) later
    · exact ih _ (h.report _) later

/-- Spans that are laid out somewhere are so between any two offsets that hold each of them. -/
theorem LaidOut.between {lo' hi' : Nat} {ss : List ByteSpan} (h : ByteSpan.LaidOut lo hi ss) (le : lo' ≤ hi')
    (inside : ∀ s ∈ ss, lo' ≤ s.start ∧ s.stop ≤ hi') : ByteSpan.LaidOut lo' hi' ss := by
  induction ss generalizing lo lo' with
  | nil => exact le
  | cons s ss ih =>
    refine ⟨(inside s (by simp)).1, h.2.1, ih h.2.2 (inside s (by simp)).2 fun u mem => ?_⟩
    exact ⟨(h.2.2.mem mem).1, (inside u (by simp [mem])).2⟩

theorem selectorOf?_eq_some {group : List Parsed} {p : Parsed} (eq : selectorOf? inp group = some p) :
    ∃ span, cover (trim group) = some span
      ∧ p = .node (.selector (Text.normalizeSelector (inp.slice span))) span (trim group) := by
  obtain ⟨span, e, eq⟩ := Option.bind_eq_some_iff.1 eq
  refine ⟨span, e, ?_⟩
  split at eq
  · exact (Option.some.inj eq).symm
  · cases eq

/-- The span of a selector list holds the values that are left after trimming; where none is left it is
empty. -/
theorem listSpan_spec {atoms : List Parsed} (boundary : IsBoundary inp.source lo)
    (laid : ByteSpan.LaidOut lo hi (atoms.map Parsed.span)) (all : ∀ p ∈ atoms, p.AllSound inp.source tokens) :
    ∃ span, (cover (trim atoms)).getD ⟨lo, lo⟩ = span ∧ span.FitsIn inp.source ∧ lo ≤ span.start
      ∧ span.stop ≤ hi ∧ ∀ p ∈ trim atoms, span.start ≤ p.span.start ∧ p.span.stop ≤ span.stop := by
  cases e : cover (trim atoms) with
  | none =>
    have empty : trim atoms = [] := by
      cases e' : trim atoms with
      | nil => rfl
      | cons p ps =>
        rw [e', cover_cons] at e
        cases e
    exact ⟨_, rfl, .of_boundaries (Nat.le_refl lo) boundary boundary, Nat.le_refl lo, laid.le, by simp [empty]⟩
  | some span =>
    obtain ⟨start, stop, fits, tight⟩ := fits_cover (laid.sublist ((trim_sublist atoms).map Parsed.span))
      (fun p mem => all p ((trim_sublist atoms).subset mem)) e
    refine ⟨span, rfl, fits, start, stop, fun p mem => ?_⟩
    have := tight.mem (List.mem_map_of_mem mem)
    exact ⟨this.1, this.2.2⟩

theorem selectorListOf_spec {st st' : State} {a b : Nat} {used : List Token} {atoms : List Parsed}
    (boundary : IsBoundary inp.source lo) (h : Reads inp.source tokens st a used st' b)
    (laid : ByteSpan.LaidOut lo hi (atoms.map Parsed.span)) (all : ∀ p ∈ atoms, p.AllSound inp.source tokens) :
    Reads inp.source tokens st a used (selectorListOf inp lo atoms st').2 b
      ∧ (selectorListOf inp lo atoms st').1.AllSound inp.source tokens
      ∧ ByteSpan.LaidOut lo hi [(selectorListOf inp lo atoms st').1.span] := by
  have sub := flatten_splitAtCommas_sublist atoms
  have sound : ∀ p ∈ (splitAtCommas atoms).flatten, p.AllSound inp.source tokens :=
    fun p mem => all p (sub.subset mem)
  have inside := laid.sublist (sub.map Parsed.span)
  have reads := (h.selectors lo sound).discard fun p mem => all p (mem_of_mem_separators mem)
  have selectors := laidOut_filterMap (selectorOf? inp)
    (fun group p eq => by obtain ⟨span, e, rfl⟩ := selectorOf?_eq_some eq; exact e) inside sound
  have sounds : ∀ p ∈ (splitAtCommas atoms).filterMap (selectorOf? inp), p.AllSound inp.source tokens := by
    intro p mem
    obtain ⟨group, member, eq⟩ := List.mem_filterMap.1 mem
    obtain ⟨span, e, rfl⟩ := selectorOf?_eq_some eq
    have part := List.sublist_flatten_of_mem member
    exact AllSound.over_trim (by simp) rfl (inside.sublist (part.map _)) (fun p mem => sound p (part.subset mem)) e
  obtain ⟨span, eq, fits, start, stop, holds⟩ := listSpan_spec boundary laid all
  unfold selectorListOf
  simp only [selectors_fst, eq]
  refine ⟨reads, .node fits (by simp) (by simp [Node.Kind.isBlock]) ?_ sounds, start, fits.start_le_stop, stop⟩
  -- A selector starts and ends with values that trimming the whole list keeps.
  refine LaidOut.between selectors fits.start_le_stop fun s mem => ?_
  obtain ⟨p, hp, rfl⟩ := List.mem_map.1 mem
  obtain ⟨group, member, picked⟩ := List.mem_filterMap.1 hp
  obtain ⟨span', e, rfl⟩ := selectorOf?_eq_some picked
  obtain ⟨first, hf, last, hl, fw, lw, rfl⟩ := ends_of_cover_trim e
  have part := ((trim_sublist group).trans (List.sublist_flatten_of_mem member)).trans sub
  have kept (q : Parsed) (hq : q ∈ trim group) (white : q.isWhitespace = false) : q ∈ trim atoms :=
    (white_or_mem_trim (part.subset hq)).resolve_left (by simp [white])
  exact ⟨(holds first (kept first hf fw)).1, (holds last (kept last hl lw)).2⟩

/-! ## Declarations -/

/-- Reading a declaration that starts at byte `a` went from `st` to `st'` and gave the node `p`; what the
node leaves out at its end means nothing. -/
def ReadsEntry (inp : Input) (tokens : List Token) (st : State) (a : Nat) (p : Parsed) (st' : State) : Prop :=
  ∃ used b, used ≠ [] ∧ Reads inp.source tokens st a used st' b ∧ p.AllSound inp.source tokens
    ∧ p.span.start = a ∧ p.span.stop ≤ b ∧ ∀ t ∈ used, t.kind.isFiller ∨ p.span.holds t

/-- Reading goes on behind an entry, with fewer tokens to come. -/
theorem ReadsEntry.next {st st' : State} {a : Nat} {p : Parsed} (h : ReadsEntry inp tokens st a p st') :
    ∃ b, Ready inp.source tokens st' b ∧ st'.rest.length < st.rest.length := by
  obtain ⟨used, b, some, reads, -⟩ := h
  have := reads.length
  have := List.length_pos_iff.2 some
  exact ⟨b, reads.ready, by omega⟩

/-- What is passed over of a malformed declaration ends where reading stands; if it is nothing, the end
stays as it was. -/
theorem Ready.skipDeclaration (fuel stop : Nat) {st : State} (h : Ready inp.source tokens st lo)
    (enough : st.rest.length ≤ fuel) :
    ∃ used b, Reads inp.source tokens st lo used (skipDeclaration fuel stop st).2 b
      ∧ (used = [] ∧ b = lo ∧ (skipDeclaration fuel stop st).1 = stop ∨ (skipDeclaration fuel stop st).1 = b) := by
  induction fuel generalizing st stop lo with
  | zero => exact ⟨[], lo, .refl h, .inl ⟨rfl, rfl, rfl⟩⟩
  | succ fuel ih =>
    unfold Grammar.skipDeclaration
    split
    next => exact ⟨[], lo, .refl h, .inl ⟨rfl, rfl, rfl⟩⟩
    next ends =>
      have more : st.nextKind ≠ .eof := by simp_all
      obtain ⟨t, ts, e, -⟩ := rest_of_nextKind more
      obtain ⟨used, some, reads⟩ := h.skipComponent (by simp [e])
      have := reads.length
      have := List.length_pos_iff.2 some
      obtain ⟨used', b, reads', stops⟩ := ih st.skipComponent.1 reads.ready (by omega)
      refine ⟨used ++ used', b, reads.trans reads', .inr ?_⟩
      rcases stops with ⟨-, rfl, eq⟩ | eq
      · exact eq
      · exact eq

/-- Raw text for a malformed declaration covers what is passed over, except for blanks and comments
before it. -/
theorem Reads.rawDeclaration {st st' : State} {mid stop : Nat} {used : List Token} (some : used ≠ [])
    (boundary : IsBoundary inp.source lo) (h : Reads inp.source tokens st lo used st' mid)
    (le : lo ≤ stop) (stop_le : stop ≤ mid) (ends : IsBoundary inp.source stop)
    (filler : ∀ t ∈ used, t.kind.isFiller ∨ t.stop ≤ stop) :
    ReadsEntry inp tokens st lo (rawDeclaration inp lo stop st').1 (rawDeclaration inp lo stop st').2 := by
  obtain ⟨skipped, b, reads, stops⟩ := h.ready.skipDeclaration st'.rest.length stop (Nat.le_refl _)
  have all := h.trans reads
  unfold Grammar.rawDeclaration
  rcases stops with ⟨rfl, rfl, eq⟩ | eq
  · simp only [eq]
    obtain ⟨span, sound⟩ := rawNode_spec tokens le boundary ends
    refine ⟨_, b, by simp [some], all, sound, by rw [span], by rw [span]; exact stop_le, fun t mem => ?_⟩
    simp only [List.append_nil] at mem
    refine (filler t mem).imp_right fun before => ?_
    rw [span]
    exact ByteSpan.holds_iff.2 ⟨(h.within t mem).1, before⟩
  · simp only [eq]
    obtain ⟨span, sound⟩ := rawNode_spec tokens all.le boundary all.ready.boundary
    refine ⟨_, b, by simp [some], all, sound, by rw [span], Nat.le_of_eq (by rw [span]), fun t mem => .inr ?_⟩
    rw [span]
    exact all.holds mem

/-- The node of a declaration is made of a part of its trimmed values, and all others are set aside. -/
theorem declarationOf_eq (inp : Input) (property : String) (start colonEnd : Nat) (atoms : List Parsed) (st : State) :
    ∃ important kept dropped, kept.Sublist (trim atoms) ∧ (∃ part, part <:+: atoms ∧ kept = trim part)
      ∧ dropped ⊆ trim atoms
      ∧ declarationOf inp property start colonEnd atoms st =
        (let stop := ByteSpan.lastStop colonEnd ((trim atoms).map Parsed.span)
        let st := (st.discard (trimmings atoms)).discard dropped
        if kept.isEmpty && !property.startsWith "--" then
          (rawNode inp start stop,
            (st.report (.missingValue property (inp.placeOf ⟨start, stop⟩))).discard kept)
        else
          (.node (.declaration property important) ⟨start, stop⟩
            [.node .value ((cover kept).getD ⟨colonEnd, colonEnd⟩) kept], st)) := by
  have stop : ((trim atoms).getLast?.map (·.span.stop)).getD colonEnd
      = ByteSpan.lastStop colonEnd ((trim atoms).map Parsed.span) := by
    simp [ByteSpan.lastStop, List.getLast?_map, Function.comp_def]
  unfold declarationOf
  cases e : importantAt? (trim atoms) with
  | none =>
    exact ⟨false, trim atoms, [], List.Sublist.refl _, ⟨atoms, List.infix_refl _, rfl⟩, by simp, by simp only [e, stop]⟩
  | some i =>
    refine ⟨true, trim ((trim atoms).take i), trimmings ((trim atoms).take i) ++ (trim atoms).drop i, ?_,
      ⟨_, (List.take_prefix i _).isInfix.trans (trim_isInfix atoms), rfl⟩, ?_, by simp only [e, stop]⟩
    · exact (trim_sublist _).trans (List.take_sublist _ _)
    · refine List.append_subset.2 ⟨fun p mem => ?_, List.drop_subset _ _⟩
      exact List.take_subset _ _ (mem_of_mem_trimmings mem)

/-- A declaration goes from its property to the last value that is no whitespace, or to its colon. -/
theorem declarationOf_spec {st st' : State} {a b mid : Nat} {used : List Token} (property : String)
    {atoms : List Parsed} (h : Reads inp.source tokens st a used st' b) (le : lo ≤ mid)
    (start : IsBoundary inp.source lo) (colon : IsBoundary inp.source mid)
    (laid : ByteSpan.LaidOut mid hi (atoms.map Parsed.span)) (all : ∀ p ∈ atoms, p.AllSound inp.source tokens) :
    Reads inp.source tokens st a used (declarationOf inp property lo mid atoms st').2 b
      ∧ (declarationOf inp property lo mid atoms st').1.AllSound inp.source tokens
      ∧ (declarationOf inp property lo mid atoms st').1.span
        = ⟨lo, ByteSpan.lastStop mid ((trim atoms).map Parsed.span)⟩ := by
  have sub := trim_sublist atoms
  have sound : ∀ p ∈ trim atoms, p.AllSound inp.source tokens := fun p mem => all p (sub.subset mem)
  have tight := (laid.sublist (sub.map Parsed.span)).to_lastStop
  have ends := lastStop_boundary colon sound
  obtain ⟨important, kept, dropped, keeps, -, drops, eq⟩ := declarationOf_eq inp property lo mid atoms st'
  rw [eq]
  generalize ByteSpan.lastStop mid ((trim atoms).map Parsed.span) = stop at tight ends ⊢
  have reads := (h.discard fun p mem => all p (mem_of_mem_trimmings mem)).discard
    fun p mem => sound p (drops mem)
  have whole := Nat.le_trans le tight.le
  have held : ∀ p ∈ kept, p.AllSound inp.source tokens := fun p mem => sound p (keeps.subset mem)
  simp only
  split
  · obtain ⟨span, node⟩ := rawNode_spec tokens whole start ends
    exact ⟨(reads.report _).discard held, node, span⟩
  · have value : (Parsed.node .value ((cover kept).getD ⟨mid, mid⟩) kept).AllSound inp.source tokens
        ∧ ByteSpan.LaidOut mid stop [(cover kept).getD ⟨mid, mid⟩] := by
      cases e : cover kept with
      | none =>
        have none : kept = [] := by
          cases kept with
          | nil => rfl
          | cons p ps => rw [cover_cons] at e; cases e
        subst none
        exact ⟨.leaf (.of_boundaries (Nat.le_refl mid) colon colon) (by simp) rfl, Nat.le_refl mid,
          Nat.le_refl mid, tight.le⟩
      | some span =>
        obtain ⟨a, b, fits, inside⟩ := fits_cover (tight.sublist (keeps.map _)) held e
        exact ⟨.node fits (by simp) (by simp [Node.Kind.isBlock]) inside held, a, fits.start_le_stop, b⟩
    refine ⟨reads, .node (.of_boundaries whole start ends) (by simp) (by simp [Node.Kind.isBlock]) ?_
      (by simpa using value.1), rfl⟩
    exact value.2.of_le le

/-- What trimming leaves out of the values of a declaration are blanks. -/
theorem filler_or_le_lastStop {mid stop : Nat} {atoms : List Parsed} {t : Token}
    (laid : ByteSpan.LaidOut mid stop (atoms.map Parsed.span))
    (covered : ∃ p ∈ atoms, p.span.holds t ∧ (p.isWhitespace → t.kind = .whitespace)) :
    t.kind.isFiller ∨ t.stop ≤ ByteSpan.lastStop mid ((trim atoms).map Parsed.span) := by
  obtain ⟨p, mem, held, white⟩ := covered
  rcases white_or_mem_trim mem with w | kept
  · exact .inl (by simp [white w, Token.Kind.isFiller])
  · have tight := (laid.sublist ((trim_sublist atoms).map Parsed.span)).to_lastStop
    exact .inr (Nat.le_trans (ByteSpan.holds_iff.1 held).2 (tight.mem (List.mem_map_of_mem kept)).2.2)

theorem Ready.declaration {st : State} {t : Token} {ts : List Token} (property : String)
    (h : Ready inp.source tokens st lo) (e : st.rest = t :: ts) :
    ReadsEntry inp tokens st lo (declaration inp t property st).1 (declaration inp t property st).2 := by
  have tiles := h.tiles
  rw [e] at tiles
  have start : t.start = lo := tiles.start_eq
  have name := h.advance e
  obtain ⟨trivia, mid, skip, blank⟩ := name.ready.skipTrivia
  have reads := name.trans skip
  have filler : ∀ u ∈ [t] ++ trivia, u.kind.isFiller ∨ u.stop ≤ t.stop := by
    intro u mem
    rcases List.mem_append.1 mem with mem | mem
    · exact .inr (by simp_all)
    · have := blank u mem
      cases k : u.kind <;> simp_all [Token.Kind.isTrivia, Token.Kind.isFiller]
  unfold Grammar.declaration
  simp only [start]
  split
  next colon ts' e' =>
    have colonRead : Reads inp.source tokens st lo ([t] ++ trivia ++ [⟨.colon, colon⟩]) _ colon.stop.offset :=
      reads.advance e'
    obtain ⟨used, b, values, adjoin, sound, covered, -⟩ := colonRead.ready.components endsDeclaration
    have all := colonRead.trans values
    obtain ⟨read, node, span⟩ := declarationOf_spec property all colonRead.le h.boundary colonRead.ready.boundary
      adjoin.laidOut sound
    have tight := (adjoin.laidOut.sublist ((trim_sublist _).map Parsed.span)).to_lastStop
    refine ⟨_, b, by simp, read, node, by rw [span], ?_, fun u mem => ?_⟩
    · rw [span]
      exact (adjoin.laidOut.sublist ((trim_sublist _).map Parsed.span)).lastStop_le
    · rw [span]
      have first := (all.within u mem).1
      rcases List.mem_append.1 mem with mem | mem
      · exact .inr (ByteSpan.holds_iff.2 ⟨first, Nat.le_trans (colonRead.within u mem).2 tight.le⟩)
      · exact (filler_or_le_lastStop adjoin.laidOut (covered u mem)).imp_right
          fun le => ByteSpan.holds_iff.2 ⟨first, le⟩
  next =>
    exact (reads.report _).rawDeclaration (by simp) h.boundary tiles.le_stop skip.le name.ready.boundary filler

end AboveFold.Grammar
