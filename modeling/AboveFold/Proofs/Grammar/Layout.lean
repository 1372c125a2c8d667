import AboveFold.Grammar.Rule
import AboveFold.Proofs.Token.Tiling

/-!
# The layout of what was read

Spans side by side are `LaidOut` between two offsets when they stand in order and do not overlap; they
are `Adjoining` when they leave no gap either. A node is `Sound` when its span is a range of the source,
its children are laid out inside it, and, if it is a block, every token between its braces that means
anything lies inside a child.
-/

namespace AboveFold.Source.ByteSpan

/-- Spans in order and without overlap between `lo` and `hi`. -/
def LaidOut (lo hi : Nat) : List ByteSpan → Prop
  | [] => lo ≤ hi
  | s :: ss => lo ≤ s.start ∧ s.start ≤ s.stop ∧ LaidOut s.stop hi ss

/-- Spans that reach from `lo` to `hi` without a gap. -/
def Adjoining (lo hi : Nat) : List ByteSpan → Prop
  | [] => lo = hi
  | s :: ss => s.start = lo ∧ s.start ≤ s.stop ∧ Adjoining s.stop hi ss

section

variable {lo hi : Nat} {s : ByteSpan} {ss us : List ByteSpan}

theorem LaidOut.le (h : LaidOut lo hi ss) : lo ≤ hi := by
  induction ss generalizing lo with
  | nil => exact h
  | cons s ss ih => exact Nat.le_trans h.1 (Nat.le_trans h.2.1 (ih h.2.2))

theorem LaidOut.of_le {lo' : Nat} (h : LaidOut lo hi ss) (le : lo' ≤ lo) : LaidOut lo' hi ss := by
  cases ss with
  | nil => exact Nat.le_trans le h
  | cons s ss => exact ⟨Nat.le_trans le h.1, h.2⟩

theorem LaidOut.to_le {hi' : Nat} (h : LaidOut lo hi ss) (le : hi ≤ hi') : LaidOut lo hi' ss := by
  induction ss generalizing lo with
  | nil => exact Nat.le_trans h le
  | cons s ss ih => exact ⟨h.1, h.2.1, ih h.2.2⟩

theorem laidOut_append : LaidOut lo hi (ss ++ us) ↔ ∃ mid, LaidOut lo mid ss ∧ LaidOut mid hi us := by
  induction ss generalizing lo with
  | nil =>
    constructor
    · exact fun h => ⟨lo, Nat.le_refl lo, h⟩
    · rintro ⟨mid, le, h⟩
      exact h.of_le le
  | cons s ss ih =>
    simp only [List.cons_append, LaidOut, ih]
    constructor
    · rintro ⟨a, b, mid, h, h'⟩
      exact ⟨mid, ⟨a, b, h⟩, h'⟩
    · rintro ⟨mid, ⟨a, b, h⟩, h'⟩
      exact ⟨a, b, mid, h, h'⟩

theorem LaidOut.append {mid : Nat} (h : LaidOut lo mid ss) (h' : LaidOut mid hi us) :
    LaidOut lo hi (ss ++ us) :=
  laidOut_append.2 ⟨mid, h, h'⟩

theorem LaidOut.sublist (h : LaidOut lo hi ss) (sub : us.Sublist ss) : LaidOut lo hi us := by
  induction sub generalizing lo with
  | slnil => exact h
  | cons s _ ih => exact (ih h.2.2).of_le (Nat.le_trans h.1 h.2.1)
  | cons_cons s _ ih => exact ⟨h.1, h.2.1, ih h.2.2⟩

theorem LaidOut.mem (h : LaidOut lo hi ss) (mem : s ∈ ss) :
    lo ≤ s.start ∧ s.start ≤ s.stop ∧ s.stop ≤ hi := by
  induction ss generalizing lo with
  | nil => cases mem
  | cons u us ih =>
    rcases List.mem_cons.1 mem with rfl | mem
    · exact ⟨h.1, h.2.1, h.2.2.le⟩
    · obtain ⟨a, b, c⟩ := ih h.2.2 mem
      exact ⟨Nat.le_trans (Nat.le_trans h.1 h.2.1) a, b, c⟩

/-- Of two spans that are laid out, the first ends before the second starts. -/
theorem LaidOut.pairwise (h : LaidOut lo hi ss) : ss.Pairwise (fun s u => s.stop ≤ u.start) := by
  induction ss generalizing lo with
  | nil => exact .nil
  | cons s ss ih => exact .cons (fun u mem => (h.2.2.mem mem).1) (ih h.2.2)

/-- Where the last of some spans ends, or `lo` if there is none. -/
def lastStop (lo : Nat) (ss : List ByteSpan) : Nat :=
  (ss.getLast?.map stop).getD lo

@[simp] theorem lastStop_nil (lo : Nat) : lastStop lo [] = lo := rfl

@[simp] theorem lastStop_cons (lo : Nat) (s : ByteSpan) (ss : List ByteSpan) :
    lastStop lo (s :: ss) = lastStop s.stop ss := by
  cases ss <;> simp [lastStop, List.getLast?_cons]

theorem LaidOut.lastStop_le (h : LaidOut lo hi ss) : lastStop lo ss ≤ hi := by
  induction ss generalizing lo with
  | nil => exact h
  | cons s ss ih => simpa using ih h.2.2

/-- Spans that are laid out are so up to the end of the last. -/
theorem LaidOut.to_lastStop (h : LaidOut lo hi ss) : LaidOut lo (lastStop lo ss) ss := by
  induction ss generalizing lo with
  | nil => exact Nat.le_refl lo
  | cons s ss ih => exact ⟨h.1, h.2.1, by simpa using ih h.2.2⟩

theorem Adjoining.laidOut (h : Adjoining lo hi ss) : LaidOut lo hi ss := by
  induction ss generalizing lo with
  | nil => exact Nat.le_of_eq h
  | cons s ss ih => exact ⟨Nat.le_of_eq h.1.symm, h.2.1, ih h.2.2⟩

theorem Adjoining.of_append (h : Adjoining lo hi (ss ++ us)) : ∃ mid, Adjoining lo mid ss ∧ Adjoining mid hi us := by
  induction ss generalizing lo with
  | nil => exact ⟨lo, rfl, h⟩
  | cons s ss ih =>
    obtain ⟨mid, front, back⟩ := ih h.2.2
    exact ⟨mid, ⟨h.1, h.2.1, front⟩, back⟩

theorem Adjoining.lastStop_eq (h : Adjoining lo hi ss) : lastStop lo ss = hi := by
  induction ss generalizing lo with
  | nil => exact h
  | cons s ss ih => simpa using ih h.2.2

/-- The farthest end of adjoining spans is the end of the last. -/
theorem Adjoining.foldl_max (h : Adjoining lo hi ss) :
    ss.foldl (fun stop s => max stop s.stop) lo = hi := by
  induction ss generalizing lo with
  | nil => exact h
  | cons s ss ih =>
    rw [List.foldl_cons, Nat.max_eq_right (by have := h.1; have := h.2.1; omega)]
    exact ih h.2.2

end

/-- Whether a token lies inside a span. -/
def holds (s : ByteSpan) (t : Token) : Bool :=
  s.start ≤ t.start && t.stop ≤ s.stop

theorem holds_iff {s : ByteSpan} {t : Token} :
    s.holds t = true ↔ s.start ≤ t.start ∧ t.stop ≤ s.stop := by
  simp [holds]

/-- A token that takes any bytes lies inside at most one of the spans that are laid out. -/
theorem LaidOut.countP_holds {lo hi : Nat} {ss : List ByteSpan} {t : Token} (h : LaidOut lo hi ss)
    (size : t.start < t.stop) (held : ∃ s ∈ ss, s.holds t) : ss.countP (·.holds t) = 1 := by
  induction ss generalizing lo with
  | nil => simp at held
  | cons s ss ih =>
    by_cases first : s.holds t
    · have none : ss.countP (·.holds t) = 0 := by
        rw [List.countP_eq_zero]
        intro u mem hu
        have := (h.2.2.mem mem).1
        have := holds_iff.1 first
        have := holds_iff.1 hu
        omega
      simp [first, none]
    · obtain ⟨u, mem, hu⟩ := held
      rcases List.mem_cons.1 mem with rfl | mem
      · exact absurd hu first
      · simp [first, ih h.2.2 ⟨u, mem, hu⟩]

end AboveFold.Source.ByteSpan

namespace AboveFold.Token.Kind

/-- Tokens that separate entries of a list and say nothing themselves. -/
def isFiller : Kind → Bool
  | whitespace | comment _ | semicolon | cdo | cdc | eof => true
  | _ => false

end AboveFold.Token.Kind

namespace AboveFold
open Source

/-- A block with the given span and parts, as the tokens show it: an opening brace, the tokens inside,
and the bracket that closes it, which is missing only if the tokens end first. Inside, every token
that is no filler lies in one of the parts. -/
def Encloses (tokens : List Token) (span : ByteSpan) (parts : List ByteSpan) : Prop :=
  ∃ before opener inner closing after,
    tokens = before ++ opener :: inner ++ closing ++ after
    ∧ opener.kind = .curlyOpen ∧ opener.start = span.start
    ∧ (∀ t ∈ opener :: inner ++ closing, span.holds t)
    ∧ (closing = [] ∧ (∀ t ∈ after, t.kind = .eof)
      ∨ ∃ closer, closing = [closer] ∧ closer.kind.closing?.isSome ∧ closer.stop = span.stop)
    ∧ ∀ t ∈ inner, t.kind.isFiller ∨ ∃ s ∈ parts, s.holds t

namespace Parsed

mutual

/-- All nodes of a tree that was read, in document order. -/
def nodes : Parsed → List Parsed
  | node kind span children => node kind span children :: nodesAll children

/-- All nodes of a list of trees, in document order. -/
def nodesAll : List Parsed → List Parsed
  | [] => []
  | p :: ps => nodes p ++ nodesAll ps

end

theorem mem_nodesAll {q : Parsed} {ps : List Parsed} : q ∈ nodesAll ps ↔ ∃ p ∈ ps, q ∈ p.nodes := by
  induction ps with
  | nil => simp [nodesAll]
  | cons p ps ih => simp [nodesAll, ih]

/-- A property of every node of a tree. -/
def Every (P : Parsed → Prop) (p : Parsed) : Prop := ∀ q ∈ p.nodes, P q

theorem every_node {P : Parsed → Prop} {kind : Node.Kind} {span : ByteSpan} {ps : List Parsed} :
    Every P (node kind span ps) ↔ P (node kind span ps) ∧ ∀ p ∈ ps, Every P p := by
  simp only [Every, nodes, List.mem_cons, forall_eq_or_imp, mem_nodesAll]
  constructor
  · exact fun ⟨h, hs⟩ => ⟨h, fun p mem q hq => hs q ⟨p, mem, hq⟩⟩
  · exact fun ⟨h, hs⟩ => ⟨h, fun q ⟨p, mem, hq⟩ => hs p mem q hq⟩

theorem Every.self {P : Parsed → Prop} {p : Parsed} (h : Every P p) : P p := by
  cases p
  exact (every_node.1 h).1

/-- What every node that was read from `tokens` keeps to. -/
structure Sound (source : String) (tokens : List Token) (p : Parsed) : Prop where
  fits : p.span.FitsIn source
  laidOut : ByteSpan.LaidOut p.span.start p.span.stop (p.children.map span)
  inner : p.kind ≠ .styleSheet
  block : p.kind.isBlock → Encloses tokens p.span (p.children.map span)

/-- Every node of a tree is sound. -/
abbrev AllSound (source : String) (tokens : List Token) (p : Parsed) : Prop :=
  p.Every (Sound source tokens)

section

variable {source : String} {tokens : List Token} {kind : Node.Kind} {span : ByteSpan} {ps qs : List Parsed}

/-- A node is sound if its children are, and they are laid out inside it. -/
theorem AllSound.node (fits : span.FitsIn source) (inner : kind ≠ .styleSheet)
    (block : kind.isBlock → Encloses tokens span (ps.map Parsed.span))
    (laid : ByteSpan.LaidOut span.start span.stop (ps.map Parsed.span))
    (all : ∀ p ∈ ps, AllSound source tokens p) : AllSound source tokens (.node kind span ps) :=
  every_node.2 ⟨⟨fits, laid, inner, block⟩, all⟩

theorem AllSound.leaf (fits : span.FitsIn source) (inner : kind ≠ .styleSheet) (block : kind.isBlock = false) :
    AllSound source tokens (.leaf kind span) :=
  .node fits inner (by simp [block]) fits.start_le_stop (by simp)

theorem cover_cons (p : Parsed) (ps : List Parsed) :
    cover (p :: ps) = some ⟨p.span.start, ByteSpan.lastStop p.span.start ((p :: ps).map Parsed.span)⟩ := by
  have last := List.getLast?_eq_some_getLast (List.cons_ne_nil p ps)
  simp [cover, ByteSpan.lastStop, -List.map_cons, List.getLast?_map, last]

/-- Sound nodes that are laid out end between characters, if they start there. -/
theorem lastStop_boundary {lo : Nat} (start : IsBoundary source lo)
    (all : ∀ p ∈ ps, AllSound source tokens p) :
    IsBoundary source (ByteSpan.lastStop lo (ps.map Parsed.span)) := by
  induction ps generalizing lo with
  | nil => exact start
  | cons p ps ih =>
    rw [List.map_cons, ByteSpan.lastStop_cons]
    exact ih (all p (by simp)).self.fits.stop fun q mem => all q (List.mem_cons_of_mem p mem)

/-- The span over sound nodes that are laid out is a range of the source, and they are laid out inside
it. -/
theorem fits_cover {lo hi : Nat} (laid : ByteSpan.LaidOut lo hi (ps.map Parsed.span))
    (all : ∀ p ∈ ps, AllSound source tokens p) (eq : cover ps = some span) :
    lo ≤ span.start ∧ span.stop ≤ hi ∧ span.FitsIn source
      ∧ ByteSpan.LaidOut span.start span.stop (ps.map Parsed.span) := by
  cases ps with
  | nil => cases eq
  | cons p ps =>
    rw [cover_cons, Option.some.injEq] at eq
    subst eq
    have start := (all p (by simp)).self.fits.start
    have tight : ByteSpan.LaidOut p.span.start hi ((p :: ps).map Parsed.span) :=
      ⟨Nat.le_refl _, laid.2.1, laid.2.2⟩
    exact ⟨laid.1, tight.lastStop_le,
      .of_boundaries tight.to_lastStop.le start (lastStop_boundary start all), tight.to_lastStop⟩

end

end Parsed

end AboveFold
