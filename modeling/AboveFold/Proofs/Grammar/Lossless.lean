import AboveFold.Proofs.Grammar.Entries
import AboveFold.Proofs.Tree.Numbering

/-!
# Nothing is lost

Whatever part of its tokens a stylesheet is read from, the spans in its tree nest, siblings stand in
order, and each token that means anything lies inside exactly one entry of the list it stands in.
-/

namespace AboveFold
open Source

/-- How many children of a node a token lies inside of. -/
def Branch.holders (b : Branch) (t : Token) : Nat :=
  b.children.countP fun c => c.node.span.any (·.holds t)

/-- The braces around a block. The second is missing only if the tokens end before it, and may be any
bracket that closes. -/
structure Braces (tokens : List Token) (span : ByteSpan) (opener : Token) (closer : Option Token) : Prop where
  opener_mem : opener ∈ tokens
  opens : opener.kind = .curlyOpen
  start : opener.start = span.start
  closes : ∀ t ∈ closer, t ∈ tokens ∧ t.kind.closing?.isSome ∧ t.stop = span.stop
  ended : closer = none → ∀ t ∈ tokens, span.stop ≤ t.start → t.kind = .eof

/-- A node keeps to the text and the tokens it was read from: its span is a range of the text that holds
the spans of its children in order, and what a style sheet or a block holds beside them are separators
and stray braces. -/
structure Branch.Lossless (source : String) (tokens : List Token) (errors : List Diagnostic) (b : Branch)
    (span : ByteSpan) : Prop where
  read : b.node.span = some span
  fits : span.FitsIn source
  inside : ∀ c ∈ b.children, ∃ s, c.node.span = some s ∧ span.start ≤ s.start ∧ s.stop ≤ span.stop
  ordered : b.children.Pairwise fun c d =>
    ∃ s u, c.node.span = some s ∧ d.node.span = some u ∧ s.stop ≤ u.start
  sheet : b.kind = .styleSheet → ∀ t ∈ tokens,
    t.kind.isFiller ∨ (t.kind = .curlyClose ∧ Diagnostic.strayBrace t.span ∈ errors) ∨ b.holders t = 1
  block : b.kind.isBlock → ∃ opener closer, Braces tokens span opener closer
    ∧ ∀ t ∈ tokens, span.holds t → t ≠ opener → closer ≠ some t → t.kind.isFiller ∨ b.holders t = 1

section

variable {source : String} {tokens : List Token} {here : Nat} {span : ByteSpan} {parts : List ByteSpan}

/-- A token that is no filler takes at least one byte. -/
theorem Token.Tiles.lt_of_not_filler (tiles : Token.Tiles source here tokens) {t : Token} (mem : t ∈ tokens)
    (k : ¬t.kind.isFiller) : t.start < t.stop :=
  tiles.start_lt_stop mem fun e => by simp [e, Token.Kind.isFiller] at k

/-- Tokens before those that a span holds lie outside of it, and so do tokens after them. -/
theorem not_holds_of_tiles {before within after : List Token} {t : Token}
    (tiles : Token.Tiles source here (before ++ within ++ after)) (first : ∃ u ∈ within, u.start = span.start)
    (last : (∀ u ∈ after, u.kind = .eof) ∨ ∃ u ∈ within, u.stop = span.stop)
    (mem : t ∈ before ++ within ++ after) (k : ¬t.kind.isFiller) (holds : span.holds t) : t ∈ within := by
  have size := tiles.lt_of_not_filler mem k
  have ordered := tiles.pairwise
  simp only [List.append_assoc, List.pairwise_append, List.mem_append] at ordered
  obtain ⟨-, ⟨-, -, later⟩, earlier⟩ := ordered
  obtain ⟨lo, hi⟩ := ByteSpan.holds_iff.1 holds
  rcases List.mem_append.1 mem with mem | mem
  · rcases List.mem_append.1 mem with mem | mem
    · obtain ⟨u, hu, e⟩ := first
      have := earlier t mem u (.inl hu)
      omega
    · exact mem
  · rcases last with eof | ⟨u, hu, e⟩
    · simp [eof t mem, Token.Kind.isFiller] at k
    · have := later u hu t mem
      omega

/-- Behind a span that reaches to the last token there is only the end of input. -/
theorem eof_of_stop_le {before within after : List Token} {t : Token}
    (tiles : Token.Tiles source here (before ++ within ++ after)) (held : ∀ u ∈ within, span.holds u)
    (some : ∃ u ∈ within, u.kind ≠ .eof) (eof : ∀ u ∈ after, u.kind = .eof) (mem : t ∈ before ++ within ++ after)
    (behind : span.stop ≤ t.start) : t.kind = .eof := by
  refine Classical.byContradiction fun k => ?_
  have size := tiles.start_lt_stop mem k
  have ordered := tiles.pairwise
  simp only [List.append_assoc, List.pairwise_append, List.mem_append] at ordered
  obtain ⟨u, hu, more⟩ := some
  have size' := tiles.start_lt_stop (u := u) (by simp [hu]) more
  rcases List.mem_append.1 mem with mem | mem
  · rcases List.mem_append.1 mem with mem | mem
    · have := ordered.2.2 t mem u (.inl hu)
      have := ByteSpan.holds_iff.1 (held u hu)
      omega
    · have := ByteSpan.holds_iff.1 (held t mem)
      omega
  · exact k (eof t mem)

/-- Of the tokens inside a block, all but its braces and separators lie inside exactly one part. -/
theorem Encloses.braces (h : Encloses tokens span parts) (tiles : Token.Tiles source here tokens) {lo hi : Nat}
    (laid : ByteSpan.LaidOut lo hi parts) :
    ∃ opener closer, Braces tokens span opener closer
      ∧ ∀ t ∈ tokens, span.holds t → t ≠ opener → closer ≠ some t →
        t.kind.isFiller ∨ parts.countP (·.holds t) = 1 := by
  obtain ⟨before, opener, inner, closing, after, rfl, opens, start, held, closed, covered⟩ := h
  have shape : before ++ opener :: inner ++ closing ++ after = before ++ (opener :: inner ++ closing) ++ after := by
    simp
  rw [shape] at tiles ⊢
  have one {t : Token} (mem : t ∈ inner) : t.kind.isFiller ∨ parts.countP (·.holds t) = 1 := by
    by_cases k : t.kind.isFiller
    · exact .inl k
    · exact .inr (laid.countP_holds (tiles.lt_of_not_filler (by simp [mem]) k) ((covered t mem).resolve_left k))
  have within {t : Token} := not_holds_of_tiles (t := t) tiles ⟨opener, by simp, start⟩
  rcases closed with ⟨rfl, eof⟩ | ⟨closer, rfl, closing, stop⟩
  · refine ⟨opener, none, ⟨by simp, opens, start, by simp, fun _ t mem => ?_⟩, fun t mem holds other _ => ?_⟩
    · exact eof_of_stop_le tiles held ⟨opener, by simp, by simp [opens]⟩ eof mem
    · by_cases k : t.kind.isFiller
      · exact .inl k
      · refine one ?_
        simpa [other] using within (.inl eof) mem k holds
  · refine ⟨opener, some closer, ⟨by simp, opens, start, ?_, by simp⟩, fun t mem holds other other' => ?_⟩
    · simp [closing, stop]
    · by_cases k : t.kind.isFiller
      · exact .inl k
      · refine one ?_
        have ne : t ≠ closer := fun e => other' (by rw [e])
        simpa [other, ne] using within (.inr ⟨closer, by simp, stop⟩) mem k holds

end

/-! ## From what was read to the tree -/

section

variable {source : String} {tokens : List Token} {errors : List Diagnostic} {here : Nat} {b : Branch} {p : Parsed}

theorem Branch.Reflects.holders (h : b.Reflects p) (t : Token) :
    b.holders t = (p.children.map Parsed.span).countP (·.holds t) := by
  have counted (cs : List Branch) : cs.countP (fun c => c.node.span.any (·.holds t))
      = (cs.map (·.node.span)).countP (·.any (·.holds t)) := by
    simp [List.countP_map, Function.comp_def]
  rw [Branch.holders, counted, h.children]
  simp [List.countP_map, Function.comp_def]

/-- A child of a branch is as a child of the tree was read. -/
theorem Branch.Reflects.child (h : b.Reflects p) {c : Branch} (mem : c ∈ b.children) :
    ∃ q ∈ p.children, c.node.span = some q.span := by
  have : c.node.span ∈ b.children.map (·.node.span) := List.mem_map_of_mem mem
  rw [h.children] at this
  obtain ⟨q, hq, e⟩ := List.mem_map.1 this
  exact ⟨q, hq, e.symm⟩

/-- A branch is lossless if it reflects a node that is laid out, and what the node stands for is
covered. -/
theorem Branch.Reflects.lossless (h : b.Reflects p) (fits : p.span.FitsIn source)
    (laid : ByteSpan.LaidOut p.span.start p.span.stop (p.children.map Parsed.span))
    (tiles : Token.Tiles source here tokens)
    (sheet : p.kind = .styleSheet → ∀ t ∈ tokens,
      Grammar.LeftOut .topLevel errors t ∨ ∃ q ∈ p.children, q.span.holds t)
    (block : p.kind.isBlock → Encloses tokens p.span (p.children.map Parsed.span)) :
    b.Lossless source tokens errors p.span where
  read := h.span
  fits := fits
  inside := by
    intro c mem
    obtain ⟨q, hq, e⟩ := h.child mem
    have := laid.mem (List.mem_map_of_mem hq)
    exact ⟨q.span, e, this.1, this.2.2⟩
  ordered := by
    have : (b.children.map (·.node.span)).Pairwise fun s u =>
        ∃ s' u', s = some s' ∧ u = some u' ∧ s'.stop ≤ u'.start := by
      rw [h.children, List.pairwise_map]
      simpa [List.pairwise_map] using laid.pairwise
    simpa [List.pairwise_map] using this
  sheet := by
    intro k t mem
    rw [h.holders t]
    by_cases filler : t.kind.isFiller
    · exact .inl filler
    · rcases sheet (h.kind ▸ k) t mem with (filler | ⟨-, stray⟩) | ⟨q, hq, holds⟩
      · exact .inl filler
      · exact .inr (.inl stray)
      · refine .inr (.inr (laid.countP_holds (tiles.lt_of_not_filler mem filler) ?_))
        exact ⟨q.span, List.mem_map_of_mem hq, holds⟩
  block := by
    intro k
    simp only [h.holders]
    exact (block (h.kind ▸ k)).braces tiles laid

end

namespace Grammar

/-- Reading any tokens that follow each other. -/
theorem Input.read_spec (inp : Input) {tokens : List Token} {here : Nat} (boundary : IsBoundary inp.source here)
    (tiles : Token.Tiles inp.source here tokens) :
    ∃ ps, (inp.read tokens).sheet = .node .styleSheet ⟨0, Text.byteSize inp.source.toList⟩ ps
      ∧ ByteSpan.LaidOut 0 (Text.byteSize inp.source.toList) (ps.map Parsed.span)
      ∧ (∀ p ∈ ps, p.AllSound inp.source tokens)
      ∧ (∀ p ∈ (inp.read tokens).discarded, p.AllSound inp.source tokens)
      ∧ ∀ t ∈ tokens, LeftOut .topLevel (inp.read tokens).errors t ∨ ∃ p ∈ ps, p.span.holds t := by
  have ready := Ready.start boundary tiles
  obtain ⟨used, b, reads, laid, sound, covered, ended⟩ :=
    (entriesRead inp tokens _).list .topLevel _ _ ready (Nat.le_refl _)
  refine ⟨_, rfl, (laid.of_le (Nat.zero_le here)).to_le reads.ready.boundary.le, sound, reads.ready.discarded, ?_⟩
  intro t mem
  have eof := reads.ready.rest_of_eof (ended.resolve_right (by simp))
  have split : tokens = used ++ _ := reads.rest
  rw [split] at mem
  rcases List.mem_append.1 mem with mem | mem
  · exact (covered t mem).imp_left fun out => out.mono fun _ reported => List.mem_reverse.2 reported
  · exact .inl (.inl (by simp [eof t mem, Token.Kind.isFiller]))

end Grammar

end AboveFold
