import AboveFold.Proofs.Grammar.Layout

/-!
# Reading goes forward

Reading takes tokens from the front and never puts one back. `Reads` says which tokens a stretch of
reading took and from which byte to which byte it went; `Ready` is what holds between two stretches.
Each step of the state has one lemma here, and the functions of the grammar are followed through these
alone.
-/

namespace AboveFold.Grammar
open Source

/-- The state stands at byte `here`: the tokens to come start there, and what was read last ends there.
Nodes that were set aside are sound. -/
structure Ready (source : String) (tokens : List Token) (st : State) (here : Nat) : Prop where
  suffix : st.rest <:+ tokens
  tiles : Token.Tiles source here st.rest
  boundary : IsBoundary source here
  last : ∀ p, st.lastEnd = some p → p.offset = here
  discarded : ∀ p ∈ st.discarded, p.AllSound source tokens

/-- Reading went from `st` at byte `a` to `st'` at byte `b` and took the tokens `used`. -/
structure Reads (source : String) (tokens : List Token) (st : State) (a : Nat) (used : List Token)
    (st' : State) (b : Nat) : Prop where
  rest : st.rest = used ++ st'.rest
  ready : Ready source tokens st' b
  le : a ≤ b
  within : ∀ t ∈ used, a ≤ t.start ∧ t.stop ≤ b
  errors : ∀ d ∈ st.errors, d ∈ st'.errors
  started : used ≠ [] ∨ st.lastEnd ≠ none → st'.lastEnd ≠ none

section

variable {source : String} {tokens used : List Token} {st st' st'' : State} {a b c : Nat}

/-- Reading begins where the tokens do. -/
theorem Ready.start (boundary : IsBoundary source a) (tiles : Token.Tiles source a tokens) :
    Ready source tokens (.start tokens) a :=
  ⟨List.suffix_refl _, tiles, boundary, by simp [State.start], by simp [State.start]⟩

theorem Ready.lastOffset_eq (h : Ready source tokens st a) (started : st.lastEnd ≠ none) :
    st.lastOffset = a := by
  unfold State.lastOffset
  split
  next p e => exact h.last p e
  next e => exact absurd e started

theorem Reads.refl (h : Ready source tokens st a) : Reads source tokens st a [] st a :=
  ⟨rfl, h, Nat.le_refl a, by simp, fun _ mem => mem, fun h => h.resolve_left (by simp)⟩

theorem Reads.trans {used' : List Token} (h : Reads source tokens st a used st' b)
    (h' : Reads source tokens st' b used' st'' c) : Reads source tokens st a (used ++ used') st'' c where
  rest := by rw [h.rest, h'.rest, List.append_assoc]
  ready := h'.ready
  le := Nat.le_trans h.le h'.le
  within := by
    intro t mem
    rcases List.mem_append.1 mem with mem | mem
    · exact ⟨(h.within t mem).1, Nat.le_trans (h.within t mem).2 h'.le⟩
    · exact ⟨Nat.le_trans h.le (h'.within t mem).1, (h'.within t mem).2⟩
  errors := fun d mem => h'.errors d (h.errors d mem)
  started := by
    intro some
    by_cases e : used' = []
    · refine h'.started (.inr (h.started ?_))
      simpa [e] using some
    · exact h'.started (.inl e)

theorem Reads.lastOffset_eq (h : Reads source tokens st a used st' b)
    (started : used ≠ [] ∨ st.lastEnd ≠ none) : st'.lastOffset = b :=
  h.ready.lastOffset_eq (h.started started)

/-! ## Steps of the state -/

/-- Reading is not disturbed by what changes neither the tokens to come nor the place. -/
theorem Reads.congr (h : Reads source tokens st a used st' b) (rest : st''.rest = st'.rest)
    (last : st''.lastEnd = st'.lastEnd) (errors : ∀ d ∈ st'.errors, d ∈ st''.errors)
    (discarded : ∀ p ∈ st''.discarded, p.AllSound source tokens) :
    Reads source tokens st a used st'' b where
  rest := by rw [h.rest, rest]
  ready := ⟨rest ▸ h.ready.suffix, rest ▸ h.ready.tiles, h.ready.boundary, last ▸ h.ready.last, discarded⟩
  le := h.le
  within := h.within
  errors := fun d mem => errors d (h.errors d mem)
  started := fun some => last ▸ h.started some

theorem Reads.report (h : Reads source tokens st a used st' b) (d : Diagnostic) :
    Reads source tokens st a used (st'.report d) b :=
  h.congr rfl rfl (fun _ mem => List.mem_cons_of_mem d mem) h.ready.discarded

theorem Reads.discard (h : Reads source tokens st a used st' b) {ps : List Parsed}
    (all : ∀ p ∈ ps, p.AllSound source tokens) : Reads source tokens st a used (st'.discard ps) b := by
  refine h.congr rfl rfl (fun _ mem => mem) fun p mem => ?_
  rcases List.mem_append.1 mem with mem | mem
  · exact all p mem
  · exact h.ready.discarded p mem

theorem Reads.enter (h : Reads source tokens st a used st' b) (o : Diagnostic.Opening) :
    Reads source tokens st a used (st'.enter o) b :=
  h.congr rfl rfl (fun _ mem => mem) h.ready.discarded

theorem Reads.leave (h : Reads source tokens st a used st' b) :
    Reads source tokens st a used st'.leave b :=
  h.congr rfl rfl (fun _ mem => mem) h.ready.discarded

theorem State.advance_of_rest {t : Token} {ts : List Token} (e : st.rest = t :: ts) :
    st.advance = { st with rest := ts, lastEnd := some t.span.stop } := by
  simp [State.advance, e]

theorem State.length_advance_lt {t : Token} {ts : List Token} (e : st.rest = t :: ts) :
    st.advance.rest.length < st.rest.length := by
  simp [State.advance_of_rest e, e]

theorem Ready.advance (h : Ready source tokens st a) {t : Token} {ts : List Token} (e : st.rest = t :: ts) :
    Reads source tokens st a [t] st.advance t.stop := by
  have tiles := h.tiles
  rw [e] at tiles
  rw [State.advance_of_rest e]
  refine ⟨e, ⟨?_, tiles.tail, tiles.stop_boundary, ?_, h.discarded⟩, tiles.le_stop, ?_, fun _ mem => mem,
    fun _ => by simp⟩
  · exact (List.suffix_cons t ts).trans (e ▸ h.suffix)
  · rintro p ⟨⟩
    rfl
  · simp [tiles.start_eq]

theorem Reads.advance (h : Reads source tokens st a used st' b) {t : Token} {ts : List Token}
    (e : st'.rest = t :: ts) : Reads source tokens st a (used ++ [t]) st'.advance t.stop :=
  h.trans (h.ready.advance e)

theorem nextKind_of_rest {t : Token} {ts : List Token} (e : st.rest = t :: ts) : st.nextKind = t.kind := by
  simp [State.nextKind, e]

/-- There is a next token, unless the next kind is the end of input. -/
theorem rest_of_nextKind (h : st.nextKind ≠ .eof) : ∃ t ts, st.rest = t :: ts ∧ t.kind = st.nextKind := by
  cases e : st.rest with
  | nil => simp [State.nextKind, e] at h
  | cons t ts => exact ⟨t, ts, rfl, (nextKind_of_rest e).symm⟩

theorem rest_of_opens (opens : st.nextKind = .curlyOpen) : ∃ t ts, st.rest = t :: ts ∧ t.kind = .curlyOpen := by
  obtain ⟨t, ts, e, kind⟩ := rest_of_nextKind (show st.nextKind ≠ .eof by simp [opens])
  exact ⟨t, ts, e, kind.trans opens⟩

theorem length_pos_of_opens (opens : st.nextKind = .curlyOpen) : 0 < st.rest.length := by
  obtain ⟨t, ts, e, -⟩ := rest_of_opens opens
  simp [e]

/-- Before the end of input there are only tokens of that kind, at most one. -/
theorem Ready.rest_of_eof (h : Ready source tokens st a) (k : st.nextKind = .eof) :
    ∀ t ∈ st.rest, t.kind = .eof := by
  cases e : st.rest with
  | nil => simp
  | cons t ts =>
    have tiles := h.tiles
    rw [e] at tiles
    have kind : t.kind = .eof := (nextKind_of_rest e).symm.trans k
    simp [(tiles.eof kind).2, kind]

end

/-! ## Passing over tokens -/

section

variable {source : String} {tokens : List Token} {st : State} {a : Nat}

theorem skipTrivia_of_trivia {t : Token} {ts : List Token} (e : st.rest = t :: ts) (k : t.kind.isTrivia) :
    st.skipTrivia = st.advance.skipTrivia := by
  simp [State.skipTrivia, State.advance_of_rest e, e, State.triviaFrom, k]

theorem skipTrivia_of_not_trivia (h : st.nextKind.isTrivia = false) : st.skipTrivia = st := by
  cases e : st.rest with
  | nil =>
    simp only [State.skipTrivia, State.triviaFrom, e]
    rw [← e]
  | cons t ts =>
    rw [nextKind_of_rest e] at h
    simp only [State.skipTrivia, State.triviaFrom, e, h]
    rw [if_neg (by simp), ← e]

/-- Passing over blanks and comments takes these and nothing else. -/
theorem Ready.skipTrivia (h : Ready source tokens st a) :
    ∃ trivia b, Reads source tokens st a trivia st.skipTrivia b ∧ ∀ t ∈ trivia, t.kind.isTrivia := by
  induction e : st.rest generalizing st a with
  | nil =>
    rw [skipTrivia_of_not_trivia (by simp [State.nextKind, e, Token.Kind.isTrivia])]
    exact ⟨[], a, .refl h, by simp⟩
  | cons t ts ih =>
    by_cases k : t.kind.isTrivia
    · rw [skipTrivia_of_trivia e k]
      have step := h.advance e
      obtain ⟨trivia, b, reads, all⟩ := ih step.ready (by simp [State.advance_of_rest e])
      exact ⟨t :: trivia, b, step.trans reads, by simpa [k] using all⟩
    · rw [skipTrivia_of_not_trivia (by simpa [nextKind_of_rest e] using k)]
      exact ⟨[], a, .refl h, by simp⟩

/-- Passing over the rest of a group went from `st` to `st'`: over the tokens inside, and over the
bracket that closes the group unless the tokens ended first. -/
def PassesGroup (source : String) (tokens : List Token) (st : State) (a : Nat) (skipped : State.Skipped)
    (st' : State) : Prop :=
  ∃ inner closing, Reads source tokens st a (inner ++ closing) st' skipped.stop
    ∧ a ≤ skipped.inner ∧ skipped.inner ≤ skipped.stop ∧ IsBoundary source skipped.inner
    ∧ (∀ t ∈ inner, t.stop ≤ skipped.inner)
    ∧ (closing = [] ∧ st'.rest = []
      ∨ ∃ closer, closing = [closer] ∧ closer.kind.closing?.isSome ∧ closer.stop = skipped.stop)

theorem PassesGroup.cons {t : Token} {ts : List Token} {skipped : State.Skipped} {st' : State}
    (h : Ready source tokens st a) (e : st.rest = t :: ts)
    (passes : PassesGroup source tokens st.advance t.stop skipped st') :
    PassesGroup source tokens st a skipped st' := by
  obtain ⟨inner, closing, reads, lo, hi, boundary, within, closed⟩ := passes
  have step := h.advance e
  refine ⟨t :: inner, closing, step.trans reads, Nat.le_trans step.le lo, hi, boundary, ?_, closed⟩
  simpa [lo] using within

/-- Passes over the rest of `nested` inner groups and one outer, on states. -/
def State.passGroup (nested : Nat) (st : State) : Skipped × State :=
  let (skipped, last, rest) := skipFrom nested st.lastOffset st.lastEnd st.rest
  (skipped, { st with rest, lastEnd := last })

theorem passGroup_nil (nested : Nat) (e : st.rest = []) :
    st.passGroup nested = (⟨st.lastOffset, st.lastOffset⟩, st) := by
  simp only [State.passGroup, e, State.skipFrom]
  rw [← e]

theorem passGroup_cons (nested : Nat) {t : Token} {ts : List Token} (e : st.rest = t :: ts) :
    st.passGroup nested =
      if t.kind = .eof then (⟨st.lastOffset, st.lastOffset⟩, st.advance)
      else if t.kind.closer?.isSome then st.advance.passGroup (nested + 1)
      else if t.kind.closing?.isSome then
        match nested with
        | 0 => (⟨t.start, t.stop⟩, st.advance)
        | n + 1 => st.advance.passGroup n
      else st.advance.passGroup nested := by
  simp only [State.passGroup, State.advance_of_rest e, e, State.skipFrom, State.lastOffset]
  split
  · rfl
  · split
    · rfl
    · split
      · cases nested <;> rfl
      · rfl

theorem Ready.passGroup (h : Ready source tokens st a) (started : st.lastEnd ≠ none) (nested : Nat) :
    PassesGroup source tokens st a (st.passGroup nested).1 (st.passGroup nested).2 := by
  have here := h.lastOffset_eq started
  induction e : st.rest generalizing st a nested with
  | nil =>
    rw [passGroup_nil nested e, here]
    exact ⟨[], [], .refl h, Nat.le_refl a, Nat.le_refl a, h.boundary, by simp, .inl ⟨rfl, e⟩⟩
  | cons t ts ih =>
    have step := h.advance e
    have next : st.advance.rest = ts := by simp [State.advance_of_rest e]
    have later (n : Nat) := PassesGroup.cons h e
      (ih step.ready (step.started (.inl (by simp))) n (step.lastOffset_eq (.inl (by simp))) next)
    have tiles := h.tiles
    rw [e] at tiles
    rw [passGroup_cons nested e]
    split
    next k =>
      obtain ⟨stop, last⟩ := tiles.eof k
      rw [here]
      rw [stop] at step
      exact ⟨[t], [], step, Nat.le_refl a, Nat.le_refl a, h.boundary, by simp [stop],
        .inl ⟨rfl, by simp [next, last]⟩⟩
    next =>
      split
      next => exact later _
      next =>
        split
        next k =>
          match nested with
          | 0 =>
            refine ⟨[], [t], step, ?_, tiles.start_eq ▸ tiles.le_stop, tiles.start_eq ▸ h.boundary, by simp,
              .inr ⟨t, rfl, k, rfl⟩⟩
            exact Nat.le_of_eq tiles.start_eq.symm
          | n + 1 => exact later n
        next => exact later _

theorem Ready.skipNested (h : Ready source tokens st a) (started : st.lastEnd ≠ none) :
    PassesGroup source tokens st a st.skipNested.1 st.skipNested.2 :=
  h.passGroup started 0

/-- Passing over one component value takes at least its first token and ends where it says. -/
theorem Ready.skipComponent (h : Ready source tokens st a) (rest : st.rest ≠ []) :
    ∃ used, used ≠ [] ∧ Reads source tokens st a used st.skipComponent.2 st.skipComponent.1 := by
  unfold State.skipComponent
  split
  next e => exact absurd e rest
  next t ts e =>
    have step := h.advance e
    split
    · obtain ⟨inner, closing, reads, -⟩ := step.ready.skipNested (step.started (.inl (by simp)))
      exact ⟨_, by simp, step.trans reads⟩
    · exact ⟨[t], by simp, step⟩

end

end AboveFold.Grammar
