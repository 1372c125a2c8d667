import AboveFold.Proofs.Token.Collapsing
import AboveFold.Proofs.Token.Uncommenting

/-!
# Collapsed text without its comments

A comment leaves a space when a text is collapsed, wherever it stands. When it is taken out it leaves one only between
two tokens that could run together. So of two texts that differ in such comments the collapsed forms are the same
token by token, with the same spaces between them, but for those that stand for comments alone beside a comma, behind
an opening bracket or before a closing one (`Uncomments.tightens`).
-/

namespace AboveFold.Token
open Text Normalizer

section

variable {c : Char} {xs r r' : List Char} {mode : Mode} {gap : Gap} {depth : Nat} {w : Written}
  {ws vs : List Written} {prev next : Option Kind}

/-! ## One token -/

/-- How a token is written in collapsed text. -/
def Written.shown (w : Written) : List Char := Normalizer.start.run false w.text

/-- Where there are no combinators, the number of open brackets does not matter. -/
theorem run_depth (mode : Mode) (gap : Gap) (depth depth' : Nat) (xs : List Char) :
    run false ⟨mode, gap, depth⟩ xs = run false ⟨mode, gap, depth'⟩ xs := by
  induction xs generalizing mode gap depth depth' with
  | nil => rfl
  | cons c xs ih =>
    obtain ⟨out, mode₁, gap₁, reads⟩ := exists_step mode gap c xs.head?
    obtain ⟨d, here⟩ := reads depth
    obtain ⟨d', there⟩ := reads depth'
    rw [run_cons, run_cons, here, there]
    show out ++ run false ⟨mode₁, gap₁, d⟩ xs = out ++ run false ⟨mode₁, gap₁, d'⟩ xs
    rw [ih mode₁ gap₁ d d']

/-- What the machine writes for a token, but for what is due before it, is how the token is shown. -/
theorem Crosses.shown {s : Normalizer} {out : List Char} {k : Kind}
    (h : Crosses ⟨.plain, .joined, depth⟩ (c :: xs) out s) (solid : isBlank c = false)
    (comment : ¬(c = '/' ∧ xs.head? = some '*')) : Written.shown ⟨k, c :: xs⟩ = out := by
  have alone := h.run_append []
  rw [List.append_nil, run_depth .plain .joined depth 0] at alone
  show run false ⟨.plain, .closed, 0⟩ (c :: xs) = out
  rw [run_gap solid comment .closed 0, alone]
  exact List.append_nil out

/-- A token is shown wherever it stands as it is by itself, and how the machine goes on does not depend on what
follows. -/
theorem run_shown {k : Kind} (reads : lexeme c (xs ++ r) = (k, xs.length + 1))
    (reads' : lexeme c (xs ++ r') = (k, xs.length + 1)) (solid : k.isTrivia = false) (sound : ∀ f, k ≠ .fault f)
    (calm : (∃ text, k = .url text) → Normalizer.start.meetsComment false (c :: xs) = false) (depth : Nat) :
    ∃ gap depth', gap ≠ .closed ∧ ∀ ys, (ys = r ∨ ys = r') → ∀ g,
      run false ⟨.plain, g, depth⟩ (c :: xs ++ ys)
        = g.text ++ Written.shown ⟨k, c :: xs⟩ ++ run false ⟨.plain, gap, depth'⟩ ys := by
  have quiet : (∃ text, k = .url text) → meetsComment false ⟨.plain, .joined, depth⟩ (c :: xs) = false := fun url =>
    (meetsComment_congr .plain .joined .closed depth 0 (c :: xs)).trans (calm url)
  have blank : isBlank c = false := by
    refine Bool.eq_false_iff.2 fun blank => ?_
    have white : k = .whitespace := by simpa [reads] using (begins_lexeme c (xs ++ r)).blanks_iff.1 blank
    rw [white] at solid
    cases solid
  have comment (ys : List Char) (mem : ys = r ∨ ys = r') : ¬(c = '/' ∧ (xs ++ ys).head? = some '*') := by
    rcases mem with rfl | rfl
    · exact not_comment reads solid sound
    · exact not_comment reads' solid sound
  -- what is due comes first, wherever the token stands
  suffices h : ∃ gap depth', gap ≠ .closed ∧ ∀ ys, (ys = r ∨ ys = r') →
      run false ⟨.plain, .joined, depth⟩ (c :: xs ++ ys)
        = Written.shown ⟨k, c :: xs⟩ ++ run false ⟨.plain, gap, depth'⟩ ys by
    obtain ⟨gap, depth', more, runs⟩ := h
    refine ⟨gap, depth', more, fun ys mem g => ?_⟩
    rw [List.append_assoc, ← runs ys mem, List.cons_append, run_gap blank (comment ys mem)]
  by_cases slash : c :: xs = ['/']
  · obtain ⟨rfl, rfl⟩ := List.cons.inj slash
    refine ⟨.joined, depth, by simp, fun ys mem => ?_⟩
    have step : step false ⟨.plain, .joined, depth⟩ '/' ys.head? = (['/'], ⟨.plain, .joined, depth⟩) :=
      step_slash (fun star => comment ys mem ⟨rfl, star⟩) .joined depth
    show run false ⟨.plain, .joined, depth⟩ ('/' :: ys) = _
    rw [run_cons, step]
    rfl
  · obtain ⟨out, mode, gap, depth', crosses, scans⟩ :=
      (lands_lexeme reads solid sound .joined depth quiet).resolve_left fun alone => slash alone.1
    obtain ⟨out', mode', gap', depth'', crosses', scans'⟩ :=
      (lands_lexeme reads' solid sound .joined depth quiet).resolve_left fun alone => slash alone.1
    obtain ⟨rfl, same⟩ := crosses.unique crosses'
    obtain ⟨rfl, rfl, rfl⟩ := Normalizer.mk.inj same
    have apart : ¬(c = '/' ∧ xs.head? = some '*') := fun ⟨e, star⟩ =>
      comment r (.inl rfl) ⟨e, by rw [List.head?_append, star]; rfl⟩
    refine ⟨gap, depth', crosses.gap_ne (by simp), fun ys mem => ?_⟩
    rw [crosses.run_append, crosses.shown blank apart]
    rcases mem with rfl | rfl
    · rw [scans.run_eq]
    · rw [scans'.run_eq]

/-! ## Tokens one after the other -/

/-- Two collapsed texts show the tokens of `ws` that are neither blanks nor comments, behind one of the kind `prev`,
with the same spaces between them. But where nothing else than comments stands, and there beside a comma, behind an
opening bracket or before a closing one, the second may lack the space that the first has. -/
inductive Tightens : Option Kind → List Written → (loose tight : List Char) → Prop where
  | nil {prev : Option Kind} {ts : List Written} (trivia : ∀ t ∈ ts, t.kind.isTrivia = true) : Tightens prev ts [] []
  | word {prev : Option Kind} {ts : List Written} {w : Written} {ws : List Written} {cs ds : List Char}
      (trivia : ∀ t ∈ ts, t.kind.isTrivia = true) (solid : w.kind.isTrivia = false) (gap : Gap)
      (rest : Tightens (some w.kind) ws cs ds) :
      Tightens prev (ts ++ w :: ws) (gap.text ++ w.shown ++ cs) (gap.text ++ w.shown ++ ds)
  | tight {k : Kind} {ts : List Written} {w : Written} {ws : List Written} {cs ds : List Char}
      (comments : ∀ t ∈ ts, t.kind.isComment = true) (more : ts ≠ []) (solid : w.kind.isTrivia = false)
      (apart : (k.joinsBehind && w.kind.joinsBefore) = false) (rest : Tightens (some w.kind) ws cs ds) :
      Tightens (some k) (ts ++ w :: ws) (' ' :: (w.shown ++ cs)) (w.shown ++ ds)

/-- The spaces that are due in two texts when both have read a token of the kind `last` and `ts` behind it, of which
the second may have lost comments, before a token of the kind `next`. In the second text a token of the kind `prev`
stands last. -/
inductive Lags (next : Option Kind) (ts : List Written) : (prev last : Option Kind) → (gap gap' : Gap) → Prop where
  | same {prev last : Option Kind} {gap : Gap} (due : gap ≠ .joined) : Lags next ts prev last gap gap
  | joined {k : Kind} (none : ts = []) : Lags next ts (some k) (some k) .joined .joined
  | behind {k : Kind} (comments : ∀ t ∈ ts, t.kind.isComment = true) (more : ts ≠ [])
      (apart : (k.joinsBehind && next.any Kind.joinsBefore) = false) : Lags next ts (some k) (some k) .spaced .joined

variable {ts : List Written} {last : Option Kind} {gap' : Gap}

/-- Where both texts go on with blanks or a comment, the same space is due in both. -/
theorem Lags.widen (h : Lags next ts prev last gap gap') (next' prev' : Option Kind) (ts' : List Written) :
    Lags next' ts' prev' last gap.widen gap'.widen := by
  have due (gap : Gap) : gap.widen ≠ .joined := by cases gap <;> simp [Gap.widen]
  cases h with
  | same => exact .same (due _)
  | joined => exact .same (due _)
  | behind => exact .same (due _)

/-- A comment that went leaves a space in the first text. -/
theorem Lags.drop (h : Lags (some w.kind) ts prev last gap gap') (comment : w.kind.isComment = true)
    (apart : (prev.any Kind.joinsBehind && next.any Kind.joinsBefore) = false) :
    Lags next (ts ++ [w]) prev last gap.widen gap' := by
  cases h with
  | same due =>
    have same : gap.widen = gap := by
      cases gap with
      | joined => exact absurd rfl due
      | _ => rfl
    rw [same]
    exact .same due
  | joined none =>
    subst none
    exact .behind (by simpa using comment) (by simp) apart
  | behind comments =>
    refine .behind ?_ (by simp) apart
    rw [List.forall_mem_append]
    exact ⟨comments, by simpa using comment⟩

/-- A token comes behind the spaces that are due. -/
theorem Lags.word {cs ds : List Char} (h : Lags (some w.kind) ts prev last gap gap')
    (trivia : ∀ t ∈ ts, t.kind.isTrivia = true) (solid : w.kind.isTrivia = false)
    (rest : Tightens (some w.kind) ws cs ds) :
    Tightens last (ts ++ w :: ws) (gap.text ++ w.shown ++ cs) (gap'.text ++ w.shown ++ ds) := by
  cases h with
  | same => exact .word trivia solid gap rest
  | joined => exact .word trivia solid .joined rest
  | behind comments more apart => exact .tight comments more solid apart rest

/-! ## Texts -/

/-- Tokens whose comments are plain to see: none stands where an escape would take the space that comes in its place,
and nothing in a url looks like one. -/
structure Clear (ws : List Written) : Prop where
  shielded : Shielded ws
  urls : ∀ w ∈ ws, (∃ text, w.kind = .url text) → Normalizer.start.meetsComment false w.text = false

theorem Clear.tail (h : Clear (w :: ws)) : Clear ws where
  shielded := h.shielded.tail
  urls := (List.forall_mem_cons.1 h.urls).2

theorem Stands.run_trivia (h : Stands (w :: ws)) (trivia : w.kind.isTrivia = true) (gap : Gap) (depth : Nat) :
    run false ⟨.plain, gap, depth⟩ (textOf (w :: ws)) = run false ⟨.plain, gap.widen, depth⟩ (textOf ws) := by
  obtain ⟨c, xs, text, reads, -⟩ := h.begins
  rw [textOf_cons, text]
  exact Token.run_trivia reads trivia gap depth

theorem Stands.run_stop (h : Stands ws) (trivia : ∀ w ∈ ws, w.kind.isTrivia = true) (gap : Gap) (depth : Nat) :
    run false ⟨.plain, gap, depth⟩ (textOf ws) = [] := by
  induction ws generalizing gap with
  | nil => rfl
  | cons w ws ih =>
    rw [List.forall_mem_cons] at trivia
    rw [h.run_trivia trivia.1]
    exact ih h.tail trivia.2 gap.widen

/-- Blanks and comments that are left are still what they are. -/
theorem Uncomments.run_trivia (h : Uncomments none (some w.kind) ws vs) (stands : Stands (w :: ws))
    (sound : ∀ v ∈ w :: ws, ∀ f, v.kind ≠ .fault f) (clear : Clear (w :: ws)) (trivia : w.kind.isTrivia = true)
    (gap : Gap) (depth : Nat) :
    run false ⟨.plain, gap, depth⟩ (textOf (w :: vs)) = run false ⟨.plain, gap.widen, depth⟩ (textOf vs) := by
  obtain ⟨c, xs, text, reads, -⟩ := stands.begins
  rw [List.forall_mem_cons] at sound
  have follows := h.loosens.follows stands sound.2 clear.shielded
  rw [text] at follows
  rw [textOf_cons, text]
  by_cases white : w.kind = .whitespace
  · exact run_blanks (text ▸ stands.blank white) (by simp) (textOf vs)
  · exact Token.run_trivia (lexeme_append reads follows white sound.1) trivia gap depth

/-- Any other token is shown the same in both texts. -/
theorem Uncomments.run_shown (h : Uncomments none (some w.kind) ws vs) (stands : Stands (w :: ws))
    (sound : ∀ v ∈ w :: ws, ∀ f, v.kind ≠ .fault f) (clear : Clear (w :: ws)) (solid : w.kind.isTrivia = false)
    (depth : Nat) :
    ∃ gap depth', gap ≠ .closed ∧ ∀ us, (us = ws ∨ us = vs) → ∀ g,
      run false ⟨.plain, g, depth⟩ (textOf (w :: us))
        = g.text ++ w.shown ++ run false ⟨.plain, gap, depth'⟩ (textOf us) := by
  obtain ⟨c, xs, text, reads, -⟩ := stands.begins
  rw [List.forall_mem_cons] at sound
  have follows := h.loosens.follows stands sound.2 clear.shielded
  rw [text] at follows
  have white : w.kind ≠ .whitespace := by
    intro white
    rw [white] at solid
    cases solid
  have urls := clear.urls w (by simp)
  rw [text] at urls
  obtain ⟨gap, depth', more, runs⟩ :=
    Token.run_shown reads (lexeme_append reads follows white sound.1) solid sound.1 urls depth
  have shown : w.shown = Written.shown ⟨w.kind, c :: xs⟩ := by rw [Written.shown, text, Written.shown]
  refine ⟨gap, depth', more, fun us mem g => ?_⟩
  rw [textOf_cons, text, shown]
  apply runs
  rcases mem with rfl | rfl
  · exact .inl rfl
  · exact .inr rfl

/-- What is collapsed of a text without some comments is the collapsed text without some spaces. -/
theorem Uncomments.tightens (h : Uncomments none prev ws vs) (stands : Stands ws)
    (sound : ∀ w ∈ ws, ∀ f, w.kind ≠ .fault f) (clear : Clear ws)
    (trivia : ∀ t ∈ ts, t.kind.isTrivia = true) (lags : Lags (ws.head?.map Written.kind) ts prev last gap gap')
    (depth : Nat) :
    Tightens last (ts ++ ws) (run false ⟨.plain, gap, depth⟩ (textOf ws))
      (run false ⟨.plain, gap', depth⟩ (textOf vs)) := by
  have onward {ts : List Written} {w : Written} (trivia : ∀ t ∈ ts, t.kind.isTrivia = true)
      (here : w.kind.isTrivia = true) : ∀ t ∈ ts ++ [w], t.kind.isTrivia = true := by
    rw [List.forall_mem_append]
    exact ⟨trivia, by simpa using here⟩
  induction h generalizing ts last gap gap' depth with
  | nil =>
    rw [List.append_nil]
    exact .nil trivia
  | @keep prev w ws vs rest ih =>
    cases here : w.kind.isTrivia with
    | true =>
      rw [stands.run_trivia here, rest.run_trivia stands sound clear here, List.append_cons]
      exact ih stands.tail (List.forall_mem_cons.1 sound).2 clear.tail (onward trivia here) (lags.widen ..) depth
    | false =>
      obtain ⟨due, depth', more, runs⟩ := rest.run_shown stands sound clear here depth
      rw [runs ws (.inl rfl), runs vs (.inr rfl)]
      apply lags.word trivia here
      have begun : Lags (ws.head?.map Written.kind) [] (some w.kind) (some w.kind) due due := by
        cases due with
        | closed => exact absurd rfl more
        | joined => exact .joined rfl
        | spaced => exact .same (by simp)
      exact ih stands.tail (List.forall_mem_cons.1 sound).2 clear.tail (by simp) begun depth'
  | @space prev w ws vs comment rest ih =>
    have here := Kind.isTrivia_of_isComment comment
    have blank : ∀ c ∈ [' '], isBlank c = true := by simp [isBlank]
    have space : run false ⟨.plain, gap', depth⟩ (textOf (.space :: vs))
        = run false ⟨.plain, gap'.widen, depth⟩ (textOf vs) :=
      run_blanks blank (by simp) (textOf vs)
    rw [stands.run_trivia here, space, List.append_cons]
    exact ih stands.tail (List.forall_mem_cons.1 sound).2 clear.tail (onward trivia here) (lags.widen ..) depth
  | @drop prev w ws vs comment apart rest ih =>
    have here := Kind.isTrivia_of_isComment comment
    rw [Option.or_none] at apart
    rw [stands.run_trivia here, List.append_cons]
    exact ih stands.tail (List.forall_mem_cons.1 sound).2 clear.tail (onward trivia here) (lags.drop comment apart) depth
  | stop _ all =>
    rw [stands.run_stop all]
    exact .nil (List.forall_mem_append.2 ⟨trivia, all⟩)

/-- The same when the blanks at the ends go too. -/
theorem Uncomments.tightens_trim {lead trail : List Written} (h : Uncomments none none ws (lead ++ vs ++ trail))
    (white : ∀ v ∈ lead ++ trail, v.kind = .whitespace) (stands : Stands ws)
    (sound : ∀ w ∈ ws, ∀ f, w.kind ≠ .fault f) (clear : Clear ws) :
    Tightens none ws (Normalizer.start.run false (textOf ws)) (Normalizer.start.run false (textOf vs)) := by
  rw [List.forall_mem_append] at white
  have left := h.left white.2
  have begun : Lags (ws.head?.map Written.kind) [] none none .closed .closed := .same (by simp)
  have tightens := left.tightens stands sound clear (by simp) begun 0
  have same : run false ⟨.plain, .closed, 0⟩ (textOf (lead ++ vs)) = run false ⟨.plain, .closed, 0⟩ (textOf vs) := by
    have blank := left.blank_textOf white.1 stands
    rw [textOf_append]
    by_cases none : textOf lead = []
    · rw [none]
      rfl
    · exact run_blanks blank none (textOf vs)
  rw [same] at tightens
  exact tightens

end

end AboveFold.Token
