import AboveFold.Proofs.Token.Boundaries
import AboveFold.Proofs.Token.Respacing

/-!
# Collapsed text says the same

What the machine that collapses a text writes are the tokens that are neither blanks nor comments, with a space where
some were between them (`run_textOf`). So a text without faults says the same when it is collapsed
(`meaning_collapse`). That needs two provisos. Collapsing must leave each token alone, which it does not with a url
that holds the marks of a comment, or with an escape whose blank is more than a space. And no comment may stand behind
a hexadecimal escape, which would take the space that comes in its place. A text with neither backslashes nor urls is
safe (`meaning_collapse_of_plain`).
-/

namespace AboveFold.Token
open Text Normalizer

section

variable {c : Char} {xs r : List Char} {gap : Gap} {depth skip : Nat}

/-! ## Blanks and comments -/

theorem widen_widen (gap : Gap) : gap.widen.widen = gap.widen := by cases gap <;> rfl

theorem run_blanks (blank : ∀ c ∈ xs, isBlank c = true) (more : xs ≠ []) (r : List Char) :
    run false ⟨.plain, gap, depth⟩ (xs ++ r) = run false ⟨.plain, gap.widen, depth⟩ r := by
  induction xs generalizing gap with
  | nil => exact absurd rfl more
  | cons c xs ih =>
    rw [List.forall_mem_cons] at blank
    have other : c ≠ '/' := by rintro rfl; cases blank.1
    rw [List.cons_append, run_cons]
    simp only [step_plain, other, blank.1, decide_false, Bool.false_and, Bool.false_eq_true, if_false, if_true,
      List.nil_append]
    by_cases last : xs = []
    · rw [last]
      rfl
    · rw [ih blank.2 last, widen_widen]

/-- The machine leaves a comment where the lexer does. -/
theorem run_comment (whole : commentLength (xs ++ r) = some xs.length) (gap : Gap) (depth : Nat) :
    run false ⟨.comment, gap, depth⟩ (xs ++ r) = run false ⟨.plain, gap, depth⟩ r := by
  induction xs with
  | nil => exact absurd (commentLength_ge whole) (by simp)
  | cons c xs ih =>
    rw [List.cons_append, commentLength] at whole
    rw [List.cons_append, run_cons]
    split at whole
    next ends =>
      obtain ⟨d, rfl⟩ := List.length_eq_one_iff.1 (Nat.succ.inj (Option.some.inj whole)).symm
      simp only [step, ends, if_true]
      rfl
    next inside =>
      obtain ⟨n, rest, size⟩ := Option.map_eq_some_iff.1 whole
      obtain rfl : n = xs.length := Nat.succ.inj size
      simp only [step, inside]
      exact ih rest

/-- For a blank or a comment the machine writes nothing and makes the gap wider. -/
theorem run_trivia {k : Kind} (reads : lexeme c (xs ++ r) = (k, xs.length + 1)) (trivia : k.isTrivia = true)
    (gap : Gap) (depth : Nat) :
    run false ⟨.plain, gap, depth⟩ (c :: xs ++ r) = run false ⟨.plain, gap.widen, depth⟩ r := by
  cases k with
  | whitespace => exact run_blanks (lexeme_eq_blanks.1 reads).1 (by simp) r
  | comment text =>
    obtain rfl := (begins_lexeme c (xs ++ r)).slash_of_isComment (by rw [reads]; rfl)
    have equation : lexeme '/' (xs ++ r)
        = if (xs ++ r).head? = some '*' then commentLexeme (xs ++ r).tail else (.delim '/', 1) := rfl
    rw [equation] at reads
    split at reads
    next star =>
      have size := commentLexeme_ge (xs ++ r).tail
      rw [reads] at size
      obtain ⟨d, ys, rfl⟩ := List.exists_cons_of_length_pos (Nat.le_of_succ_le_succ size)
      obtain rfl : d = '*' := by simpa using star
      rw [List.cons_append, List.tail_cons] at reads
      unfold commentLexeme at reads
      split at reads
      next scan =>
        rw [Nat.add_right_cancel (congrArg Prod.snd reads)] at scan
        exact run_comment scan gap.widen depth
      next => cases congrArg Prod.fst reads
    next => cases congrArg Prod.fst reads
  | _ => cases trivia

/-- No other token starts like a comment. -/
theorem not_comment {k : Kind} (reads : lexeme c r = (k, skip)) (solid : k.isTrivia = false)
    (sound : ∀ f, k ≠ .fault f) : ¬(c = '/' ∧ r.head? = some '*') := by
  rintro ⟨rfl, star⟩
  have equation : lexeme '/' r = if r.head? = some '*' then commentLexeme r.tail else (.delim '/', 1) := rfl
  rw [equation, if_pos star] at reads
  have kind := commentLexeme_kind r.tail
  rw [reads] at kind
  obtain ⟨text, rfl⟩ := kind.resolve_right fun ⟨f, fault⟩ => sound f fault
  cases solid

/-- What is due is written before a character that is neither a blank nor opens a comment. -/
theorem run_gap (solid : isBlank c = false) (comment : ¬(c = '/' ∧ r.head? = some '*')) (gap : Gap) (depth : Nat) :
    run false ⟨.plain, gap, depth⟩ (c :: r) = gap.text ++ run false ⟨.plain, .joined, depth⟩ (c :: r) := by
  rw [run_cons, run_cons, step_solid solid comment, step_solid solid comment, List.append_assoc]
  rfl

/-! ## Texts -/

/-- What is left of tokens when a text is collapsed, with `gap` in front of them: those that are neither blanks nor
comments, and a space between two of them where there were some. -/
def tidied : Gap → List Written → List Written
  | _, [] => []
  | gap, w :: ws =>
    if w.kind.isTrivia then tidied gap.widen ws
    else if gap = .spaced then .space :: w :: tidied .joined ws
    else w :: tidied .joined ws

/-- No comment is opened where a slash is written as it stands. -/
theorem ne_star_of_keeps {next : Option Char} (keeps : Keeps false ⟨.plain, gap, depth⟩ '/' next) :
    next ≠ some '*' := by
  rintro rfl
  exact mode_of_keeps keeps rfl

/-- Collapsing leaves a token alone. -/
def Written.Stays (w : Written) : Prop := collapse (String.ofList w.text) = String.ofList w.text

instance (w : Written) : Decidable w.Stays := decEq (collapse (String.ofList w.text)) (String.ofList w.text)

variable {w : Written} {ws : List Written}

theorem Written.Stays.settled (h : w.Stays) (text : w.text = c :: xs) (solid : isBlank c = false) (depth : Nat) :
    Settled false ⟨.plain, .joined, depth⟩ (c :: xs) := by
  have settled := settled_collapse (String.ofList w.text)
  rw [h, String.toList_ofList, text] at settled
  refine settled_depth (?_ : Settled false ⟨.plain, .joined, 0⟩ (c :: xs)) depth
  obtain ⟨keeps, later⟩ := settled
  -- at the start no space can be due, and the first character shows that none is
  have apart : ¬(c = '/' ∧ xs.head? = some '*') := by
    rintro ⟨rfl, star⟩
    exact ne_star_of_keeps keeps star
  have same : step false ⟨.plain, .joined, 0⟩ c xs.head? = step false Normalizer.start c xs.head? :=
    (step_solid solid apart .joined 0).trans (step_solid solid apart .closed 0).symm
  rw [Settled, Keeps, same]
  exact ⟨keeps, later⟩

/-- The machine writes a token that it leaves alone, and no space is due behind it. -/
theorem run_settled {k : Kind} (reads : lexeme c (xs ++ r) = (k, xs.length + 1)) (solid : k.isTrivia = false)
    (sound : ∀ f, k ≠ .fault f) (settled : Settled false ⟨.plain, .joined, depth⟩ (c :: xs)) :
    ∃ depth', run false ⟨.plain, .joined, depth⟩ (c :: xs ++ r)
      = c :: xs ++ run false ⟨.plain, .joined, depth'⟩ r := by
  rcases lands_lexeme reads solid sound .joined depth fun _ => settled.meetsComment with
    ⟨slash, apart⟩ | ⟨out, mode, gap, depth', crosses, scans⟩
  · rw [slash]
    refine ⟨depth, ?_⟩
    rw [List.singleton_append, run_cons, step_slash apart]
    rfl
  · refine ⟨depth', ?_⟩
    obtain ⟨rfl, none⟩ := crosses.settled settled
    have due : gap = .joined := by
      cases gap with
      | closed => exact absurd rfl (crosses.gap_ne (by simp))
      | joined => rfl
      | spaced => cases none
    rw [crosses.run_append, scans.run_eq, due]
    rfl

/-- What the machine writes for tokens that it leaves alone. -/
theorem run_textOf (stands : Stands ws) (sound : ∀ w ∈ ws, ∀ f, w.kind ≠ .fault f)
    (stays : ∀ w ∈ ws, w.kind.isTrivia = false → w.Stays) (gap : Gap) (depth : Nat) :
    run false ⟨.plain, gap, depth⟩ (textOf ws) = textOf (tidied gap ws) := by
  induction ws generalizing gap depth with
  | nil => rfl
  | cons w ws ih =>
    rw [List.forall_mem_cons] at sound stays
    obtain ⟨c, xs, text, reads, begins⟩ := stands.begins
    rw [textOf_cons, text, tidied]
    cases trivia : w.kind.isTrivia with
    | true =>
      rw [run_trivia reads trivia]
      exact ih stands.tail sound.2 stays.2 gap.widen depth
    | false =>
      have solid : isBlank c = false := by
        refine Bool.eq_false_iff.2 fun blank => ?_
        have white : w.kind = .whitespace := begins.blanks_iff.1 blank
        rw [white] at trivia
        cases trivia
      obtain ⟨depth', writes⟩ := run_settled reads trivia sound.1 ((stays.1 trivia).settled text solid depth)
      rw [ih stands.tail sound.2 stays.2 .joined depth', List.cons_append] at writes
      rw [List.cons_append, run_gap solid (not_comment reads trivia sound.1), writes]
      cases gap <;> simp [Gap.text, Written.space, text]

/-- What is left when a text is collapsed has lost comments and blanks only. -/
theorem loosens_tidied (ws : List Written) :
    (∀ prev, Loosens none prev ws (tidied .joined ws)) ∧ Loosens none none ws (tidied .closed ws)
      ∧ ((∀ w ∈ ws, w.kind.isTrivia = true) ∧ tidied .spaced ws = []
        ∨ ∃ vs, tidied .spaced ws = .space :: vs ∧ Loosens none (some .whitespace) ws vs) := by
  induction ws with
  | nil => exact ⟨fun _ => .nil, .nil, .inl ⟨by simp, rfl⟩⟩
  | cons w ws ih =>
    obtain ⟨joined, closed, spaced⟩ := ih
    cases trivia : w.kind.isTrivia with
    | true =>
      have widen (gap : Gap) : tidied gap (w :: ws) = tidied gap.widen ws := by rw [tidied, if_pos trivia]
      rw [widen, widen, widen]
      refine ⟨fun prev => ?_, .merge trivia rfl closed, ?_⟩
      · rcases spaced with ⟨all, nothing⟩ | ⟨vs, more, rest⟩
        · rw [show tidied Gap.joined.widen ws = [] from nothing]
          exact .stop rfl (List.forall_mem_cons.2 ⟨trivia, all⟩)
        · rw [show tidied Gap.joined.widen ws = _ from more]
          exact .space trivia rest
      · rcases spaced with ⟨all, nothing⟩ | ⟨vs, more, rest⟩
        · exact .inl ⟨List.forall_mem_cons.2 ⟨trivia, all⟩, nothing⟩
        · exact .inr ⟨vs, more, .merge trivia rfl rest⟩
    | false =>
      have solid (gap : Gap) : tidied gap (w :: ws)
          = if gap = .spaced then .space :: w :: tidied .joined ws else w :: tidied .joined ws := by
        rw [tidied, trivia]
        rfl
      rw [solid, solid, solid]
      exact ⟨fun prev => .keep (joined _), .keep (joined _), .inr ⟨_, rfl, .keep (joined _)⟩⟩

/-- **Collapsed text says the same**, if it is read without faults, collapsing leaves its tokens alone and no comment
stands behind a hexadecimal escape that could take a blank. -/
theorem meaning_collapse {cs : List Char} (sound : ∀ w ∈ written cs, ∀ f, w.kind ≠ .fault f)
    (stays : ∀ w ∈ written cs, w.kind.isTrivia = false → w.Stays) (shielded : Shielded (written cs)) :
    meaning (collapse (String.ofList cs)).toList = meaning cs := by
  have stands := stands_written cs
  have same := run_textOf stands sound stays .closed 0
  rw [textOf_written] at same
  rw [collapse, String.toList_ofList, String.toList_ofList]
  show meaning (run false ⟨.plain, .closed, 0⟩ cs) = meaning cs
  rw [same, (loosens_tidied (written cs)).2.1.meaning_eq stands sound shielded, textOf_written]

/-- In a url the marks of a comment are text, but not to the machine. -/
example : ¬Written.Stays ⟨.url "a/*b*/c", "url(a/*b*/c)".toList⟩ := by decide +kernel

/-- Of the two blanks that an escape takes, the machine takes one for the escape's and the other for its own. -/
example : ¬Written.Stays ⟨.ident "\\41\r\nb", "\\41\r\nb".toList⟩ := by decide +kernel

/-! ## Tokens that stay -/

theorem settled_letters (letters : ∀ c ∈ xs, isLetter c = true) (nothing : gap.text = []) :
    Settled false ⟨.plain, gap, depth⟩ xs := by
  induction xs generalizing gap depth with
  | nil => exact nothing
  | cons c xs ih =>
    rw [List.forall_mem_cons] at letters
    rw [Settled, Keeps, step_of_isLetter letters.1]
    exact ⟨List.append_nil _, ih letters.2 rfl⟩

theorem settled_string {quote : Char} (closed : stringLength quote 0 (xs ++ r) = (.closed, xs.length))
    (free : '\\' ∉ xs) : Settled false ⟨.string quote, .joined, depth⟩ xs := by
  induction xs with
  | nil => rfl
  | cons c xs ih =>
    rw [List.mem_cons, not_or] at free
    rw [List.cons_append, stringLength_cons] at closed
    split at closed
    next closes =>
      obtain rfl : xs = [] := by simpa using (congrArg Prod.snd closed).symm
      have backslash : c ≠ '\\' := Ne.symm free.1
      simp [Settled, Keeps, step, closes, closes ▸ backslash, Gap.text]
    next other =>
      split at closed
      next => cases congrArg Prod.fst closed
      next =>
        have inner := eq_of_grown closed
        rw [stringSkip, if_neg (Ne.symm free.1)] at inner
        have reads :
            step false ⟨.string quote, .joined, depth⟩ c xs.head? = ([c], ⟨.string quote, .joined, depth⟩) := by
          simp [step, other, Ne.symm free.1]
        rw [Settled, Keeps, reads]
        exact ⟨rfl, ih inner free.2⟩

/-- A token with no backslash is written as it stands, unless it is a url. -/
theorem Shaped.settled {k : Kind} (h : Shaped r xs k) (sound : ∀ f, k ≠ .fault f) (free : '\\' ∉ xs)
    (other : ∀ text, k ≠ .url text) : Settled false ⟨.plain, .closed, depth⟩ xs := by
  have letters {name r : List Char} (read : nameLength 0 (name ++ r) = name.length) (free : '\\' ∉ name) :
      ∀ c ∈ name, isLetter c = true :=
    fun c mem => isLetter_of_isNameChar (isNameChar_of_whole read free c mem)
  cases h with
  | string mark closed =>
    rw [Settled, Keeps, step_quote mark]
    exact ⟨rfl, settled_string closed fun mem => free (List.mem_cons_of_mem _ mem)⟩
  | marked letter read =>
    have rest := letters read fun mem => free (List.mem_cons_of_mem _ mem)
    exact settled_letters (List.forall_mem_cons.2 ⟨letter, rest⟩) rfl
  | number whole =>
    obtain ⟨front, unit, rfl, numerals, read⟩ := exists_unit whole
    rw [List.mem_append, not_or] at free
    refine settled_letters (List.forall_mem_append.2 ⟨fun c mem => isLetter_of_isNumeral (numerals c mem), ?_⟩) rfl
    rcases read with read | rfl | rfl
    · exact letters read free.2
    · simp [isLetter, isBlank]
    · simp
  | name names =>
    cases names with
    | ident read => exact settled_letters (letters read free) rfl
    | function read =>
      rw [List.mem_append, not_or] at free
      exact settled_letters (List.forall_mem_append.2 ⟨letters read free.1, by simp [isLetter, isBlank]⟩) rfl
    | @url _ ys _ _ _ _ whole =>
      have kind := urlLexeme_kind (ys ++ r)
      rw [whole] at kind
      rcases kind with ⟨text, e⟩ | ⟨f, e⟩
      · exact absurd e (other text)
      · exact absurd e (sound f)
  | letters letters => exact settled_letters letters rfl
  | slash => exact ⟨rfl, rfl⟩

theorem Stands.stays (h : Stands (w :: ws)) (solid : w.kind.isTrivia = false) (sound : ∀ f, w.kind ≠ .fault f)
    (free : '\\' ∉ w.text) (other : ∀ text, w.kind ≠ .url text) : w.Stays := by
  obtain ⟨c, xs, text, reads, -⟩ := h.begins
  refine collapse_eq_self ?_
  rw [String.toList_ofList, text]
  exact (shaped_lexeme reads solid sound).settled sound (text ▸ free) other

/-- Tokens without backslashes and urls stay, and no escape stands before a comment. -/
theorem Stands.stays_all (h : Stands ws) (sound : ∀ w ∈ ws, ∀ f, w.kind ≠ .fault f)
    (free : ∀ w ∈ ws, '\\' ∉ w.text) (other : ∀ w ∈ ws, ∀ text, w.kind ≠ .url text) :
    (∀ w ∈ ws, w.kind.isTrivia = false → w.Stays) ∧ Shielded ws := by
  induction ws with
  | nil => exact ⟨by simp, trivial⟩
  | cons w ws ih =>
    rw [List.forall_mem_cons] at sound free other
    obtain ⟨stays, shielded⟩ := ih h.tail sound.2 free.2 other.2
    refine ⟨List.forall_mem_cons.2 ⟨fun solid => h.stays solid sound.1 free.1 other.1, stays⟩, ?_⟩
    cases ws with
    | nil => trivial
    | cons v ws =>
      refine ⟨fun _ _ => ?_, shielded⟩
      have none : endsOpen 0 (w.text ++ []) = endsOpen 0 [] := endsOpen_append fun c mem => by
        rintro rfl
        exact free.1 mem
      rwa [List.append_nil] at none

/-- **Collapsed text says the same** if it is read without faults and holds neither backslashes nor urls. -/
theorem meaning_collapse_of_plain {cs : List Char} (sound : ∀ w ∈ written cs, ∀ f, w.kind ≠ .fault f)
    (free : '\\' ∉ cs) (other : ∀ w ∈ written cs, ∀ text, w.kind ≠ .url text) :
    meaning (collapse (String.ofList cs)).toList = meaning cs := by
  have inside : ∀ w ∈ written cs, '\\' ∉ w.text := fun w mem backslash =>
    free (textOf_written cs ▸ List.mem_flatMap.2 ⟨w, mem, backslash⟩)
  obtain ⟨stays, shielded⟩ := (stands_written cs).stays_all sound inside other
  exact meaning_collapse sound stays shielded

end

end AboveFold.Token
