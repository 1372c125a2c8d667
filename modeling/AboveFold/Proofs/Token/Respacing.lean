import AboveFold.Proofs.Token.Begins
import AboveFold.Proofs.Token.Written

/-!
# Taking comments and blanks out of a text

Comments can go from a text, and blanks can become one, if a space takes the place of those that alone kept two
tokens apart which could run together: the text goes on saying the same (`Loosens.meaning_eq`). One thing can go
wrong. A hexadecimal escape at the end of a name takes the blank behind it, so a comment that stands between the
two may not go.
-/

namespace AboveFold.Token
open Text

/-- Whether something can run into a token from behind: it is no blank, comma, comment or opening bracket. -/
def Kind.joinsBehind (k : Kind) : Bool := !k.isTrivia && k ≠ .comma && k.closer?.isNone

/-- Whether a token can run into what stands before it: it is no blank, comma, comment or closing bracket. -/
def Kind.joinsBefore (k : Kind) : Bool := !k.isTrivia && k ≠ .comma && k.closing?.isNone

/-- A single space. -/
def Written.space : Written := ⟨.whitespace, [' ']⟩

theorem Kind.isTrivia_of_isComment {k : Kind} (comment : k.isComment = true) : k.isTrivia = true := by
  cases k <;> first | rfl | cases comment

/-- Of the tokens `ws`, behind one of the kind `prev` and before one of the kind `next`, some blanks and comments went
and left `vs`. They may leave a space, and must if they alone kept two tokens apart that could run together. -/
inductive Loosens (next : Option Kind) : Option Kind → List Written → List Written → Prop where
  | nil {prev : Option Kind} : Loosens next prev [] []
  | keep {prev : Option Kind} {w : Written} {ws vs : List Written} (rest : Loosens next (some w.kind) ws vs) :
      Loosens next prev (w :: ws) (w :: vs)
  | space {prev : Option Kind} {w : Written} {ws vs : List Written} (trivia : w.kind.isTrivia = true)
      (rest : Loosens next (some .whitespace) ws vs) : Loosens next prev (w :: ws) (.space :: vs)
  | drop {prev : Option Kind} {w : Written} {ws vs : List Written} (comment : w.kind.isComment = true)
      (apart : (prev.any Kind.joinsBehind && ((ws.head?.map Written.kind).or next).any Kind.joinsBefore) = false)
      (rest : Loosens next prev ws vs) : Loosens next prev (w :: ws) vs
  | merge {prev : Option Kind} {w : Written} {ws vs : List Written} (trivia : w.kind.isTrivia = true)
      (free : prev.any Kind.joinsBehind = false) (rest : Loosens next prev ws vs) : Loosens next prev (w :: ws) vs
  /-- At the end of a text blanks may go. -/
  | stop {prev : Option Kind} {ws : List Written} (last : next = none) (trivia : ∀ w ∈ ws, w.kind.isTrivia = true) :
      Loosens next prev ws []

/-- No comment stands right behind a hexadecimal escape that could take a blank. -/
def Shielded : List Written → Prop
  | w :: v :: ws => (v.kind.isComment → w.kind.mayGoOn → endsOpen 0 w.text = false) ∧ Shielded (v :: ws)
  | _ => True

variable {w : Written} {ws vs : List Written} {prev next : Option Kind} {k : Kind}

theorem Stands.tail (h : Stands (w :: ws)) : Stands ws := h.2

/-- What the first token of a list that stands begins with. -/
theorem Stands.begins (h : Stands (w :: ws)) : ∃ c xs, w.text = c :: xs
    ∧ lexeme c (xs ++ textOf ws) = (w.kind, xs.length + 1) ∧ Begins c (xs ++ textOf ws) (w.kind, xs.length + 1) := by
  obtain ⟨⟨c, xs, text, reads⟩, -⟩ := h
  exact ⟨c, xs, text, reads, reads ▸ begins_lexeme c (xs ++ textOf ws)⟩

/-- The first token of a list that stands has the text of its name if it opens a function. -/
theorem Stands.of_function {name : String} (h : Stands (w :: ws)) (function : w.kind = .function name) :
    w.text = name.toList ++ ['('] ∧ (eqIgnoreCase name "url" = true → startsQuoted (textOf ws) = true) := by
  obtain ⟨c, xs, text, -, begins⟩ := h.begins
  have names : Names (textOf ws) (c :: xs) w.kind := names_of_whole (begins.of_function function).symm
  rw [text]
  exact names.of_function function

theorem Stands.blank (h : Stands (w :: ws)) (white : w.kind = .whitespace) : ∀ c ∈ w.text, isBlank c = true := by
  obtain ⟨⟨c, xs, text, reads⟩, -⟩ := h
  rw [white] at reads
  rw [text]
  exact (lexeme_eq_blanks.1 reads).1

/-- A token that nothing before it can run into starts with a break. -/
theorem breaks_of_joinsBefore (h : Stands (w :: ws)) (apart : w.kind.joinsBefore = false) (r : List Char) :
    breaks (w.text ++ r) = true := by
  obtain ⟨c, xs, text, -, begins⟩ := h.begins
  rw [text]
  show isBreak c = true
  cases k : w.kind <;> rw [k] at apart begins <;> first | (cases apart; done) | skip
  case whitespace => exact isBreak_of_isBlank (begins.blanks_iff.2 rfl)
  case comment => rw [begins.slash_of_isComment rfl]; rfl
  all_goals
    rw [(begins.of_sign rfl).1]
    rfl

theorem joinsBefore_of_isTrivia (trivia : k.isTrivia = true) : k.joinsBefore = false := by
  simp [Kind.joinsBefore, trivia]

theorem joinsBehind_of_mayGoOn (on : k.mayGoOn = true) : k.joinsBehind = true := by
  cases k <;> first | rfl | cases on

/-- Where a comment was behind a token that joins, the text breaks. -/
theorem Loosens.breaks (h : Loosens none prev ws vs) (stands : Stands ws) (joins : prev.any Kind.joinsBehind = true)
    (first : (ws.head?.map Written.kind).any Kind.joinsBefore = false) : breaks (textOf vs) = true := by
  induction h with
  | nil => rfl
  | keep => exact breaks_of_joinsBefore stands first _
  | space => rfl
  | @drop prev w ws vs _ apart rest ih =>
    rw [joins, Bool.true_and, Option.or_none] at apart
    exact ih stands.tail joins apart
  | merge _ free =>
    rw [free] at joins
    cases joins
  | stop => rfl

/-- Behind a token with no end of its own a text without some comments and blanks is calmer. -/
theorem Loosens.calmer (h : Loosens none prev ws vs) (stands : Stands ws) (sound : ∀ w ∈ ws, ∀ f, w.kind ≠ .fault f)
    (on : prev.any Kind.mayGoOn = true) : Calmer (textOf ws) (textOf vs) := by
  have joins {prev : Option Kind} (on : prev.any Kind.mayGoOn = true) : prev.any Kind.joinsBehind = true := by
    cases prev with
    | none => cases on
    | some k => exact joinsBehind_of_mayGoOn on
  induction h with
  | nil => exact .refl _
  | @keep prev w ws vs rest ih =>
    rw [List.forall_mem_cons] at sound
    obtain ⟨c, xs, text, reads, begins⟩ := stands.begins
    cases ends : w.kind.mayGoOn with
    | true =>
      have shut : ¬Bare w.text := text ▸ not_bare_of_lexeme reads ends
      exact (ih stands.tail sound.2 ends).append w.text fun bare => absurd bare shut
    | false =>
      obtain ⟨d, mem, steady⟩ := begins.exists_isSteady sound.1 ends
      exact Calmer.of_mem (text ▸ mem) steady _ _
  | space => exact .of_breaks _ rfl
  | drop comment apart rest =>
    have first := joinsBefore_of_isTrivia (Kind.isTrivia_of_isComment comment)
    exact .of_breaks _ ((Loosens.drop comment apart rest).breaks stands (joins on) first)
  | merge _ free =>
    rw [joins on] at free
    cases free
  | stop => exact .of_breaks _ rfl

theorem startsQuoted_append_of_blanks {xs : List Char} (blank : ∀ c ∈ xs, isBlank c = true) (r : List Char) :
    startsQuoted (xs ++ r) = startsQuoted r := by
  unfold startsQuoted
  rw [List.dropWhile_append_of_pos blank]

/-- A quote that stands next behind blanks is there without them, and behind a comment there is none. -/
theorem startsQuoted_tail (stands : Stands (w :: ws)) (trivia : w.kind.isTrivia = true)
    (quoted : startsQuoted (textOf (w :: ws)) = true) : startsQuoted (textOf ws) = true := by
  cases k : w.kind with
  | whitespace => rwa [textOf_cons, startsQuoted_append_of_blanks (stands.blank k)] at quoted
  | comment =>
    obtain ⟨c, xs, text, -, begins⟩ := stands.begins
    rw [textOf_cons, text, begins.slash_of_isComment (by rw [k]; rfl)] at quoted
    cases quoted
  | _ =>
    rw [k] at trivia
    cases trivia

theorem startsQuoted_of_trivia (stands : Stands ws) (trivia : ∀ w ∈ ws, w.kind.isTrivia = true) :
    startsQuoted (textOf ws) = false := by
  induction ws with
  | nil => rfl
  | cons w ws ih =>
    rw [List.forall_mem_cons] at trivia
    refine Bool.eq_false_iff.2 fun quoted => ?_
    have := startsQuoted_tail stands trivia.1 quoted
    rw [ih stands.tail trivia.2] at this
    cases this

/-- A quote that stands next stays there. -/
theorem Loosens.startsQuoted (h : Loosens none prev ws vs) (stands : Stands ws)
    (quoted : startsQuoted (textOf ws) = true) : startsQuoted (textOf vs) = true := by
  induction h with
  | nil => cases quoted
  | @keep prev w ws vs rest ih =>
    obtain ⟨c, xs, text, -, begins⟩ := stands.begins
    rw [textOf_cons] at quoted
    by_cases white : w.kind = .whitespace
    · have blank := stands.blank white
      rw [startsQuoted_append_of_blanks blank] at quoted
      exact (startsQuoted_append_of_blanks blank _).trans (ih stands.tail quoted)
    · have solid : isBlank c = false := Bool.eq_false_iff.2 fun blank => white (begins.blanks_iff.1 blank)
      have mem : c ∈ w.text := text ▸ List.mem_cons_self
      rw [startsQuoted_append mem solid] at quoted
      exact (startsQuoted_append mem solid _).trans quoted
  | space trivia _ ih =>
    rw [textOf_cons, startsQuoted_append_of_blanks (by simp [Written.space, isBlank])]
    exact ih stands.tail (startsQuoted_tail stands trivia quoted)
  | drop comment _ _ ih => exact ih stands.tail (startsQuoted_tail stands (Kind.isTrivia_of_isComment comment) quoted)
  | merge trivia _ _ ih => exact ih stands.tail (startsQuoted_tail stands trivia quoted)
  | stop _ trivia =>
    rw [startsQuoted_of_trivia stands trivia] at quoted
    cases quoted

theorem Loosens.follows (h : Loosens none (some w.kind) ws vs) (stands : Stands (w :: ws))
    (sound : ∀ v ∈ ws, ∀ f, v.kind ≠ .fault f) (shielded : Shielded (w :: ws)) :
    Follows w.kind w.text (textOf ws) (textOf vs) where
  calmer := h.calmer stands.tail sound
  shut := by
    intro on
    cases h with
    | nil => exact .inl (.of_head rfl)
    | keep =>
      obtain ⟨c, xs, text, -⟩ := stands.tail.begins
      exact .inl (.of_head (by simp [text]))
    | @space _ v _ _ trivia =>
      cases comment : v.kind.isComment with
      | true => exact .inr fun _ => shielded.1 comment on
      | false =>
        have white : v.kind = .whitespace := by
          cases k : v.kind <;> rw [k] at trivia comment <;> first | rfl | (cases trivia; done) | cases comment
        obtain ⟨c, xs, text, -⟩ := stands.tail.begins
        have blank := stands.tail.blank white c (text ▸ List.mem_cons_self)
        exact .inl ⟨fun _ => by simp [text, blank], fun feed => by simp [Written.space] at feed⟩
    | drop comment => exact .inr fun _ => shielded.1 comment on
    | merge _ free =>
      have joins : Kind.joinsBehind w.kind = false := free
      rw [joinsBehind_of_mayGoOn on] at joins
      cases joins
    | stop => exact .inr fun blank => by cases blank
  quoted := by
    intro name function url
    exact h.startsQuoted stands.tail ((stands.of_function function).2 url)

theorem Shielded.tail (h : Shielded (w :: ws)) : Shielded ws := by
  cases ws with
  | nil => trivial
  | cons v ws => exact h.2

/-- A text that loses comments and blanks goes on saying the same. -/
theorem Loosens.meaning_eq (h : Loosens none prev ws vs) (stands : Stands ws)
    (sound : ∀ w ∈ ws, ∀ f, w.kind ≠ .fault f) (shielded : Shielded ws) :
    meaning (textOf vs) = meaning (textOf ws) := by
  rw [stands.meaning_eq]
  induction h with
  | nil => exact meaning_nil
  | @keep prev w ws vs rest ih =>
    rw [List.forall_mem_cons] at sound
    have later := ih stands.tail sound.2 shielded.tail
    rw [textOf_cons]
    by_cases white : w.kind = .whitespace
    · rw [meaning_append_of_blanks (stands.blank white), later, List.filter_cons_of_neg (by rw [white]; decide)]
    · obtain ⟨c, xs, text, reads, -⟩ := stands.begins
      have follows := rest.follows stands sound.2 shielded
      rw [text] at follows ⊢
      rw [List.cons_append, meaning_of_lexeme (lexeme_append reads follows white sound.1), later, ← text]
      exact (List.filter_append [w] _).symm
  | @space prev w ws vs trivia rest ih =>
    have blank : ∀ c ∈ Written.space.text, isBlank c = true := by simp [Written.space, isBlank]
    rw [textOf_cons, meaning_append_of_blanks blank, List.filter_cons_of_neg (by simp [trivia])]
    exact ih stands.tail (List.forall_mem_cons.1 sound).2 shielded.tail
  | @drop prev w ws vs comment _ rest ih =>
    have trivia : w.kind.isTrivia = true := Kind.isTrivia_of_isComment comment
    rw [List.filter_cons_of_neg (by simp [trivia])]
    exact ih stands.tail (List.forall_mem_cons.1 sound).2 shielded.tail
  | @merge prev w ws vs trivia _ rest ih =>
    rw [List.filter_cons_of_neg (by simp [trivia])]
    exact ih stands.tail (List.forall_mem_cons.1 sound).2 shielded.tail
  | stop _ trivia =>
    rw [textOf_nil, meaning_nil]
    exact (List.filter_eq_nil_iff.2 (by simpa using trivia)).symm

end AboveFold.Token
