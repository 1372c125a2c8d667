import AboveFold.Proofs.Token.Wording

/-!
# Words side by side

Two texts that stand need not stand side by side: the last word of the first may run into the second. `Meets` says when
it does not, and then both stand (`Stands.append`). Of words that stand before a closing brace each part does.
-/

namespace AboveFold.Token
open Text

namespace Written

/-- The brace that opens a block. -/
def brace : Written := ⟨.curlyOpen, ['\x7b']⟩

/-- The brace that closes a block. -/
def unbrace : Written := ⟨.curlyClose, ['\x7d']⟩

/-- The colon of a declaration. -/
def colon : Written := ⟨.colon, [':']⟩

/-- A semicolon. -/
def semicolon : Written := ⟨.semicolon, [';']⟩

/-- A comma. -/
def comma : Written := ⟨.comma, [',']⟩

end Written

/-- The text `r` behind a word does not run into it. -/
structure Meets (w : Written) (r : List Char) : Prop where
  blank : w.kind = .whitespace → r.head?.any isBlank = false
  breaks : w.kind.mayGoOn = true → breaks r = true
  shut : w.kind.mayGoOn = true → r.head?.any isBlank = true → endsOpen 0 w.text = false
  quoted : ∀ name, w.kind = .function name → eqIgnoreCase name "url" = true → startsQuoted r = true

variable {w : Written} {ws vs : List Written} {r : List Char}

theorem Stands.textOf_ne_nil (h : Stands ws) (some : ws ≠ []) : textOf ws ≠ [] := by
  obtain ⟨w, ws, rfl⟩ := List.exists_cons_of_ne_nil some
  obtain ⟨c, xs, text, -⟩ := Stands.begins h
  simp [text]

/-- A sign ends by itself. -/
theorem Meets.of_sign {c : Char} (sign : w.kind.sign? = some c) (r : List Char) : Meets w r := by
  constructor <;> cases k : w.kind <;> simp_all [Kind.sign?, Kind.mayGoOn]

/-- Words that stand keep what follows them away from the words in front of them. -/
theorem Stands.calmer_append (h : Stands ws) (sound : ∀ w ∈ ws, ∀ f, w.kind ≠ .fault f)
    (breaks : ∀ w ∈ ws.getLast?, w.kind.mayGoOn = true → breaks r = true) (some : ws ≠ []) :
    Calmer (textOf ws) (textOf ws ++ r) := by
  induction ws with
  | nil => exact absurd rfl some
  | cons w ws ih =>
    rw [List.forall_mem_cons] at sound
    obtain ⟨c, xs, text, reads, begins⟩ := Stands.begins h
    rw [textOf_cons, List.append_assoc]
    cases on : w.kind.mayGoOn with
    | false =>
      obtain ⟨d, mem, steady⟩ := begins.exists_isSteady sound.1 on
      exact Calmer.of_mem (text ▸ mem) steady _ _
    | true =>
      have shut : ¬Bare w.text := text ▸ not_bare_of_lexeme reads on
      refine Calmer.append ?_ w.text fun bare => absurd bare shut
      cases ws with
      | nil => exact .of_breaks _ (breaks w rfl on)
      | cons v ws => exact ih h.tail sound.2 (by simpa using breaks) (by simp)

theorem startsQuoted_append_right {cs : List Char} (quoted : startsQuoted cs = true) (r : List Char) :
    startsQuoted (cs ++ r) = true := by
  unfold startsQuoted at *
  rw [List.dropWhile_append]
  cases e : cs.dropWhile isBlank with
  | nil => simp [e] at quoted
  | cons c ds => simpa [e] using quoted

/-- Where the words `ws` follow a word, those behind them may follow too. -/
theorem Stands.follows_append (h : Stands (w :: ws)) (sound : ∀ w ∈ ws, ∀ f, w.kind ≠ .fault f) (rest : Stands (ws ++ vs))
    (meets : ∀ v ∈ (w :: ws).getLast?, Meets v (textOf vs)) : Follows w.kind w.text (textOf ws) (textOf (ws ++ vs)) := by
  by_cases some : ws = []
  · subst some
    obtain ⟨-, breaks, shut, quoted⟩ := meets w rfl
    exact ⟨fun on => .of_breaks _ (breaks on), fun on => .inr (shut on), quoted⟩
  · have last : (w :: ws).getLast? = ws.getLast? := List.getLast?_cons_of_ne_nil some
    rw [last] at meets
    refine ⟨fun _ => ?_, fun _ => .inl (.of_head (rest.head?_left some).symm), fun name function url => ?_⟩
    · rw [textOf_append]
      exact h.tail.calmer_append sound (fun v mem => (meets v mem).breaks) some
    · rw [textOf_append]
      exact startsQuoted_append_right ((Stands.of_function h function).2 url) _

/-- **Words that stand, and do not run into the words behind them, stand with these.** -/
theorem Stands.append (h : Stands ws) (sound : ∀ w ∈ ws, ∀ f, w.kind ≠ .fault f) (h' : Stands vs)
    (meets : ∀ w ∈ ws.getLast?, Meets w (textOf vs)) : Stands (ws ++ vs) := by
  induction ws with
  | nil => exact h'
  | cons w ws ih =>
    rw [List.forall_mem_cons] at sound
    have later : ∀ v ∈ ws.getLast?, Meets v (textOf vs) := by
      intro v mem
      have some : ws ≠ [] := by
        rintro rfl
        cases mem
      exact meets v (by rwa [List.getLast?_cons_of_ne_nil some])
    have rest : Stands (ws ++ vs) := ih h.tail sound.2 later
    have follows := Stands.follows_append h sound.2 rest meets
    obtain ⟨c, xs, text, reads, -⟩ := Stands.begins h
    rw [List.cons_append]
    refine ⟨⟨c, xs, text, ?_⟩, rest⟩
    by_cases white : w.kind = .whitespace
    · rw [white] at reads ⊢
      obtain ⟨blank, ends⟩ := lexeme_eq_blanks.1 reads
      refine lexeme_eq_blanks.2 ⟨blank, ?_⟩
      by_cases some : ws = []
      · subst some
        exact (meets w rfl).blank white
      · rwa [← rest.head?_left some]
    · rw [text] at follows
      exact lexeme_append reads follows white sound.1

/-! ## Signs -/

/-- A sign that is no opening parenthesis meets whatever words it stands behind. -/
theorem Stands.meets_of_sign {v : Written} {c : Char} (h : Stands ws) (mem : w ∈ ws.getLast?) (text : v.text = [c])
    (breaks : isBreak c = true) (solid : isBlank c = false) (r : List Char) : Meets w (v.text ++ r) := by
  rw [text]
  refine ⟨fun _ => by simp [solid], fun _ => breaks, fun _ blank => by simp [solid] at blank, fun name function url => ?_⟩
  -- a url that goes on with a quote is not the last word
  obtain ⟨front, rfl⟩ := List.getLast?_eq_some_iff.1 mem
  have last : Stands [w] := h.right
  cases (Stands.of_function last function).2 url

/-- A sign stands behind words that stand. -/
theorem Stands.append_sign {v : Written} {c : Char} (h : Stands ws) (sound : ∀ w ∈ ws, ∀ f, w.kind ≠ .fault f)
    (h' : Stands (v :: vs)) (text : v.text = [c]) (breaks : isBreak c = true) (solid : isBlank c = false) :
    Stands (ws ++ v :: vs) :=
  h.append sound h' fun _ mem => h.meets_of_sign mem text breaks solid _

/-- Words that stand do so behind words that end in a sign. -/
theorem Stands.sign_append {v : Written} {c : Char} (h : Stands (ws ++ [v])) (sound : ∀ w ∈ ws, ∀ f, w.kind ≠ .fault f)
    (sign : v.kind.sign? = some c) (h' : Stands vs) : Stands (ws ++ v :: vs) := by
  have sound : ∀ w ∈ ws ++ [v], ∀ f, w.kind ≠ .fault f := by
    rw [List.forall_mem_append]
    refine ⟨sound, ?_⟩
    rw [List.forall_mem_singleton]
    intro f fault
    rw [fault] at sign
    cases sign
  rw [List.append_cons]
  refine h.append sound h' fun w mem => ?_
  obtain rfl : v = w := by simpa using mem
  exact .of_sign sign _

/-- Words that stand do so behind a sign. -/
theorem Stands.sign_cons {v : Written} {c : Char} (h : Stands [v]) (sign : v.kind.sign? = some c) (h' : Stands vs) :
    Stands (v :: vs) := by
  have whole : Stands ([] ++ [v]) := h
  exact whole.sign_append (by simp) sign h'

theorem closed_concat {v : Written} {c : Char} (sign : v.kind.sign? = some c) (ws : List Written) : Closed (ws ++ [v]) := by
  intro w mem
  obtain rfl : v = w := by simpa using mem
  constructor
  · intro white
    rw [white] at sign
    cases sign
  · intro name function
    rw [function] at sign
    cases sign

theorem stands_brace : Stands [.brace] := ⟨⟨'\x7b', [], rfl, rfl⟩, trivial⟩

theorem stands_unbrace : Stands [.unbrace] := ⟨⟨'\x7d', [], rfl, rfl⟩, trivial⟩

theorem stands_semicolon : Stands [.semicolon] := ⟨⟨';', [], rfl, rfl⟩, trivial⟩

theorem stands_comma : Stands [.comma] := ⟨⟨',', [], rfl, rfl⟩, trivial⟩

/-! ## Before a brace -/

/-- A quote that stands next does not stand behind a character that is none. -/
theorem startsQuoted_of_append_cons {xs : List Char} {c : Char} (solid : isBlank c = false) (plain : c ≠ '\x22' ∧ c ≠ '\x27')
    (quoted : startsQuoted (xs ++ c :: r) = true) : startsQuoted xs = true := by
  unfold startsQuoted at *
  rw [List.dropWhile_append] at quoted
  cases e : xs.dropWhile isBlank with
  | nil => simp [e, solid, plain] at quoted
  | cons d ds => simpa [e] using quoted

/-- Words that stand before a brace stand without it. -/
theorem Stands.of_unbrace {us : List Written} (h : Stands (ws ++ .unbrace :: us))
    (sound : ∀ w ∈ ws, ∀ f, w.kind ≠ .fault f) : Stands ws := by
  refine h.left_of_quoted sound fun w us _ _ quoted => ?_
  rw [textOf_append] at quoted
  exact startsQuoted_of_append_cons rfl (by decide) quoted

end AboveFold.Token
