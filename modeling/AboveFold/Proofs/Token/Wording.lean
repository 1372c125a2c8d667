import AboveFold.Proofs.Token.Respacing
import AboveFold.Proofs.Token.Tiling

/-!
# The words of a source

Each token of a stylesheet is a word, with the text that its span cuts out of the source. The words of tokens
that follow each other make up the text from the first to the last, and they stand: read alone, the text of
some of them gives the same words, unless it breaks off behind an opening parenthesis or in blanks.
-/

namespace AboveFold.Token
open Text Source

/-- A token without its place, and with its text in the source. -/
def word (source : String) (t : Token) : Written :=
  ⟨t.kind, ((t.span.bytes.slice source).getD "").toList⟩

/-- The end of input. -/
def Written.last : Written := ⟨.eof, []⟩

/-- The text of a word is the one that its kind says: a sign that is always the same, or a function's name and its
parenthesis. -/
structure Written.Spelt (w : Written) : Prop where
  sign : ∀ c, w.kind.sign? = some c → w.text = [c]
  function : ∀ name, w.kind = .function name → w.text = name.toList ++ ['(']

section

variable {source : String} {w : Written} {ws vs : List Written} {t : Token} {ts us rest : List Token} {here : Nat}

/-! ## Text -/

theorem map_word_tokensFrom (path : Option String) (before : List Char) (cursor : Cursor) {cs : List Char}
    (e : source.toList = before ++ cs) (here : cursor.position.offset = byteSize before) :
    (tokensFrom path cursor cs).map (word source) = written cs ++ [.last] := by
  fun_induction tokensFrom path cursor cs generalizing before with
  | case1 cursor =>
    have boundary : IsBoundary source (byteSize before) := ⟨before, [], e, rfl⟩
    have empty := ByteSpan.slice_empty boundary
    simp [word, written, Written.last, Span.bytes, here, empty]
  | case2 cursor c cs kind n heq next ih =>
    have split : source.toList = before ++ (c :: cs.take (n - 1)) ++ cs.drop (n - 1) := by
      simp [e]
    have stop : next.position.offset = byteSize before + byteSize (c :: cs.take (n - 1)) := by
      simp [next, here, byteSize, Nat.add_assoc]
    have text : ByteSpan.slice ⟨cursor.position.offset, next.position.offset⟩ source
        = some (String.ofList (c :: cs.take (n - 1))) := by
      rw [ByteSpan.slice, split, stop, here, slice_append]
      rfl
    have later := ih (before ++ c :: cs.take (n - 1)) split (by rw [stop, byteSize_append])
    rw [List.map_cons, later, written, heq]
    simp [word, Span.bytes, text]

/-- The words of a stylesheet are those of its text, and the end of input. -/
theorem map_word_tokens (source : String) (path : Option String) :
    ∃ cs, (tokens source path).map (word source) = written cs ++ [.last] := by
  unfold tokens
  split
  next cs e =>
    refine ⟨cs, map_word_tokensFrom path [byteOrderMark]
      ⟨{ Position.start with offset := byteOrderMark.utf8Size }, false⟩ e (by simp [byteSize])⟩
  next => exact ⟨source.toList, map_word_tokensFrom path [] .start rfl rfl⟩

/-- The first of some tokens that follow each other has a text in the source. -/
theorem Tiles.head_text (tiles : Tiles source here (t :: ts)) {before rest : List Char}
    (e : source.toList = before ++ rest) (start : byteSize before = here) :
    ∃ after, rest = (word source t).text ++ after ∧ t.stop = here + byteSize (word source t).text := by
  obtain ⟨front, behind, e', stop⟩ := tiles.stop_boundary
  have le : byteSize before ≤ byteSize front := by
    rw [start, stop]
    exact tiles.le_stop
  obtain ⟨text, rfl, rfl⟩ := exists_append_of_byteSize_le (e.symm.trans e') le
  have size : t.stop = here + byteSize text := by rw [← stop, byteSize_append, start]
  have cut : t.span.bytes.slice source = some (String.ofList text) := by
    have bytes : t.span.bytes = ⟨byteSize before, byteSize before + byteSize text⟩ := by
      show ByteSpan.mk t.start t.stop = _
      rw [tiles.start_eq, size, start]
    rw [bytes, ByteSpan.slice, e', slice_append]
    rfl
  have same : (word source t).text = text := by simp [word, cut]
  exact ⟨behind, by rw [same], by rw [same, size]⟩

/-- Tokens that follow each other make up the text between them. -/
theorem Tiles.text (tiles : Tiles source here ts) {before rest : List Char} (e : source.toList = before ++ rest)
    (start : byteSize before = here) :
    ∃ after, rest = textOf (ts.map (word source)) ++ after
      ∧ ∀ u ∈ ts.getLast?, u.stop = here + byteSize (textOf (ts.map (word source))) := by
  induction ts generalizing here before rest with
  | nil => exact ⟨rest, rfl, by simp⟩
  | cons t ts ih =>
    obtain ⟨behind, rfl, size⟩ := tiles.head_text e start
    rw [← List.append_assoc] at e
    obtain ⟨after, rfl, last⟩ := ih tiles.tail e (by rw [byteSize_append, start, size])
    refine ⟨after, by simp, fun u mem => ?_⟩
    rw [List.map_cons, textOf_cons, byteSize_append]
    cases ts with
    | nil =>
      obtain rfl : t = u := by simpa using mem
      simpa [byteSize] using size
    | cons t' ts => rw [last u mem, size, Nat.add_assoc]

/-- The span from the first of some tokens to the last covers their text. -/
theorem Tiles.slice (tiles : Tiles source here (ts ++ us)) (boundary : IsBoundary source here)
    (last : ts.getLast? = some t) :
    ByteSpan.slice ⟨here, t.stop⟩ source = some (String.ofList (textOf (ts.map (word source)))) := by
  obtain ⟨before, rest, e, rfl⟩ := boundary
  have front : Tiles source (byteSize before) ts := by
    have := tiles.take ts.length
    rwa [List.take_left] at this
  obtain ⟨after, rfl, stop⟩ := front.text e rfl
  rw [← List.append_assoc] at e
  rw [ByteSpan.slice, e, stop t last, slice_append]
  rfl

/-! ## Words that stand -/

theorem spelt_last : Written.last.Spelt where
  sign _ sign := by cases sign
  function _ function := by cases function

theorem Stands.spelt (h : Stands ws) (mem : w ∈ ws) : w.Spelt := by
  induction ws with
  | nil => cases mem
  | cons v ws ih =>
    rcases List.mem_cons.1 mem with rfl | mem
    · obtain ⟨c, xs, text, reads, begins⟩ := h.begins
      refine ⟨fun d sign => ?_, fun name function => (h.of_function function).1⟩
      obtain ⟨rfl, one⟩ := begins.of_sign sign
      obtain rfl : xs = [] := by simpa using one
      exact text
    · exact ih h.tail mem

theorem Stands.right (h : Stands (ws ++ vs)) : Stands vs := by
  induction ws with
  | nil => exact h
  | cons w ws ih => exact ih h.tail

/-- Whether the last of some words ends by itself: it is neither blanks nor opens a function. -/
def Closed (ws : List Written) : Prop :=
  ∀ w ∈ ws.getLast?, w.kind ≠ .whitespace ∧ ∀ name, w.kind ≠ .function name

theorem Closed.tail (h : Closed (w :: ws)) : Closed ws := by
  cases ws with
  | nil => simp [Closed]
  | cons v ws => simpa [Closed] using h

/-- A quote that stands next is one of the words, if there are more than blanks. -/
theorem Stands.startsQuoted_left (h : Stands (ws ++ vs)) (closed : Closed ws) (more : ws ≠ [])
    (quoted : startsQuoted (textOf (ws ++ vs)) = true) : startsQuoted (textOf ws) = true := by
  induction ws with
  | nil => exact absurd rfl more
  | cons w ws ih =>
    rw [List.cons_append, textOf_cons] at quoted
    rw [textOf_cons]
    by_cases white : w.kind = .whitespace
    · have blank := h.blank white
      rw [startsQuoted_append_of_blanks blank] at quoted ⊢
      refine ih h.tail closed.tail ?_ quoted
      rintro rfl
      exact (closed w rfl).1 white
    · obtain ⟨c, xs, text, -, begins⟩ := Stands.begins h
      have mem : c ∈ w.text := text ▸ List.mem_cons_self
      have solid : isBlank c = false := Bool.eq_false_iff.2 fun blank => white (begins.blanks_iff.1 blank)
      rw [startsQuoted_append mem solid] at quoted ⊢
      exact quoted

theorem Stands.head?_left (h : Stands (ws ++ vs)) (more : ws ≠ []) :
    (textOf ws).head? = (textOf (ws ++ vs)).head? := by
  obtain ⟨w, ws, rfl⟩ := List.exists_cons_of_ne_nil more
  obtain ⟨c, xs, text, -⟩ := Stands.begins h
  simp [text]

/-- The first of some words stand without the others, if behind the opening of a url a quote stands among them. -/
theorem Stands.left_of_quoted (h : Stands (ws ++ vs)) (sound : ∀ w ∈ ws, ∀ f, w.kind ≠ .fault f)
    (quoted : ∀ w us, w :: us <:+ ws → (∃ name, w.kind = .function name) →
      startsQuoted (textOf (us ++ vs)) = true → startsQuoted (textOf us) = true) : Stands ws := by
  induction ws with
  | nil => trivial
  | cons w ws ih =>
    rw [List.forall_mem_cons] at sound
    have rest : Stands (ws ++ vs) := h.tail
    refine ⟨?_, ih rest sound.2 fun v us suffix => quoted v us (suffix.trans (List.suffix_cons w ws))⟩
    have follows : Follows w.kind w.text (textOf (ws ++ vs)) (textOf ws) := by
      refine ⟨fun _ => ?_, fun _ => ?_, fun name function url => ?_⟩
      · have cut : Calmer (textOf vs) [] := .of_breaks _ rfl
        simpa using cut.append (textOf ws) fun _ escape => by cases escape
      · by_cases some : ws = []
        · exact .inr fun blank => by simp [some] at blank
        · exact .inl (.of_head (rest.head?_left some))
      · exact quoted w ws List.suffix_rfl ⟨name, function⟩ ((Stands.of_function h function).2 url)
    obtain ⟨⟨c, xs, text, reads⟩, -⟩ := h
    refine ⟨c, xs, text, ?_⟩
    by_cases white : w.kind = .whitespace
    · rw [white] at reads ⊢
      obtain ⟨blank, ends⟩ := lexeme_eq_blanks.1 reads
      refine lexeme_eq_blanks.2 ⟨blank, ?_⟩
      by_cases some : ws = []
      · simp [some]
      · rwa [rest.head?_left some]
    · rw [text] at follows
      exact lexeme_append reads follows white sound.1

/-- The first of some words stand without the others, if the last of them ends by itself. -/
theorem Stands.left (h : Stands (ws ++ vs)) (sound : ∀ w ∈ ws, ∀ f, w.kind ≠ .fault f) (closed : Closed ws) :
    Stands ws := by
  refine h.left_of_quoted sound fun w us suffix ⟨name, function⟩ quoted => ?_
  obtain ⟨front, rfl⟩ := suffix
  have ends : Closed (w :: us) := by
    intro v mem
    exact closed v (by rw [List.getLast?_append, Option.mem_def.1 mem]; rfl)
  have some : us ≠ [] := by
    rintro rfl
    exact (ends w rfl).2 name function
  have rest : Stands (us ++ vs) := by
    rw [List.append_assoc] at h
    exact h.right.tail
  exact rest.startsQuoted_left ends.tail some quoted

/-! ## The words of all tokens -/

/-- Tokens are the words of a text that stands, and the end of input. -/
def Spells (source : String) (ts : List Token) : Prop :=
  ∃ ws, Stands ws ∧ ts.map (word source) = ws ++ [.last]

theorem spells_tokens (source : String) (path : Option String) : Spells source (tokens source path) := by
  obtain ⟨cs, words⟩ := map_word_tokens source path
  exact ⟨written cs, stands_written cs, words⟩

theorem Spells.spelt (h : Spells source ts) : ∀ t ∈ ts, (word source t).Spelt := by
  obtain ⟨ws, stands, words⟩ := h
  intro t mem
  have member : word source t ∈ ws ++ [.last] := words ▸ List.mem_map_of_mem mem
  rcases List.mem_append.1 member with inside | last
  · exact stands.spelt inside
  · rw [List.mem_singleton.1 last]
    exact spelt_last

/-- Some of the tokens side by side, without the end of input, stand before others. -/
theorem Spells.stands (h : Spells source ts) (some : us ++ rest <:+ ts) (solid : ∀ u ∈ us, u.kind ≠ .eof) :
    ∃ vs, Stands (us.map (word source) ++ vs) := by
  obtain ⟨ws, stands, words⟩ := h
  obtain ⟨front, rfl⟩ := some
  have split {xs : List Token} {t : Token} (e : (xs ++ [t]).map (word source) = ws ++ [.last]) :
      xs.map (word source) = ws ∧ word source t = .last := by
    rw [List.map_append, List.map_singleton] at e
    obtain ⟨front, last⟩ := List.append_inj' e rfl
    exact ⟨front, List.singleton_inj.1 last⟩
  rcases List.eq_nil_or_concat rest with rfl | ⟨rest, t, rfl⟩
  · rcases List.eq_nil_or_concat us with rfl | ⟨us, t, rfl⟩
    · exact ⟨[], trivial⟩
    · -- the last token is the end of input
      rw [List.append_nil, List.concat_eq_append, ← List.append_assoc] at words
      exact absurd (congrArg Written.kind (split words).2) (solid t (by simp))
  · rw [List.concat_eq_append, ← List.append_assoc, ← List.append_assoc] at words
    rw [← (split words).1, List.map_append, List.map_append, List.append_assoc] at stands
    exact ⟨rest.map (word source), stands.right⟩

end

end AboveFold.Token
