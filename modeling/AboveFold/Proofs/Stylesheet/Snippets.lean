import AboveFold.Diagnostic.Render
import AboveFold.Proofs.Grammar.Located

/-!
# Snippets show the lines of their places

Positions end a line at each line feed, carriage return and form feed, and at a carriage return with a line feed behind
it once. A snippet looks its line up among those that end at line feeds alone. The two agree where every carriage return
stands before a line feed and there are no form feeds (`PlainEnds`). In such a source the snippet of a diagnostic shows
the line where the diagnostic starts, if anything is on it, and the marks begin under the column of the start
(`Stylesheet.detailed_shows_line`).
-/

namespace AboveFold.Source
open Text

/-- Every line of a text ends at a line feed, alone or behind a carriage return. -/
def PlainEnds : List Char → Prop
  | [] => True
  | '\r' :: '\n' :: cs => PlainEnds cs
  | c :: cs => c ≠ '\r' ∧ c ≠ '\x0c' ∧ PlainEnds cs

/-- The line that stands around the end of `before`, where `after` follows. -/
def lineAt (before after : List Char) : List Char :=
  lastLine before ++ after.takeWhile fun c => !isLineEnd c

variable {line before after cs : List Char} {c : Char} {source : String} {path : Option String} {s : Span}

theorem lastLine_eq_self (inside : ∀ c ∈ line, isLineEnd c = false) : lastLine line = line :=
  List.rtakeWhile_eq_self_iff.2 fun c mem => by simp [inside c mem]

/-- What stands in front of a line end is not on the last line. -/
theorem lastLine_append_cons (ends : isLineEnd c = true) (line cs : List Char) :
    lastLine (line ++ c :: cs) = lastLine cs := by
  induction cs using List.reverseRecOn with
  | nil => rw [lastLine_concat_of_isLineEnd ends]; rfl
  | append_singleton cs d ih =>
    rw [← List.cons_append, ← List.append_assoc]
    cases k : isLineEnd d with
    | true => rw [lastLine_concat_of_isLineEnd k, lastLine_concat_of_isLineEnd k]
    | false => rw [lastLine_concat k, lastLine_concat k, ih]

theorem lineAt_append_cons (ends : isLineEnd c = true) (line cs after : List Char) :
    lineAt (line ++ c :: cs) after = lineAt cs after := by
  rw [lineAt, lineAt, lastLine_append_cons ends]

theorem dropReturn_of_not_isLineEnd (inside : ∀ c ∈ line, isLineEnd c = false) : dropReturn line = line := by
  refine if_neg fun last => ?_
  exact absurd (inside '\r' (List.mem_of_getLast? last)) (by decide)

theorem dropReturn_concat (line : List Char) : dropReturn (line ++ ['\r']) = line := by
  simp [dropReturn]

theorem linesFrom_cons_of_not_isLineEnd (inside : isLineEnd c = false) (line cs : List Char) :
    linesFrom line (c :: cs) = linesFrom (line ++ [c]) cs := by
  refine if_neg ?_
  rintro rfl
  exact absurd inside (by decide)

/-- A text with plain line ends starts with a pair, a line feed, or something that ends no line. -/
theorem PlainEnds.cases (plain : PlainEnds (c :: cs)) :
    (c = '\r' ∧ ∃ rest, cs = '\n' :: rest ∧ PlainEnds rest) ∨ (c = '\n' ∨ isLineEnd c = false) ∧ PlainEnds cs := by
  unfold PlainEnds at plain
  split at plain
  next same => cases same
  next rest same =>
    obtain ⟨rfl, rfl⟩ := List.cons.inj same
    exact .inl ⟨rfl, rest, rfl, plain⟩
  next same =>
    obtain ⟨rfl, rfl⟩ := List.cons.inj same
    obtain ⟨no_return, no_feed, plain⟩ := plain
    exact .inr ⟨by simpa [isLineEnd, no_return, no_feed] using Classical.em (c = '\n'), plain⟩

/-- The first line is what stands in front of the first place where positions count the end of a line. -/
theorem linesFrom_first (plain : PlainEnds cs) (inside : ∀ c ∈ line, isLineEnd c = false)
    (filled : line ++ cs.takeWhile (fun c => !isLineEnd c) ≠ []) :
    (linesFrom line cs)[0]? = some (line ++ cs.takeWhile fun c => !isLineEnd c) := by
  induction cs generalizing line with
  | nil =>
    rw [linesFrom, if_neg (by simpa using filled)]
    simp
  | cons c cs ih =>
    rcases plain.cases with ⟨rfl, rest, rfl, -⟩ | ⟨rfl | other, plain⟩
    · rw [linesFrom, if_neg (by decide), linesFrom, if_pos rfl, dropReturn_concat]
      simp [isLineEnd]
    · rw [linesFrom, if_pos rfl, dropReturn_of_not_isLineEnd inside]
      simp [isLineEnd]
    · rw [linesFrom_cons_of_not_isLineEnd other]
      have longer : ∀ d ∈ line ++ [c], isLineEnd d = false := by simpa [or_imp, forall_and, other] using inside
      simpa [other] using ih plain longer (by simp)

/-- **The line that a position counts is the line of that number**, if there is anything on it. -/
theorem linesFrom_lineEnds (plain : PlainEnds (before ++ after)) (inside : ∀ c ∈ line, isLineEnd c = false)
    (filled : lineAt (line ++ before) after ≠ []) :
    (linesFrom line (before ++ after))[lineEnds before]? = some (lineAt (line ++ before) after) := by
  fun_induction lineEnds before generalizing line with
  | case1 =>
    rw [List.append_nil, lineAt, lastLine_eq_self inside] at filled ⊢
    exact linesFrom_first plain inside filled
  | case2 cs ih =>
    have pair : lineAt (line ++ '\r' :: '\n' :: cs) after = lineAt cs after := by
      rw [lineAt_append_cons (by decide), ← List.nil_append ('\n' :: cs), lineAt_append_cons (by decide)]
    rw [pair] at filled ⊢
    rw [List.cons_append, List.cons_append, linesFrom, if_neg (by decide), linesFrom, if_pos rfl]
    exact ih plain (by simp) filled
  | case3 c cs single ih =>
    show (linesFrom line (c :: (cs ++ after)))[_]? = _
    rcases PlainEnds.cases plain with ⟨rfl, rest, e, -⟩ | ⟨rfl | other, later⟩
    · -- The position stands inside of a pair, where nothing is on the line.
      have empty : cs = [] := by
        cases cs with
        | nil => rfl
        | cons d cs =>
          obtain ⟨rfl, -⟩ := List.cons.inj e
          exact absurd rfl (single cs rfl)
      subst empty
      have feed : after = '\n' :: rest := e
      rw [lineAt_append_cons (by decide), feed] at filled
      exact absurd rfl filled
    · rw [lineAt_append_cons (by decide)] at filled ⊢
      rw [linesFrom, if_pos rfl]
      exact ih later (by simp) filled
    · rw [linesFrom_cons_of_not_isLineEnd other, other]
      rw [List.append_cons line c cs] at filled ⊢
      exact ih later (by simpa [or_imp, forall_and, other] using inside) filled

theorem lines_lineEnds (plain : PlainEnds source.toList) (split : source.toList = before ++ after)
    (filled : lineAt before after ≠ []) :
    (lines source)[lineEnds before]? = some (String.ofList (lineAt before after)) := by
  rw [split] at plain
  have found : (linesFrom [] (before ++ after))[lineEnds before]? = some (lineAt before after) :=
    linesFrom_lineEnds plain (by simp) filled
  rw [lines, List.getElem?_map, split, found]
  rfl

theorem lineEnds_cons (inside : isLineEnd c = false) (cs : List Char) : lineEnds (c :: cs) = lineEnds cs := by
  have other : c ≠ '\r' := by
    rintro rfl
    exact absurd inside (by decide)
  rw [lineEnds.eq_3 _ _ fun _ same _ => other same, inside]
  rfl

/-- A place starts behind some front of the source. Its line is counted there, and so is its column if the source has no
byte order mark. -/
theorem Span.Resolved.start_spec (h : s.Resolved source path) :
    ∃ before after, source.toList = before ++ after ∧ byteSize before = s.start.offset ∧ lineEnds before = s.start.line
      ∧ (Token.markSize source = 0 → (lastLine before).length = s.start.column) := by
  cases h with
  | whole bytes _ =>
    obtain ⟨after, split, eq⟩ := Position.of_spec source bytes.start
    simp only [Span.resolve, eq]
    exact ⟨_, after, split, rfl, rfl, fun _ => rfl⟩
  | behindMark bytes _ =>
    obtain ⟨after, split, eq⟩ := Position.of_spec (Token.unmarked source) bytes.start
    simp only [Span.resolve, Span.shift, eq]
    generalize floorPrefix (Token.unmarked source).toList bytes.start = before at split
    unfold Token.unmarked at split
    unfold Token.markSize
    split at split
    next cs e =>
      rw [String.toList_ofList] at split
      refine ⟨'\ufeff' :: before, after, by rw [e, split]; rfl, Nat.add_comm .., lineEnds_cons (by decide) _, ?_⟩
      exact fun none => absurd none (by decide)
    next other =>
      rw [String.toList_ofList] at split
      exact ⟨before, after, split, by simp [Position.after, Position.shift], rfl, fun _ => rfl⟩

end AboveFold.Source

namespace AboveFold.Diagnostic
open Source

/-- A line with its number, and under it a row of marks from a column on. -/
def marked (line : Nat) (text : String) (column width : Nat) : String :=
  let margin := spaces (gutter line)
  let number := numbered line
  let indent := spaces column
  let carets := String.ofList (List.replicate width '^')
  s!"{margin} |\n{number} | {text}\n{margin} | {indent}{carets}\n"

variable {source text : String} {span : Span}

theorem snippet_eq_marked (found : (Text.lines source)[span.start.line]? = some text) :
    snippet source span = marked span.start.line text span.start.column (underline span text) := by
  rw [snippet, found]
  rfl

theorem one_le_underline (span : Span) (text : String) : 1 ≤ underline span text := Nat.le_max_right _ _

theorem detailed_of_snippet (d : Diagnostic) (source : String) :
    ∃ head notes, d.detailed (some source) = head ++ snippet source d.span ++ notes := by
  refine ⟨s!"error: {d.message}\n  --> {place d.span}\n", String.join (d.notes.map (Note.render (some source))), ?_⟩
  simp only [detailed]
  rfl

end AboveFold.Diagnostic

namespace AboveFold.Stylesheet
open Source Text Diagnostic

/-- A place that a diagnostic or one of its notes names is on the line of its number. -/
theorem errors_line (source : String) (path : Option String) (plain : PlainEnds source.toList) :
    ∀ d ∈ (parse source path).errors, ∀ s ∈ d.spans, ∃ before after, source.toList = before ++ after
      ∧ byteSize before = s.start.offset ∧ (Token.markSize source = 0 → (lastLine before).length = s.start.column)
      ∧ (lineAt before after ≠ [] → (lines source)[s.start.line]? = some (String.ofList (lineAt before after))) := by
  intro d mem s named
  obtain ⟨before, after, split, offset, line, column⟩ := (errors_resolved source path d mem s named).start_spec
  exact ⟨before, after, split, offset, column, fun filled => line ▸ lines_lineEnds plain split filled⟩

/-- **The snippet of a diagnostic shows the line where it starts, with the marks from its column on**, in a source whose
lines end at line feeds, unless nothing is on that line. -/
theorem detailed_shows_line (source : String) (path : Option String) (plain : PlainEnds source.toList) :
    ∀ d ∈ (parse source path).errors, ∃ before after, source.toList = before ++ after
      ∧ byteSize before = d.span.start.offset
      ∧ (Token.markSize source = 0 → (lastLine before).length = d.span.start.column)
      ∧ (lineAt before after ≠ [] → ∃ head width notes, 1 ≤ width
        ∧ d.detailed (some source) = head
          ++ marked d.span.start.line (String.ofList (lineAt before after)) d.span.start.column width ++ notes) := by
  intro d mem
  obtain ⟨before, after, split, offset, column, found⟩ := errors_line source path plain d mem d.span (by simp [spans])
  refine ⟨before, after, split, offset, column, fun filled => ?_⟩
  obtain ⟨head, notes, whole⟩ := d.detailed_of_snippet source
  rw [snippet_eq_marked (found filled)] at whole
  exact ⟨head, _, notes, one_le_underline .., whole⟩

/-- A form feed ends a line for positions alone: the stray brace has a line of its own, and another is looked up. -/
example :
    let source := "a\x7b\x7d\x0c\x7d\nb\x7b\x7d"
    (parse source none).errors.map (fun d => (d.span.start.line, d.span.start.column)) = [(1, 0)]
      ∧ (lines source)[1]? = some "b\x7b\x7d" := by decide +kernel

end AboveFold.Stylesheet
