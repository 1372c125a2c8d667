import AboveFold.Proofs.Grammar.EntryPhrases
import AboveFold.Proofs.Prune.MediaComments
import AboveFold.Proofs.Stylesheet.Grammatical

/-!
# Comments in lists of media queries

An `@media` is useful if one of the entries in its list is, or if there are none. Its entries are what stands
between the commas without the white space around it, if that is anything. So as long as no entry is made of comments
only, all its comments may as well be spaces (`isUsefulMedia_aired`). An entry of comments only counts, as one that
always holds, and with spaces in its place there is none.
-/

namespace AboveFold.Prune
open Text Normalizer

variable {cs lead trail : List Char} {s : Normalizer} {c : Char}

/-! ## White space around a query -/

theorem isUsefulQuery_collapse (query : String) : isUsefulQuery (collapse query) = isUsefulQuery query := by
  unfold isUsefulQuery
  rw [collapse_collapse]

/-- Outside of strings and escapes blanks at the end of a text write nothing. -/
theorem run_trailing (outside : s.mode.isOutside = true) (blank : ∀ c ∈ trail, isBlank c = true) :
    s.run false trail = [] := by
  induction trail generalizing s with
  | nil => rfl
  | cons c trail ih =>
    rw [List.forall_mem_cons] at blank
    obtain ⟨mode, gap, depth⟩ := s
    rw [run_cons]
    cases mode with
    | plain =>
      have other : c ≠ '/' := by rintro rfl; cases blank.1
      simp only [step_plain, other, blank.1, decide_false, Bool.false_and, Bool.false_eq_true, if_false, if_true]
      exact ih rfl blank.2
    | commentStar => exact ih (s := ⟨.comment, gap, depth⟩) rfl blank.2
    | comment =>
      refine ih (s := ⟨if c = '*' && trail.head? = some '/' then .commentSlash else .comment, gap, depth⟩) ?_ blank.2
      dsimp only
      split <;> rfl
    | commentSlash => exact ih (s := ⟨.plain, gap, depth⟩) rfl blank.2
    | _ => cases outside

/-- Whether a blank or nothing follows is the same to the machine outside of strings and escapes. -/
theorem step_head (outside : s.mode.isOutside = true) (blank : ∀ c ∈ trail, isBlank c = true) (cs : List Char) :
    s.step false c (cs ++ trail).head? = s.step false c cs.head? := by
  cases cs with
  | cons => rfl
  | nil =>
    cases trail with
    | nil => rfl
    | cons d trail =>
      rw [List.forall_mem_cons] at blank
      have star : d ≠ '*' := by rintro rfl; cases blank.1
      have slash : d ≠ '/' := by rintro rfl; cases blank.1
      obtain ⟨mode, gap, depth⟩ := s
      cases mode with
      | plain => simp [step_plain, star]
      | comment => simp [step, slash]
      | commentStar | commentSlash => rfl
      | _ => cases outside

/-- What leads into a string or an escape is a character where judgement ends. -/
theorem step_outside (outside : s.mode.isOutside = true) (next : Option Char) :
    (s.step false c next).2.mode.isOutside = true
      ∨ isStop c = true ∧ ∃ front, (s.step false c next).1 = front ++ [c] := by
  obtain ⟨mode, gap, depth⟩ := s
  cases mode with
  | plain =>
    rw [step_plain]
    split
    next => exact .inl rfl
    split
    next => exact .inl rfl
    simp only [isCombinator, Bool.false_and, Bool.false_eq_true, if_false]
    unfold modeAfter
    split
    next quote =>
      refine .inr ⟨?_, gap.text, rfl⟩
      rcases (by simpa using quote : c = '\x22' ∨ c = '\x27') with rfl | rfl <;> decide
    split
    next escape => exact .inr ⟨escape ▸ by decide, gap.text, rfl⟩
    next => exact .inl rfl
  | comment =>
    left
    simp only [step]
    split <;> rfl
  | commentStar | commentSlash => exact .inl rfl
  | _ => cases outside

theorem alike_trailing (outside : s.mode.isOutside = true) (blank : ∀ c ∈ trail, isBlank c = true) :
    Alike (s.run false (cs ++ trail)) (s.run false cs) := by
  induction cs generalizing s with
  | nil =>
    rw [List.nil_append, run_trailing outside blank]
    exact .nil
  | cons c cs ih =>
    rw [List.cons_append, run_cons, run_cons, step_head outside blank]
    rcases step_outside outside cs.head? with outside | ⟨stops, front, e⟩
    · exact (ih outside).append_left _
    · rw [e, List.append_assoc, List.append_assoc]
      exact .append_left front (.stop stops _ _)

/-- The blanks around a query do not matter. -/
theorem isUsefulQuery_trimmed (before : ∀ c ∈ lead, isBlank c = true) (behind : ∀ c ∈ trail, isBlank c = true) :
    isUsefulQuery (String.ofList (lead ++ cs ++ trail)) = isUsefulQuery (String.ofList cs) := by
  refine isUsefulQuery_of_alike ?_
  simp only [collapse, String.toList_ofList, List.append_assoc]
  have leading : run false start (lead ++ (cs ++ trail)) = run false start (cs ++ trail) := by
    by_cases none : lead = []
    · rw [none]
      rfl
    · exact Token.run_blanks before none _
  rw [leading]
  exact alike_trailing rfl behind

end AboveFold.Prune

namespace AboveFold.Parsed
open Source Text Token Prune

variable {source : String} {ps group : List Parsed} {ws : List Written}

/-! ## Entries -/

/-- An entry of a list was read from these words. -/
structure Listed (source : String) (group : List Parsed) (ws : List Written) : Prop where
  said : SaysAll source (trim group) ws
  text : ∀ span ∈ cover (trim group), span.slice source = some (String.ofList (textOf ws))
  stands : Stands ws
  sound : ∀ w ∈ ws, ∀ f, w.kind ≠ .fault f

theorem SaysAll.eq_nil_iff (h : SaysAll source ps ws) : ps = [] ↔ ws = [] := by
  cases ps with
  | nil => exact iff_of_true rfl h
  | cons p ps =>
    obtain ⟨us, vs, rfl, first, -⟩ := h
    obtain ⟨w, head, -⟩ := first.bounds.first
    obtain ⟨us, rfl⟩ : ∃ us', us = w :: us' := List.head?_eq_some_iff.1 head
    simp

/-- The texts of the entries of a list. -/
theorem mediaQueries_texts {inp : Grammar.Input} {es : List (List Written)}
    (listed : List.Forall₂ (Listed inp.source) (splitAtCommas ps) es) :
    (Grammar.mediaQueries inp ps).filterMap (·.kind.mediaQuery?)
      = (es.filter (· ≠ [])).map fun e => Text.collapse (String.ofList (textOf e)) := by
  unfold Grammar.mediaQueries
  generalize splitAtCommas ps = groups at listed
  induction listed with
  | nil => rfl
  | @cons group e groups es entry _ ih =>
    rw [List.filterMap_cons]
    cases covered : cover (trim group) with
    | none =>
      obtain rfl : e = [] := entry.said.eq_nil_iff.1 (eq_nil_of_cover_eq_none covered)
      simp only [covered, Option.map_none]
      exact ih
    | some span =>
      have some : e ≠ [] := by
        rintro rfl
        rw [entry.said.eq_nil_iff.2 rfl] at covered
        cases covered
      have text : inp.slice span = String.ofList (textOf e) := by
        rw [Grammar.Input.slice, entry.text span covered]
        rfl
      rw [List.filter_cons_of_pos (by simpa using some), List.map_cons, ← ih, ← text]
      simp only [covered, Option.map_some]
      rfl

/-! ## Lists -/

/-- An entry has the text of another with spaces in place of its comments, but for blanks at the ends. -/
def Aired (e e' : List Written) : Prop :=
  ∃ lead trail, (∀ c ∈ lead, isBlank c = true) ∧ (∀ c ∈ trail, isBlank c = true)
    ∧ textOf (e.map aired) = lead ++ textOf e' ++ trail

theorem Aired.isUsefulQuery {e e' : List Written} (h : Aired e e') (stands : Stands e)
    (sound : ∀ w ∈ e, ∀ f, w.kind ≠ .fault f) :
    isUsefulQuery (String.ofList (textOf e')) = isUsefulQuery (String.ofList (textOf e)) := by
  obtain ⟨lead, trail, before, behind, text⟩ := h
  rw [← isUsefulQuery_aired stands sound, text, isUsefulQuery_trimmed before behind]

theorem exists_solid {w : Written} (stands : Stands ws) (mem : w ∈ ws) (solid : w.kind.isTrivia = false) :
    ∃ c ∈ w.text, isBlank c = false := by
  induction ws with
  | nil => cases mem
  | cons v ws ih =>
    rcases List.mem_cons.1 mem with rfl | mem
    · obtain ⟨c, xs, text, -, begins⟩ := stands.begins
      refine ⟨c, by simp [text], Bool.eq_false_iff.2 fun blank => ?_⟩
      have white : w.kind = .whitespace := begins.blanks_iff.1 blank
      rw [white] at solid
      cases solid
    · exact ih stands.tail mem

/-- Spaces in place of its comments leave something of an entry, if it is not made of comments only. -/
theorem Aired.eq_nil_iff {e e' : List Written} (h : Aired e e') (stands : Stands e) (stands' : Stands e')
    (some : e ≠ [] → ∃ w ∈ e, w.kind.isTrivia = false) : e = [] ↔ e' = [] := by
  obtain ⟨lead, trail, before, behind, text⟩ := h
  constructor
  · rintro rfl
    cases e' with
    | nil => rfl
    | cons w e' =>
      obtain ⟨c, xs, letters, -⟩ := stands'.begins
      simp [letters] at text
  · rintro rfl
    by_contra more
    obtain ⟨w, mem, solid⟩ := some more
    obtain ⟨c, here, ink⟩ := exists_solid stands mem solid
    have there : c ∈ textOf (e.map aired) :=
      List.mem_flatMap.2 ⟨aired w, List.mem_map_of_mem mem, (aired_of_not_isTrivia solid).symm ▸ here⟩
    rw [text, textOf_nil, List.append_nil, List.mem_append] at there
    exact Bool.false_ne_true (ink.symm.trans (there.elim (before c) (behind c)))

/-- What is decided of the entries of a list, of those that are there. -/
def verdicts (es : List (List Written)) : List Bool :=
  (es.filter (· ≠ [])).map fun e => Prune.isUsefulQuery (String.ofList (textOf e))

/-- Spaces in place of the comments of a list leave as many entries, and of each the same is decided. -/
theorem verdicts_aired {source source' : String} {groups groups' : List (List Parsed)} {es es' : List (List Written)}
    (listed : List.Forall₂ (Listed source) groups es) (listed' : List.Forall₂ (Listed source') groups' es')
    (aired : List.Forall₂ Aired es es') (some : ∀ e ∈ es, e ≠ [] → ∃ w ∈ e, w.kind.isTrivia = false) :
    verdicts es' = verdicts es := by
  unfold verdicts
  induction aired generalizing groups groups' with
  | nil => rfl
  | @cons e e' es es' same _ ih =>
    cases listed with
    | cons entry listed =>
      cases listed' with
      | cons entry' listed' =>
        rw [List.forall_mem_cons] at some
        have later := ih listed listed' some.2
        have missing := same.eq_nil_iff entry.stands entry'.stands some.1
        by_cases none : e = []
        · rw [List.filter_cons_of_neg (by simpa using missing.1 none), List.filter_cons_of_neg (by simpa using none)]
          exact later
        · rw [List.filter_cons_of_pos (by simpa using none ∘ missing.2), List.filter_cons_of_pos (by simpa using none),
            List.map_cons, List.map_cons, later, same.isUsefulQuery entry.stands entry.sound]

/-! ## At-rules -/

theorem find?_numberAll (p : Node.Kind → Bool) (next : Nat) (ps : List Parsed) :
    ∃ n, (numberAll next ps).1.find? (p ·.kind) = (ps.find? (p ·.kind)).map fun q => (number n q).1 := by
  induction ps generalizing next with
  | nil => exact ⟨next, rfl⟩
  | cons q ps ih =>
    simp only [numberAll, List.find?_cons, kind_number]
    split
    next => exact ⟨next, rfl⟩
    next => exact ih _

/-- The texts of the media queries in the prelude of a node. -/
def mediaTexts (p : Parsed) : List String :=
  (((p.children.find? (·.kind = .prelude)).map children).getD []).filterMap (·.kind.mediaQuery?)

theorem mediaQueries_number (next : Nat) (p : Parsed) : (number next p).1.mediaQueries = p.mediaTexts := by
  obtain ⟨k, span, ps⟩ := p
  obtain ⟨n, found⟩ := find?_numberAll (· = .prelude) (next + 1) ps
  show (((Branch.children (.mk _ (numberAll (next + 1) ps).1)).find? (·.kind = .prelude) |>.map Branch.children).getD
    []).filterMap (·.kind.mediaQuery?) = _
  rw [Branch.children_mk, found, mediaTexts]
  show _ = (((ps.find? (·.kind = .prelude)).map children).getD []).filterMap (·.kind.mediaQuery?)
  cases ps.find? (·.kind = .prelude) with
  | none => rfl
  | some q =>
    have kinds := kinds_number n q
    have pulled (bs : List Branch) :
        bs.filterMap (·.kind.mediaQuery?) = (bs.map Branch.kind).filterMap (·.mediaQuery?) := by
      rw [List.filterMap_map]
      rfl
    simp only [Option.map_some, Option.getD_some]
    rw [pulled, kinds, List.filterMap_map]
    rfl

end AboveFold.Parsed

namespace AboveFold.Grammar
open Source Text Node Parsed Token Prune

variable {inp inp' : Input} {tokens : List Token} {st : State} {a : Nat} {atoms atoms' block block' : List Parsed}
  {name name' : String} {span span' : ByteSpan} {es es' : List (List Written)}

theorem mediaTexts_atRule (span : ByteSpan) (media : eqIgnoreCase name "media" = true)
    (plain : ∀ p ∈ block, p.kind ≠ .prelude) :
    (Parsed.node (.atRule name) span ((preludeOf inp name atoms).1 ++ block)).mediaTexts
      = (mediaQueries inp (trim atoms)).filterMap (·.kind.mediaQuery?) := by
  have nothing : block.find? (·.kind = .prelude) = none := List.find?_eq_none.2 fun p mem => by simpa using plain p mem
  unfold preludeOf
  simp only
  split
  next e =>
    rw [eq_nil_of_cover_eq_none e, List.nil_append, mediaTexts]
    show (((block.find? (·.kind = .prelude)).map children).getD []).filterMap (·.kind.mediaQuery?) = _
    rw [nothing]
    rfl
  next => rw [if_pos media]; rfl

/-- An `@media` is useful if an entry of its list is, or if there are none. -/
theorem isUsefulMedia_listed (media : eqIgnoreCase name "media" = true) (plain : ∀ p ∈ block, p.kind ≠ .prelude)
    (listed : List.Forall₂ (Listed inp.source) (splitAtCommas (trim atoms)) es) (next : Nat) :
    (number next (.node (.atRule name) span ((preludeOf inp name atoms).1 ++ block))).1.isUsefulMedia
      = ((verdicts es).isEmpty || (verdicts es).any (· = true)) := by
  have texts := (mediaTexts_atRule span media plain).trans (mediaQueries_texts listed)
  simp only [Branch.isUsefulMedia, kind_number, mediaQueries_number, texts, Parsed.kind, media, Bool.not_true, verdicts,
    Bool.false_or, List.isEmpty_map, List.any_map, Function.comp_def, isUsefulQuery_collapse, Bool.decide_eq_true]

/-- **The comments in a list of media queries may as well be spaces**, unless an entry is made of comments only. -/
theorem isUsefulMedia_aired (media : eqIgnoreCase name "media" = true) (media' : eqIgnoreCase name' "media" = true)
    (plain : ∀ p ∈ block, p.kind ≠ .prelude) (plain' : ∀ p ∈ block', p.kind ≠ .prelude)
    (listed : List.Forall₂ (Listed inp.source) (splitAtCommas (trim atoms)) es)
    (listed' : List.Forall₂ (Listed inp'.source) (splitAtCommas (trim atoms')) es')
    (aired : List.Forall₂ Aired es es') (some : ∀ e ∈ es, e ≠ [] → ∃ w ∈ e, w.kind.isTrivia = false)
    (next next' : Nat) :
    (number next' (.node (.atRule name') span' ((preludeOf inp' name' atoms').1 ++ block'))).1.isUsefulMedia
      = (number next (.node (.atRule name) span ((preludeOf inp name atoms).1 ++ block))).1.isUsefulMedia := by
  rw [isUsefulMedia_listed media' plain' listed', isUsefulMedia_listed media plain listed,
    verdicts_aired listed listed' aired some]

theorem exists_forall₂ {α β : Type} {R : α → β → Prop} {xs : List α} (all : ∀ x ∈ xs, ∃ y, R x y) :
    ∃ ys, List.Forall₂ R xs ys := by
  induction xs with
  | nil => exact ⟨[], .nil⟩
  | cons x xs ih =>
    rw [List.forall_mem_cons] at all
    obtain ⟨y, here⟩ := all.1
    obtain ⟨ys, later⟩ := ih all.2
    exact ⟨y :: ys, .cons here later⟩

/-- Up to the block of an at-rule component values are read, and nothing more is reported. -/
theorem atRuleHead_components (inp : Input) (nameEnd : Nat) (st : State) :
    ∃ stop, (Grammar.atRuleHead inp nameEnd st).1.atoms = (Grammar.components inp stop st).1
      ∧ (Grammar.atRuleHead inp nameEnd st).2.errors = (Grammar.components inp stop st).2.errors := by
  refine ⟨fun k => k = .semicolon || k = .curlyOpen || k = .curlyClose, ?_⟩
  unfold Grammar.atRuleHead
  simp only
  split
  next => exact ⟨rfl, State.errors_advance _⟩
  next => exact ⟨rfl, rfl⟩
  next => exact ⟨rfl, rfl⟩

/-- If nothing is reported up to the block of an at-rule, the entries of its list were read from words. -/
theorem Ready.atRuleHead_listed (spells : Spells inp.source tokens) (h : Ready inp.source tokens st a) (nameEnd : Nat)
    (clean : (Grammar.atRuleHead inp nameEnd st).2.errors = []) :
    ∃ es, List.Forall₂ (Listed inp.source) (splitAtCommas (trim (Grammar.atRuleHead inp nameEnd st).1.atoms)) es := by
  refine exists_forall₂ fun group mem => ?_
  have inside := (isInfix_of_mem_splitAtCommas mem).trans (trim_isInfix _)
  obtain ⟨stop, atoms, errors⟩ := atRuleHead_components inp nameEnd st
  rw [atoms] at inside
  obtain ⟨ws, words⟩ := h.worded spells stop (errors ▸ clean) inside .prelude
  refine ⟨ws, words.said, fun span covered => ?_, words.stands, words.sound⟩
  have text := words.text
  rwa [Option.mem_def.1 covered] at text

/-- An entry of a comment only counts, and one of a space does not. -/
example : (Stylesheet.parse "@media print,/**/\x7b\x7d" none).pruneMedia.1 = 0
    ∧ (Stylesheet.parse "@media print, \x7b\x7d" none).pruneMedia.1 = 1 := by decide +kernel

end AboveFold.Grammar
