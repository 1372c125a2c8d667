import AboveFold.Proofs.Grammar.Values
import Mathlib.Data.List.DropRight
import Mathlib.Data.List.Forall2

/-!
# Heads made of component values

A prelude, a selector list and the value of a declaration are made of component values that were read in one go. What
becomes of the values, and which words each part has, does not depend on where they were read: it is said here for items
alone (`Item.prelude`, `Item.selectorList`, `Item.declared`), and what the functions of the grammar make of values with a
place agrees with that.
-/

namespace AboveFold.Text

variable {α : Type}

theorem trimBy_append_of_trailing {f : α → Bool} (xs : List α) {ys : List α} (all : ∀ y ∈ ys, f y = true) :
    trimBy f (xs ++ ys) = trimBy f xs := by
  unfold trimBy
  rw [List.dropWhile_append]
  cases e : (xs.dropWhile f).isEmpty with
  | true =>
    have none : ys.dropWhile f = [] := List.dropWhile_eq_nil_iff.2 all
    rw [if_pos rfl, none, List.isEmpty_iff.1 e]
  | false =>
    rw [if_neg Bool.false_ne_true, List.reverse_append,
      List.dropWhile_append_of_pos fun y mem => all y (List.mem_reverse.1 mem)]

theorem trimBy_append_of_leading {f : α → Bool} (xs : List α) {ys : List α} (all : ∀ y ∈ ys, f y = true) :
    trimBy f (ys ++ xs) = trimBy f xs := by
  unfold trimBy
  rw [List.dropWhile_append_of_pos all]

/-- A list with ends that are not trimmed stays as it is. -/
theorem trimBy_of_ends {f : α → Bool} {xs : List α} (first : ∀ x ∈ xs.head?, f x = false)
    (last : ∀ x ∈ xs.getLast?, f x = false) : trimBy f xs = xs := by
  have keep {ys : List α} (first : ∀ y ∈ ys.head?, f y = false) : ys.dropWhile f = ys := by
    cases ys with
    | nil => rfl
    | cons y ys => rw [List.dropWhile_cons_of_neg (by simp [first y rfl])]
  unfold trimBy
  rw [keep first, keep (by simpa using last), List.reverse_reverse]

theorem head?_trimBy {f : α → Bool} {xs : List α} {x : α} (mem : x ∈ (trimBy f xs).head?) : f x = false := by
  have leading : trimBy f xs <+: xs.dropWhile f := by
    have := List.dropWhile_suffix (l := (xs.dropWhile f).reverse) f
    simpa [trimBy] using List.reverse_prefix.2 this
  obtain ⟨ys, e⟩ := leading
  have first : (xs.dropWhile f).head? = some x := by
    rw [← e]
    cases t : trimBy f xs with
    | nil => simp [t] at mem
    | cons y ys => simpa [t] using mem
  have := List.head?_dropWhile_not f xs
  rwa [first] at this

theorem getLast?_trimBy {f : α → Bool} {xs : List α} {x : α} (mem : x ∈ (trimBy f xs).getLast?) : f x = false := by
  have last : ((xs.dropWhile f).reverse.dropWhile f).head? = some x := by
    rw [← List.getLast?_reverse]
    exact mem
  have := List.head?_dropWhile_not f (xs.dropWhile f).reverse
  rwa [last] at this

theorem trimBy_trimBy (f : α → Bool) (xs : List α) : trimBy f (trimBy f xs) = trimBy f xs :=
  trimBy_of_ends (fun _ => head?_trimBy) fun _ => getLast?_trimBy

theorem trimBy_isInfix (f : α → Bool) (xs : List α) : trimBy f xs <:+: xs := by
  obtain ⟨lead, trail, e, -⟩ := exists_trimBy f xs
  exact ⟨lead, trail, e.symm⟩

theorem splitOnP_map {β : Type} (p : β → Bool) (f : α → β) (xs : List α) :
    (xs.map f).splitOnP p = (xs.splitOnP (p ∘ f)).map (List.map f) := by
  induction xs with
  | nil => rfl
  | cons x xs ih =>
    rw [List.map_cons, List.splitOnP_cons_eq_if_modifyHead, List.splitOnP_cons_eq_if_modifyHead, ih]
    cases e : p (f x) with
    | true => simp [e]
    | false => cases xs.splitOnP (p ∘ f) <;> simp [e]

/-- The parts of a list that is divided stand in it. -/
theorem isInfix_of_mem_splitOnP {p : α → Bool} {xs g : List α} (mem : g ∈ xs.splitOnP p) : g <:+: xs := by
  -- the first part stands in front, the others anywhere
  suffices ∃ first rest, xs.splitOnP p = first :: rest ∧ first <+: xs ∧ ∀ g ∈ rest, g <:+: xs by
    obtain ⟨first, rest, e, front, inside⟩ := this
    rw [e, List.mem_cons] at mem
    rcases mem with rfl | mem
    · exact front.isInfix
    · exact inside g mem
  clear mem
  induction xs with
  | nil => exact ⟨[], [], rfl, List.prefix_rfl, by simp⟩
  | cons x xs ih =>
    obtain ⟨first, rest, e, front, inside⟩ := ih
    rw [List.splitOnP_cons_eq_if_modifyHead, e]
    cases p x with
    | true =>
      refine ⟨[], first :: rest, rfl, List.nil_prefix, List.forall_mem_cons.2 ⟨List.infix_cons front.isInfix, ?_⟩⟩
      exact fun g mem => List.infix_cons (inside g mem)
    | false =>
      exact ⟨x :: first, rest, rfl, (List.prefix_cons_inj x).2 front, fun g mem => List.infix_cons (inside g mem)⟩

/-- No part of a list that is divided holds what divides it. -/
theorem forall_of_mem_splitOnP {p : α → Bool} {xs g : List α} (mem : g ∈ xs.splitOnP p) : ∀ x ∈ g, p x = false := by
  induction xs generalizing g with
  | nil =>
    obtain rfl : g = [] := by simpa using mem
    simp
  | cons x xs ih =>
    rw [List.splitOnP_cons_eq_if_modifyHead] at mem
    cases e : p x with
    | true =>
      rw [e, if_pos rfl, List.mem_cons] at mem
      rcases mem with rfl | mem
      · simp
      · exact ih mem
    | false =>
      rw [e, if_neg Bool.false_ne_true] at mem
      obtain ⟨first, rest, split⟩ := List.exists_cons_of_ne_nil (List.splitOnP_ne_nil p xs)
      rw [split, List.modifyHead_cons, List.mem_cons] at mem
      rw [split] at ih
      rcases mem with rfl | mem
      · exact List.forall_mem_cons.2 ⟨e, ih List.mem_cons_self⟩
      · exact ih (List.mem_cons_of_mem _ mem)

/-- What stands behind a list that is divided, and holds no mark, goes to the last part. -/
theorem splitOnP_append_of_forall {p : α → Bool} (xs : List α) {ys : List α} (free : ∀ y ∈ ys, p y = false) :
    ∃ front last, xs.splitOnP p = front ++ [last] ∧ (xs ++ ys).splitOnP p = front ++ [last ++ ys] := by
  induction xs with
  | nil => exact ⟨[], [], rfl, by simpa using List.splitOnP_eq_singleton free⟩
  | cons x xs ih =>
    obtain ⟨front, last, e, e'⟩ := ih
    rw [List.cons_append, List.splitOnP_cons_eq_if_modifyHead, List.splitOnP_cons_eq_if_modifyHead, e, e']
    cases p x with
    | true => exact ⟨[] :: front, last, rfl, rfl⟩
    | false =>
      cases front with
      | nil => exact ⟨[], x :: last, rfl, rfl⟩
      | cons g front => exact ⟨(x :: g) :: front, last, rfl, rfl⟩

/-- What stands before a list that is divided, and holds no mark, goes to the first part. -/
theorem splitOnP_append_of_leading {p : α → Bool} (xs : List α) {ys : List α} (free : ∀ y ∈ ys, p y = false) :
    (ys ++ xs).splitOnP p = (xs.splitOnP p).modifyHead (ys ++ ·) := by
  induction ys with
  | nil => cases e : xs.splitOnP p <;> simp [e]
  | cons y ys ih =>
    rw [List.forall_mem_cons] at free
    rw [List.cons_append, List.splitOnP_cons_eq_if_modifyHead, if_neg (by simp [free.1]), ih free.2,
      List.modifyHead_modifyHead]
    rfl

end AboveFold.Text

namespace AboveFold.Parsed

theorem splitAtCommas_eq (ps : List Parsed) : splitAtCommas ps = ps.splitOnP isComma := by
  induction ps with
  | nil => rfl
  | cons p ps ih =>
    rw [splitAtCommas, ih, List.splitOnP_cons_eq_if_modifyHead]
    cases e : ps.splitOnP isComma with
    | nil => exact absurd e (List.splitOnP_ne_nil _ _)
    | cons g gs => rfl

end AboveFold.Parsed

namespace AboveFold.Grammar
open Source Node Parsed Token

namespace Item

/-- Whether an item is whitespace. -/
def isWhite (i : Item) : Bool := i.value.isWhitespace

/-- Whether an item is a comma. -/
def isComma (i : Item) : Bool := i.value.isComma

/-- Items without the whitespace at their ends. -/
def trim (items : List Item) : List Item := Text.trimBy isWhite items

/-- The groups between the commas of some items. -/
def groups (items : List Item) : List (List Item) := items.splitOnP isComma

/-- The text of items. -/
def text (items : List Item) : String := String.ofList (textOf (wordsOf items))

/-- The selector that is written in some items. -/
def selector (items : List Item) : Parsed :=
  bare (.selector (Text.normalizeSelector (text (trim items)))) ((trim items).map value)

/-- The selector list that is written in some items. -/
def selectorList (items : List Item) : Parsed := bare .selectorList ((groups items).map selector)

/-- There is more than whitespace and comments in each group between commas. -/
def AllSelect (items : List Item) : Prop := ∀ g ∈ groups items, ∃ i ∈ trim g, i.value.kind.isComment = false

/-- The media query that is written in some items. -/
def query (items : List Item) : Parsed :=
  bare (.mediaQuery (Text.collapse (text (trim items)))) ((trim items).map value)

/-- The media queries that are written in some items. -/
def queries (items : List Item) : List Parsed :=
  (groups items).filterMap fun g => if (trim g).isEmpty then none else some (query g)

/-- The prelude of the at-rule `name` that is written in some items, if there is any. -/
def prelude (name : String) (items : List Item) : List Parsed :=
  if (trim items).isEmpty then []
  else [bare .prelude (if Text.eqIgnoreCase name "media" then queries (trim items) else (trim items).map value)]

/-- What some items say as the value of a declaration: whether this is important, and what is left of them. -/
def declared (items : List Item) : Bool × List Item :=
  match importantAt? ((trim items).map value) with
  | some i => (true, trim ((trim items).take i))
  | none => (false, trim items)

/-- The declaration of `property` by some items. -/
def declaration (property : String) (items : List Item) : Parsed :=
  bare (.declaration property (declared items).1) [bare .value ((declared items).2.map value)]

variable {items zs : List Item} {source : String} {lo hi : Nat} {span : ByteSpan}

/-! ## Places do not matter -/

@[simp] theorem isWhite_unplaced (i : Item) : i.unplaced.isWhite = i.isWhite := isWhitespace_unplaced i.value

@[simp] theorem isComma_unplaced (i : Item) : i.unplaced.isComma = i.isComma := Parsed.isComma_unplaced i.value

theorem trim_map_unplaced (items : List Item) : trim (items.map unplaced) = (trim items).map unplaced := by
  have same : isWhite ∘ unplaced = isWhite := funext isWhite_unplaced
  rw [trim, Text.trimBy_map, same, trim]

theorem groups_map_unplaced (items : List Item) : groups (items.map unplaced) = (groups items).map (List.map unplaced) := by
  have same : isComma ∘ unplaced = isComma := funext isComma_unplaced
  rw [groups, Text.splitOnP_map, same, groups]

@[simp] theorem text_map_unplaced (items : List Item) : text (items.map unplaced) = text items := by
  rw [text, wordsOf_unplaced, text]

/-! ## Whitespace at the ends does not matter -/

theorem trim_trim (items : List Item) : trim (trim items) = trim items := Text.trimBy_trimBy isWhite items

theorem isComma_of_isWhite {i : Item} (white : i.isWhite = true) : i.isComma = false := by
  have kind : i.value.kind = .whitespace := by simpa [isWhite, isWhitespace, Node.Kind.isWhitespace] using white
  simp [isComma, Parsed.isComma, kind]

theorem map_trim_groups_trim (items : List Item) : (groups (trim items)).map trim = (groups items).map trim := by
  obtain ⟨lead, trail, e, white⟩ := Text.exists_trimBy isWhite items
  rw [List.forall_mem_append] at white
  obtain ⟨front, last, split, split'⟩ := Text.splitOnP_append_of_forall (p := isComma) (trim items) fun i mem =>
    isComma_of_isWhite (white.2 i mem)
  have behind : (groups (trim items ++ trail)).map trim = (groups (trim items)).map trim := by
    rw [groups, groups, split, split', List.map_append, List.map_append, List.map_singleton, List.map_singleton, trim,
      trim, Text.trimBy_append_of_trailing _ white.2]
  have before : (groups (lead ++ (trim items ++ trail))).map trim = (groups (trim items ++ trail)).map trim := by
    rw [groups, Text.splitOnP_append_of_leading _ fun i mem => isComma_of_isWhite (white.1 i mem), groups]
    cases List.splitOnP isComma (trim items ++ trail) with
    | nil => rfl
    | cons g gs =>
      rw [List.modifyHead_cons, List.map_cons, List.map_cons, trim, trim, Text.trimBy_append_of_leading _ white.1]
  rw [← behind, ← before, ← List.append_assoc]
  exact congrArg (fun items => (groups items).map trim) e.symm

theorem selector_trim (items : List Item) : selector (trim items) = selector items := by
  rw [selector, trim_trim, selector]

theorem selectorList_trim (items : List Item) : selectorList (trim items) = selectorList items := by
  have of_trim : selector = selector ∘ trim := funext fun g => (selector_trim g).symm
  rw [selectorList, selectorList, of_trim, ← List.map_map, ← List.map_map, map_trim_groups_trim]

theorem allSelect_trim (items : List Item) : AllSelect (trim items) ↔ AllSelect items := by
  have all (items : List Item) :
      AllSelect items ↔ ∀ g ∈ (groups items).map trim, ∃ i ∈ g, i.value.kind.isComment = false := by
    simp [AllSelect]
  rw [all, all, map_trim_groups_trim]

theorem prelude_trim (name : String) (items : List Item) : prelude name (trim items) = prelude name items := by
  rw [prelude, trim_trim, prelude]

/-! ## Items and their values -/

theorem trim_map_value (items : List Item) : Parsed.trim (items.map value) = (trim items).map value :=
  Text.trimBy_map Parsed.isWhitespace value items

theorem splitAtCommas_map_value (items : List Item) :
    splitAtCommas (items.map value) = (groups items).map (List.map value) := by
  rw [splitAtCommas_eq, Text.splitOnP_map]
  rfl

/-- Items that stand in a source one after the other, without a gap. -/
structure Placed (source : String) (lo hi : Nat) (items : List Item) : Prop where
  start : IsBoundary source lo
  adjoin : ByteSpan.Adjoining lo hi (items.map fun i => i.value.span)
  texts : ∀ i ∈ items, i.In source

theorem Placed.slice (h : Placed source lo hi items) : ByteSpan.slice ⟨lo, hi⟩ source = some (text items) := by
  obtain ⟨start, adjoin, texts⟩ := h
  induction items generalizing lo with
  | nil =>
    obtain rfl : lo = hi := adjoin
    exact ByteSpan.slice_empty start
  | cons i items ih =>
    rw [List.forall_mem_cons] at texts
    obtain ⟨first, -, adjoin⟩ := adjoin
    have span : i.value.span = ⟨lo, i.value.span.stop⟩ := by rw [← first]
    have here := texts.1
    rw [In, span] at here
    have behind := ih (.of_slice here) adjoin texts.2
    rw [text, wordsOf_cons, textOf_append]
    exact ByteSpan.slice_beside here behind

theorem Placed.of_infix (h : Placed source lo hi items) (inside : zs <:+: items) :
    ∃ lo hi, Placed source lo hi zs := by
  obtain ⟨front, back, rfl⟩ := inside
  obtain ⟨start, adjoin, texts⟩ := h
  rw [List.map_append, List.map_append] at adjoin
  obtain ⟨last, adjoin, -⟩ := adjoin.of_append
  obtain ⟨mid, before, adjoin⟩ := adjoin.of_append
  simp only [List.mem_append, or_imp, forall_and] at texts
  have front : Placed source lo mid front := ⟨start, before, texts.1.1⟩
  exact ⟨mid, last, .of_slice front.slice, adjoin, texts.1.2⟩

/-- What stands in front of items ends where the last of these does. -/
theorem Placed.of_append (h : Placed source lo hi (items ++ zs)) :
    Placed source lo (ByteSpan.lastStop lo (items.map fun i => i.value.span)) items := by
  obtain ⟨start, adjoin, texts⟩ := h
  rw [List.map_append] at adjoin
  obtain ⟨mid, before, -⟩ := adjoin.of_append
  rw [List.forall_mem_append] at texts
  exact ⟨start, before.lastStop_eq.symm ▸ before, texts.1⟩

theorem Placed.cover (h : Placed source lo hi items) (e : Parsed.cover (items.map value) = some span) :
    span.slice source = some (text items) := by
  cases items with
  | nil => cases e
  | cons i items =>
    have adjoin := h.adjoin
    obtain rfl : i.value.span.start = lo := adjoin.1
    rw [List.map_cons, cover_cons, Option.some.injEq] at e
    rw [← e, ← List.map_cons, List.map_map]
    have stop := adjoin.lastStop_eq
    rw [show (Parsed.span ∘ value) = fun i : Item => i.value.span from rfl, stop]
    exact h.slice

/-- What the span over trimmed items covers. -/
theorem Placed.cover_trim (h : Placed source lo hi items) :
    ((Parsed.cover ((trim items).map value)).getD ⟨lo, lo⟩).slice source = some (text (trim items)) := by
  obtain ⟨_, _, placed⟩ := h.of_infix (Text.trimBy_isInfix isWhite items)
  cases e : Parsed.cover ((trim items).map value) with
  | none =>
    have none : trim items = [] := by cases t : trim items <;> simp_all [Parsed.cover]
    rw [none]
    exact ByteSpan.slice_empty h.start
  | some span => exact placed.cover e

end Item

open Item

variable {inp : Input} {zs : List Item} {lo hi start : Nat} {name property : String} {st : State} {g : List Item}

/-! ## Preludes -/

theorem cover_eq_none_iff {ps : List Parsed} : cover ps = none ↔ ps = [] := by
  cases ps <;> simp [cover]

theorem isEmpty_trim_of_cover {span : ByteSpan} (e : cover ((trim g).map value) = some span) : (trim g).isEmpty = false := by
  rw [List.isEmpty_eq_false_iff]
  intro none
  rw [none] at e
  cases e

/-- The media query of a group, if there is anything in it. -/
theorem query_unplaced (h : Placed inp.source lo hi (trim g)) :
    ((cover ((trim g).map value)).map fun span =>
        Parsed.node (.mediaQuery (Text.collapse (inp.slice span))) span ((trim g).map value)).map Parsed.unplaced
      = if (trim (g.map Item.unplaced)).isEmpty then none else some (query (g.map Item.unplaced)) := by
  rw [trim_map_unplaced]
  cases e : cover ((trim g).map value) with
  | none =>
    have none : trim g = [] := by simpa [cover_eq_none_iff] using e
    simp [none]
  | some span =>
    have text := h.cover e
    rw [if_neg (by simp [isEmpty_trim_of_cover e]), query, trim_map_unplaced, text_map_unplaced, value_map_unplaced,
      ← unplaced_node _ span, Option.map_some, Option.map_some, Input.slice, text]
    rfl

theorem mediaQueries_unplaced (h : Placed inp.source lo hi zs) :
    (mediaQueries inp (zs.map value)).map Parsed.unplaced = queries (zs.map Item.unplaced) := by
  rw [mediaQueries, splitAtCommas_map_value, queries, groups_map_unplaced, List.map_filterMap, List.filterMap_map,
    List.filterMap_map]
  refine List.filterMap_congr fun g mem => ?_
  obtain ⟨lo, hi, placed⟩ := h.of_infix ((Text.trimBy_isInfix isWhite g).trans (Text.isInfix_of_mem_splitOnP mem))
  simp only [Function.comp_apply, trim_map_value]
  exact query_unplaced placed

/-- What the prelude of an at-rule says, and its text. -/
theorem preludeOf_unplaced (name : String) (h : Placed inp.source lo hi zs) :
    (preludeOf inp name (zs.map value)).1.map Parsed.unplaced = prelude name (zs.map Item.unplaced)
      ∧ ∀ p ∈ (preludeOf inp name (zs.map value)).1, p.span.slice inp.source = some (text (trim zs)) := by
  obtain ⟨lo, hi, placed⟩ := h.of_infix (Text.trimBy_isInfix isWhite zs)
  unfold preludeOf prelude
  simp only [trim_map_value, trim_map_unplaced]
  cases e : cover ((trim zs).map value) with
  | none =>
    have none : trim zs = [] := by simpa [cover_eq_none_iff] using e
    simp [none]
  | some span =>
    have text : ∀ ps, (Parsed.node .prelude span ps).span.slice inp.source = some (text (trim zs)) :=
      fun _ => placed.cover e
    rw [if_neg (by simp [isEmpty_trim_of_cover e])]
    simp only
    split
    next =>
      have queries : (mediaQueries inp ((trim zs).map value)).map Parsed.unplaced
          = queries ((trim zs).map Item.unplaced) := mediaQueries_unplaced placed
      rw [List.map_singleton, unplaced_node, queries]
      exact ⟨rfl, by simpa using text _⟩
    next =>
      rw [List.map_singleton, unplaced_node, value_map_unplaced]
      exact ⟨rfl, by simpa using text _⟩

/-! ## Selectors -/

/-- Whether there is more in a group than whitespace and comments. -/
def selects (group : List Parsed) : Prop := ∃ p ∈ Parsed.trim group, p.kind.isComment = false

theorem selectorOf?_of_selects (inp : Input) {group : List Parsed} (select : selects group) :
    ∃ span, cover (Parsed.trim group) = some span ∧ selectorOf? inp group
      = some (.node (.selector (Text.normalizeSelector (inp.slice span))) span (Parsed.trim group)) := by
  obtain ⟨p, mem, solid⟩ := select
  have some : cover (Parsed.trim group) ≠ none := by
    rw [Ne, cover_eq_none_iff]
    exact List.ne_nil_of_mem mem
  obtain ⟨span, e⟩ := Option.ne_none_iff_exists'.1 some
  have any : (Parsed.trim group).any (fun p => !p.kind.isComment) = true := List.any_eq_true.2 ⟨p, mem, by simp [solid]⟩
  exact ⟨span, e, by rw [selectorOf?, e, Option.bind_some, if_pos any]⟩

/-- Where there are selectors in all groups, nothing is to report. -/
theorem selectors_of_selects {groups : List (List Parsed)} (select : ∀ g ∈ groups, selects g) (start : Nat) (st : State) :
    (selectors inp start groups st).2 = st := by
  induction groups generalizing start with
  | nil => rfl
  | cons group groups ih =>
    rw [List.forall_mem_cons] at select
    obtain ⟨p, mem, solid⟩ := select.1
    obtain ⟨span, e, -⟩ := selectorOf?_of_selects inp select.1
    have any : (Parsed.trim group).any (fun p => !p.kind.isComment) = true :=
      List.any_eq_true.2 ⟨p, mem, by simp [solid]⟩
    rw [selectors]
    simp only [e, any, if_true]
    exact ih select.2 _

/-- If nothing is reported, there are selectors in all groups. -/
theorem selects_of_silent {groups : List (List Parsed)} (silent : (selectors inp start groups st).2.errors = []) :
    ∀ g ∈ groups, selects g := by
  induction groups generalizing start st with
  | nil => simp
  | cons group groups ih =>
    rw [List.forall_mem_cons]
    rw [selectors] at silent
    split at silent
    next =>
      split at silent
      next any =>
        obtain ⟨p, mem, solid⟩ := List.any_eq_true.1 any
        exact ⟨⟨p, mem, by simpa using solid⟩, ih silent⟩
      next => cases (takes_selectors _ _ _ silent).silent
    next => cases (takes_selectors _ _ _ silent).silent

theorem selectorListOf_snd (inp : Input) {atoms : List Parsed} (select : ∀ g ∈ splitAtCommas atoms, selects g) (start : Nat)
    (st : State) : (selectorListOf inp start atoms st).2 = st.discard (separators atoms) :=
  congrArg (State.discard · (separators atoms)) (selectors_of_selects select start st)

theorem selects_map_value (g : List Item) : selects (g.map value) ↔ ∃ i ∈ trim g, i.value.kind.isComment = false := by
  simp [selects, trim_map_value]

theorem allSelect_iff (zs : List Item) : AllSelect zs ↔ ∀ g ∈ splitAtCommas (zs.map value), selects g := by
  simp [AllSelect, splitAtCommas_map_value, selects_map_value]

theorem allSelect_map_unplaced (zs : List Item) : AllSelect (zs.map Item.unplaced) ↔ AllSelect zs := by
  simp [AllSelect, groups_map_unplaced, trim_map_unplaced]

/-- The selector list `p` was read from items, and each selector in it has the text of its group. -/
structure ReadsSelectors (source : String) (zs : List Item) (p : Parsed) : Prop where
  outline : p.unplaced = selectorList (zs.map Item.unplaced)
  text : p.span.slice source = some (text (trim zs))
  texts : List.Forall₂ (fun g q => q.span.slice source = some (Item.text (trim g))) (groups zs) p.children

theorem selector_unplaced (h : Placed inp.source lo hi (trim g)) (select : ∃ i ∈ trim g, i.value.kind.isComment = false) :
    ∃ p, selectorOf? inp (g.map value) = some p ∧ p.unplaced = selector (g.map Item.unplaced)
      ∧ p.span.slice inp.source = some (text (trim g)) := by
  obtain ⟨span, e, picked⟩ := selectorOf?_of_selects inp ((selects_map_value g).2 select)
  rw [trim_map_value] at e picked
  have text := h.cover e
  refine ⟨_, picked, ?_, text⟩
  rw [unplaced_node, selector, trim_map_unplaced, text_map_unplaced, value_map_unplaced, Input.slice, text]
  rfl

theorem selectorListOf_unplaced (h : Placed inp.source lo hi zs) (select : AllSelect zs) (st : State) :
    ReadsSelectors inp.source zs (selectorListOf inp lo (zs.map value) st).1 := by
  have inside : ∀ g ∈ groups zs, g <:+: zs := fun g => Text.isInfix_of_mem_splitOnP
  have each : List.Forall₂ (fun g p => p.unplaced = selector (g.map Item.unplaced)
      ∧ p.span.slice inp.source = some (text (trim g))) (groups zs)
      ((splitAtCommas (zs.map value)).filterMap (selectorOf? inp)) := by
    unfold AllSelect at select
    rw [splitAtCommas_map_value]
    generalize groups zs = gs at select inside ⊢
    induction gs with
    | nil => exact .nil
    | cons g gs ih =>
      rw [List.forall_mem_cons] at select inside
      obtain ⟨lo, hi, placed⟩ := h.of_infix ((Text.trimBy_isInfix isWhite g).trans inside.1)
      obtain ⟨p, picked, outline, text⟩ := selector_unplaced placed select.1
      rw [List.map_cons, List.filterMap_cons, picked]
      exact .cons ⟨outline, text⟩ (ih select.2 inside.2)
  unfold selectorListOf
  simp only [selectors_fst]
  refine ⟨?_, ?_, each.imp fun _ _ => And.right⟩
  · have outlines : List.Forall₂ (fun g (p : Parsed) => selector (g.map Item.unplaced) = p.unplaced) (groups zs)
        ((splitAtCommas (zs.map value)).filterMap (selectorOf? inp)) := each.imp fun _ _ same => same.1.symm
    have same := List.forall₂_map_left_iff.2 (List.forall₂_map_right_iff.2 outlines)
    rw [List.forall₂_eq_eq_eq] at same
    rw [unplaced_node, selectorList, groups_map_unplaced, List.map_map, ← same]
    rfl
  · rw [trim_map_value]
    exact h.cover_trim

/-! ## Declarations -/

/-- The items of a declaration, up to the last that is no whitespace. -/
def Item.upToBlanks (items : List Item) : List Item := items.rdropWhile isWhite

theorem upToBlanks_append (zs : List Item) :
    ∃ blanks, zs = upToBlanks zs ++ blanks ∧ ∀ i ∈ blanks, i.isWhite = true := by
  refine ⟨(zs.reverse.takeWhile isWhite).reverse, ?_, fun i mem => ?_⟩
  · rw [upToBlanks, List.rdropWhile, ← List.reverse_append, List.takeWhile_append_dropWhile, List.reverse_reverse]
  · exact List.all_eq_true.1 List.all_takeWhile i (List.mem_reverse.1 mem)

theorem trim_upToBlanks (zs : List Item) : trim (upToBlanks zs) = trim zs := by
  obtain ⟨blanks, e, white⟩ := upToBlanks_append zs
  conv_rhs => rw [e, Item.trim, Text.trimBy_append_of_trailing _ white]
  rfl

theorem isWhite_getLast?_upToBlanks {i : Item} (mem : i ∈ (upToBlanks zs).getLast?) : i.isWhite = false := by
  have some : upToBlanks zs ≠ [] := by
    intro none
    simp [none] at mem
  have last := List.rdropWhile_last_not isWhite zs some
  rw [Option.mem_def, List.getLast?_eq_some_getLast some, Option.some.injEq] at mem
  rw [← mem]
  exact Bool.eq_false_iff.2 last

theorem getLast?_trim (zs : List Item) : (trim zs).getLast? = (upToBlanks zs).getLast? := by
  rw [← trim_upToBlanks]
  have last : ∀ i ∈ (upToBlanks zs).getLast?, i.isWhite = false := fun i => isWhite_getLast?_upToBlanks
  generalize upToBlanks zs = items at last
  rcases List.eq_nil_or_concat items with rfl | ⟨front, i, rfl⟩
  · rfl
  · have solid : i.isWhite = false := last i (by simp)
    rw [Item.trim, Text.trimBy, List.concat_eq_append, List.dropWhile_append]
    split
    next => simp [solid]
    next => simp [solid]

/-- There is something left for a value, or the property is a custom one. -/
def Item.Declares (property : String) (items : List Item) : Prop :=
  (declared items).2 ≠ [] ∨ property.startsWith "--" = true

theorem declared_map_unplaced (zs : List Item) :
    declared (zs.map Item.unplaced) = ((declared zs).1, (declared zs).2.map Item.unplaced) := by
  unfold declared
  rw [trim_map_unplaced, value_map_unplaced, importantAt?_unplaced]
  cases importantAt? ((trim zs).map value) with
  | none => rfl
  | some i => simp only [← List.map_take, trim_map_unplaced]

theorem declarationOf_items (inp : Input) (property : String) (start lo : Nat) (zs : List Item) (st : State) :
    ∃ span dropped, declarationOf inp property start lo (zs.map value) st =
      (let stop := ByteSpan.lastStop lo ((upToBlanks zs).map fun i => i.value.span)
      let st := (st.discard (trimmings (zs.map value))).discard dropped
      if (declared zs).2.isEmpty && !property.startsWith "--" then
        (rawNode inp start stop,
          (st.report (.missingValue property (inp.placeOf ⟨start, stop⟩))).discard ((declared zs).2.map value))
      else
        (.node (.declaration property (declared zs).1) ⟨start, stop⟩ [.node .value span ((declared zs).2.map value)],
          st)) := by
  have stop : (((trim zs).map value).getLast?.map fun p => p.span.stop).getD lo
      = ByteSpan.lastStop lo ((upToBlanks zs).map fun i => i.value.span) := by
    rw [ByteSpan.lastStop, List.getLast?_map, List.getLast?_map, getLast?_trim, Option.map_map, Option.map_map]
    rfl
  unfold declarationOf declared
  simp only [trim_map_value, stop]
  cases e : importantAt? ((trim zs).map value) with
  | none => exact ⟨_, [], by rw [List.isEmpty_map]⟩
  | some i => exact ⟨_, _, by simp only [← List.map_take, trim_map_value, List.isEmpty_map]; rfl⟩

theorem declares_of_silent (silent : (declarationOf inp property start lo (zs.map value) st).2.errors = []) :
    Declares property zs := by
  obtain ⟨span, dropped, eq⟩ := declarationOf_items inp property start lo zs st
  rw [eq] at silent
  simp only at silent
  split at silent
  next => cases silent
  next left =>
    by_cases custom : property.startsWith "--" = true
    · exact .inr custom
    · refine .inl fun none => left ?_
      simp [none, Bool.eq_false_iff.2 custom]

theorem declarationOf_unplaced (declares : Declares property zs) (inp : Input) (start lo : Nat) (st : State) :
    let read := declarationOf inp property start lo (zs.map value) st
    read.1.unplaced = Item.declaration property (zs.map Item.unplaced)
      ∧ read.1.span = ⟨start, ByteSpan.lastStop lo ((upToBlanks zs).map fun i => i.value.span)⟩
      ∧ read.2.errors = st.errors ∧ read.2.rest = st.rest := by
  obtain ⟨span, dropped, eq⟩ := declarationOf_items inp property start lo zs st
  have left : ¬((declared zs).2.isEmpty && !property.startsWith "--") = true := by
    rcases declares with some | custom
    · simp [List.isEmpty_eq_false_iff.2 some]
    · simp [custom]
  rw [eq]
  simp only
  rw [if_neg left]
  refine ⟨?_, rfl, rfl, rfl⟩
  rw [unplaced_node, List.map_singleton, unplaced_node, Item.declaration, declared_map_unplaced, value_map_unplaced]

theorem declared_upToBlanks (zs : List Item) : declared (upToBlanks zs) = declared zs := by
  rw [declared, trim_upToBlanks, declared]

theorem declaration_upToBlanks (property : String) (zs : List Item) :
    Item.declaration property ((upToBlanks zs).map Item.unplaced) = Item.declaration property (zs.map Item.unplaced) := by
  rw [Item.declaration, declared_map_unplaced, declared_upToBlanks, ← declared_map_unplaced, Item.declaration]

theorem declares_map_unplaced : Declares property (zs.map Item.unplaced) ↔ Declares property zs := by
  simp [Declares, declared_map_unplaced]

end AboveFold.Grammar
