import AboveFold.Proofs.Grammar.Derivation
import AboveFold.Proofs.Prune.Paring
import AboveFold.Proofs.Prune.Rewording

/-!
# Selector lists that lost selectors

What is left of a selector list is written with a comma between each two selectors (`Item.listed`), and is a list of
these again (`IsSelectors.pare`).
-/

namespace AboveFold.Token

/-- The word of an at-keyword is its name behind the sign. -/
theorem Stands.of_atKeyword {w : Written} {ws : List Written} {name : String} (h : Stands (w :: ws))
    (keyword : w.kind = .atKeyword name) : w.text = '@' :: name.toList := by
  obtain ⟨c, xs, text, -, begins⟩ := Stands.begins h
  rw [text]
  rw [keyword] at begins
  generalize e : (Kind.atKeyword name, xs.length + 1) = p at begins
  cases begins with
  | atKeyword sign =>
    obtain ⟨kind, size⟩ := Prod.mk.inj e
    have whole : nameLength 0 (xs ++ textOf ws) = xs.length := (Nat.succ.inj size).symm
    rw [whole, List.take_left] at kind
    obtain rfl := Kind.atKeyword.inj kind
    rw [sign, String.toList_ofList]
  | string quote =>
    rcases stringLexeme_kind c (xs ++ textOf ws) with ⟨_, k⟩ | ⟨_, k⟩ <;> rw [← e] at k <;> cases k
  | name =>
    rcases identLexeme_kind (c :: (xs ++ textOf ws)) with ⟨_, k⟩ | ⟨_, k⟩ | ⟨_, k⟩ | ⟨_, k⟩ <;> rw [← e] at k <;> cases k
  | comment =>
    rcases commentLexeme_kind (xs ++ textOf ws).tail with ⟨_, k⟩ | ⟨_, k⟩ <;> rw [← e] at k <;> cases k
  | @sign k sign =>
    obtain ⟨rfl, -⟩ := Prod.mk.inj e
    cases sign
  | hash | blanks | number | cdc | cdo | stray | delim => cases e

end AboveFold.Token

namespace AboveFold.Grammar
open Source Node Token Item
open Parsed hiding trim

namespace Item

/-- A comma as an item. -/
def comma : Item := ⟨[.comma], bare .comma []⟩

/-- Groups of items with commas between them. -/
def listed : List (List Item) → List Item
  | [] => []
  | [g] => g
  | g :: gs => g ++ comma :: listed gs

variable {gs : List (List Item)} {g items : List Item}

theorem listed_cons_cons (g h : List Item) (gs : List (List Item)) :
    listed (g :: h :: gs) = g ++ comma :: listed (h :: gs) := rfl

theorem mem_listed {i : Item} (mem : i ∈ listed gs) : i = comma ∨ ∃ g ∈ gs, i ∈ g := by
  induction gs with
  | nil => cases mem
  | cons g gs ih =>
    cases gs with
    | nil => exact .inr ⟨g, by simp, mem⟩
    | cons h gs =>
      rw [listed_cons_cons, List.mem_append, List.mem_cons] at mem
      rcases mem with mem | rfl | mem
      · exact .inr ⟨g, by simp, mem⟩
      · exact .inl rfl
      · exact (ih mem).imp_right fun ⟨g, hg, inside⟩ => ⟨g, List.mem_cons_of_mem _ hg, inside⟩

/-- Groups without commas are the groups of their list. -/
theorem groups_listed (some : gs ≠ []) (free : ∀ g ∈ gs, ∀ i ∈ g, i.isComma = false) : groups (listed gs) = gs := by
  induction gs with
  | nil => exact absurd rfl some
  | cons g gs ih =>
    rw [List.forall_mem_cons] at free
    cases gs with
    | nil => exact List.splitOnP_eq_singleton free.1
    | cons h gs =>
      rw [listed_cons_cons, groups, List.splitOnP_append_cons_of_forall_mem free.1 _ rfl]
      exact congrArg (g :: ·) (ih (by simp) free.2)

theorem isComma_of_mem_groups {i : Item} (mem : g ∈ groups items) (inside : i ∈ g) : i.isComma = false :=
  Text.forall_of_mem_splitOnP mem i inside

theorem mem_of_mem_trim {i : Item} (mem : i ∈ trim items) : i ∈ items :=
  (Text.trimBy_isInfix isWhite items).subset mem

/-- The ends of a list of groups that are trimmed are the ends of groups. -/
theorem trim_listed (first : ∀ g ∈ gs, g ≠ [] ∧ trim g = g) : trim (listed gs) = listed gs := by
  refine Text.trimBy_of_ends (fun i mem => ?_) fun i mem => ?_
  · cases gs with
    | nil => cases mem
    | cons g gs =>
      obtain ⟨some, trimmed⟩ := first g (by simp)
      obtain ⟨j, js, rfl⟩ := List.exists_cons_of_ne_nil some
      have same : (listed ((j :: js) :: gs)).head? = (j :: js).head? := by cases gs <;> rfl
      rw [same, ← trimmed] at mem
      exact Text.head?_trimBy mem
  · induction gs with
    | nil => cases mem
    | cons g gs ih =>
      rw [List.forall_mem_cons] at first
      cases gs with
      | nil =>
        rw [← first.1.2] at mem
        exact Text.getLast?_trimBy mem
      | cons h gs =>
        refine ih first.2 ?_
        have some : listed (h :: gs) ≠ [] := by
          obtain ⟨j, js, rfl⟩ := List.exists_cons_of_ne_nil (first.2 h (by simp)).1
          cases gs <;> simp [listed]
        rwa [listed_cons_cons, List.getLast?_append, List.getLast?_cons_of_ne_nil some,
          List.getLast?_eq_some_getLast some, Option.some_or, ← List.getLast?_eq_some_getLast some] at mem

/-- The text of a list of groups. -/
theorem text_listed (gs : List (List Item)) : text (listed gs) = ",".intercalate (gs.map text) := by
  induction gs with
  | nil => rfl
  | cons g gs ih =>
    cases gs with
    | nil => rw [List.map_singleton, String.intercalate_singleton, listed]
    | cons h gs =>
      rw [List.map_cons, List.map_cons, String.intercalate_cons_cons, ← List.map_cons, ← ih, listed_cons_cons, text,
        wordsOf_append, wordsOf_cons, textOf_append, textOf_append, String.ofList_append, String.ofList_append,
        ← String.append_assoc]
      rfl

end Item

variable {stop : Token.Kind → Bool} {room : Nat} {items zs : List Item} {ws vs : List Written} {source : String}
  {place : Place} {gs : List (List Item)}

/-! ## Words of items -/

theorem Phrase.closed (h : Phrase stop room items) (last : ∀ i ∈ items.getLast?, i.isWhite = false) :
    Closed (wordsOf items) := by
  rcases List.eq_nil_or_concat items with rfl | ⟨front, i, rfl⟩
  · simp [Closed]
  · rw [List.concat_eq_append] at h last ⊢
    have closed := (h.values i (by simp)).closed (last i (by simp))
    obtain ⟨w, us, e, -⟩ := (h.values i (by simp)).head
    intro v mem
    refine closed v ?_
    rwa [wordsOf_append, wordsOf_cons, wordsOf_nil, List.append_nil, List.getLast?_append_of_ne_nil _ (by simp [e])] at mem

/-- Items that end in no whitespace stand wherever they are part of others that do. -/
theorem Phrase.stands_infix (h : Phrase stop room items) (stands : Stands (wordsOf items ++ vs)) (inside : zs <:+: items)
    (last : ∀ i ∈ zs.getLast?, i.isWhite = false) : Stands (wordsOf zs) := by
  have part := h.of_subset inside.subset
  obtain ⟨front, back, rfl⟩ := inside
  rw [wordsOf_append, wordsOf_append, List.append_assoc, List.append_assoc] at stands
  exact stands.right.left part.sound (part.closed last)

/-- Groups that stand do so with commas between them. -/
theorem stands_listed (h : ∀ g ∈ gs, Stands (wordsOf g) ∧ ∀ w ∈ wordsOf g, ∀ f, w.kind ≠ .fault f) :
    Stands (wordsOf (listed gs)) := by
  induction gs with
  | nil => trivial
  | cons g gs ih =>
    rw [List.forall_mem_cons] at h
    cases gs with
    | nil => exact h.1.1
    | cons g' gs =>
      rw [listed_cons_cons, wordsOf_append, wordsOf_cons]
      exact h.1.1.append_sign h.1.2 (stands_comma.sign_cons rfl (ih h.2)) rfl rfl rfl

/-! ## What starts a rule -/

/-- Whether a rule may start with a word, whatever list it stands in. -/
def startsSelector : Token.Kind → Bool
  | .whitespace | .comment _ | .atKeyword _ | .cdo | .cdc => false
  | .ident name => !name.startsWith "--"
  | _ => true

/-- Words that start a rule in any list: no block or statement ends among them. -/
structure Selects (ws : List Written) : Prop where
  level : ∀ w ∈ ws, endsLookahead w.kind = false
  first : ∀ w ∈ ws.head?, startsSelector w.kind = true

instance (ws : List Written) : Decidable (Selects ws) :=
  decidable_of_iff ((∀ w ∈ ws, endsLookahead w.kind = false) ∧ ∀ w ∈ ws.head?, startsSelector w.kind = true)
    ⟨fun ⟨level, first⟩ => ⟨level, first⟩, fun ⟨level, first⟩ => ⟨level, first⟩⟩

/-- A block follows words that the lookahead goes past. -/
theorem blockFollows_of_level (level : ∀ w ∈ ws, endsLookahead w.kind = false) :
    blockFollows ((ws ++ [Written.brace]).map Written.token) = true := by
  induction ws with
  | nil => rfl
  | cons w ws ih =>
    rw [List.forall_mem_cons] at level
    rw [List.cons_append, List.map_cons, blockFollows_cons, kind_token, level.1]
    exact ih level.2

theorem Selects.entryAt (h : Selects ws) (some : ws ≠ []) (place : Place) :
    entryAt place (ws ++ [.brace]) = .styleRule := by
  obtain ⟨w, ws, rfl⟩ := List.exists_cons_of_ne_nil some
  obtain ⟨level, first⟩ := h
  rw [List.forall_mem_cons] at level
  have follows := blockFollows_of_level level.2
  have first := first w rfl
  have level := level.1
  rw [List.cons_append, Grammar.entryAt, List.map_cons]
  cases k : w.kind <;> cases place <;>
    simp_all [entryOf, kind_token, startsSelector, endsLookahead, startsNestedRule]

/-- Blanks before a brace do not matter for what starts in front of them. -/
theorem blockFollows_blanks (xs ys : List Token) {blanks : List Token} (blank : ∀ t ∈ blanks, t.kind = .whitespace) :
    blockFollows (xs ++ (blanks ++ ys)) = blockFollows (xs ++ ys) := by
  induction xs with
  | nil =>
    rw [List.nil_append, List.nil_append]
    induction blanks with
    | nil => rfl
    | cons t blanks ih =>
      rw [List.forall_mem_cons] at blank
      rw [List.cons_append, blockFollows_cons, blank.1, if_neg (by simp [endsLookahead]), ih blank.2]
  | cons x xs ih => rw [List.cons_append, List.cons_append, blockFollows_cons, blockFollows_cons, ih]

theorem entryAt_blanks (place : Place) (w : Written) (ws : List Written) (blank : ∀ v ∈ vs, v.kind = .whitespace) :
    entryAt place (w :: (ws ++ (vs ++ [.brace]))) = entryAt place (w :: (ws ++ [.brace])) := by
  have blank : ∀ t ∈ vs.map Written.token, t.kind = .whitespace := List.forall_mem_map.2 blank
  have follows := blockFollows_blanks (ws.map Written.token) [Written.token .brace] blank
  have nested (name : String) : startsNestedRule name ((ws ++ (vs ++ [Written.brace])).map Written.token)
      = startsNestedRule name ((ws ++ [Written.brace]).map Written.token) := by
    rw [startsNestedRule, startsNestedRule, List.map_append, List.map_append, List.map_append, List.map_singleton, follows]
  rw [Grammar.entryAt, Grammar.entryAt, List.map_cons, List.map_cons]
  unfold entryOf
  simp only [nested]

/-- A rule that starts with some items starts with them without the whitespace at their ends. -/
theorem entryAt_trim (values : ∀ i ∈ items, Value room i.words i.value)
    (starts : entryAt place (wordsOf items ++ [.brace]) = .styleRule) :
    entryAt place (wordsOf (trim items) ++ [.brace]) = .styleRule := by
  obtain ⟨lead, trail, e, white⟩ := Text.exists_trimBy isWhite items
  change items = lead ++ trim items ++ trail at e
  have blank {zs : List Item} (sub : zs ⊆ lead ++ trail) (mem : zs ⊆ items) : ∀ w ∈ wordsOf zs, w.kind = .whitespace := by
    intro w inside
    obtain ⟨i, hi, inside⟩ := List.mem_flatMap.1 inside
    obtain ⟨v, words, kind⟩ := (values i (mem hi)).white (white i (sub hi))
    rw [words, List.mem_singleton] at inside
    rwa [inside]
  -- a rule does not start with a blank
  have solid {w : Written} {ws us : List Written} (first : ws = w :: us) (blank : ∀ v ∈ ws, v.kind = .whitespace)
      (front : ∃ zs, wordsOf items ++ [.brace] = ws ++ zs) : False := by
    obtain ⟨zs, front⟩ := front
    rw [front, first, List.cons_append, Grammar.entryAt, List.map_cons] at starts
    simp [entryOf, kind_token, blank w (by simp [first])] at starts
  generalize trim items = mid at e ⊢
  have before : wordsOf lead = [] := by
    cases words : wordsOf lead with
    | nil => rfl
    | cons w ws =>
      exact (solid words (blank (by simp) (by simp [e])) ⟨wordsOf mid ++ wordsOf trail ++ [.brace], by simp [e]⟩).elim
  have behind : ∀ w ∈ wordsOf trail, w.kind = .whitespace := blank (by simp) (by simp [e])
  rw [e, wordsOf_append, wordsOf_append, before, List.nil_append, List.append_assoc] at starts solid
  cases words : wordsOf mid with
  | nil =>
    rw [words] at starts solid
    cases last : wordsOf trail with
    | nil => rwa [last] at starts
    | cons w ws => exact (solid last behind ⟨[.brace], rfl⟩).elim
  | cons w ws =>
    rw [words, List.cons_append, entryAt_blanks _ _ _ behind] at starts
    exact starts

/-- Groups that start rules do so with commas between them. -/
theorem Selects.listed (some : ∀ g ∈ gs, wordsOf g ≠ []) (each : ∀ g ∈ gs, Selects (wordsOf g)) :
    Selects (wordsOf (listed gs)) := by
  induction gs with
  | nil => exact ⟨by simp [Item.listed], by simp [Item.listed]⟩
  | cons g gs ih =>
    rw [List.forall_mem_cons] at some each
    cases gs with
    | nil => exact each.1
    | cons g' gs =>
      rw [listed_cons_cons, wordsOf_append, wordsOf_cons]
      refine ⟨?_, ?_⟩
      · rw [List.forall_mem_append, List.forall_mem_append]
        exact ⟨each.1.level, by simp [comma, endsLookahead, Written.comma], (ih some.2 each.2).level⟩
      · rw [List.head?_append_of_ne_nil _ some.1]
        exact each.1.first

/-! ## Lists of selectors -/

variable {n m : Node} {l : Branch} {cs cs' : List Branch}

theorem value_comma (room : Nat) : Value room comma.words comma.value :=
  .single room ⟨rfl, rfl, by simp [Written.comma]⟩ (by simp [Written.comma])

/-- A list of selectors without the whitespace at its ends. -/
theorem IsRule.trimmed (h : IsRule source place room items n l) (stands : Stands (wordsOf items ++ vs))
    (kind : m.kind = .rule) : IsRule source place room (trim items) m l ∧ Stands (wordsOf (trim items)) := by
  obtain ⟨outline, select, shown, each⟩ := h.selectors
  refine ⟨⟨kind, entryAt_trim h.phrase.values h.starts, h.phrase.of_subset fun i => mem_of_mem_trim, ?_⟩, ?_⟩
  · refine ⟨by rw [outline, selectorList_trim], (allSelect_trim items).2 select, by rwa [trim_trim], ?_⟩
    have each : List.Forall₂ (fun g (b : Branch) => b.Writes source (wordsOf g)) ((groups items).map trim) l.children :=
      List.forall₂_map_left_iff.2 each
    rw [← map_trim_groups_trim] at each
    exact List.forall₂_map_left_iff.1 each
  · exact h.phrase.stands_infix stands (Text.trimBy_isInfix isWhite items) fun i => Text.getLast?_trimBy

/-- The items are the selector `b`, which may be the first of a rule in any list. -/
structure IsSelector (source : String) (place : Place) (room : Nat) (g : List Item) (b : Branch) : Prop where
  phrase : Phrase (endsSelectors place) room g
  free : ∀ i ∈ g, i.isComma = false
  select : ∃ i ∈ g, i.value.kind.isComment = false
  trimmed : trim g = g
  stands : Stands (wordsOf g)
  selects : Selects (wordsOf g)
  outline : b.unplaced = selector g
  shown : b.Writes source (wordsOf g)

/-- A group of the items of a rule is a selector. -/
theorem IsRule.isSelector {c : Branch} (h : IsRule source place room items n l) (stands : Stands (wordsOf items ++ vs))
    (group : g ∈ groups items) (outline : c.unplaced = selector g) (shown : c.Writes source (wordsOf (trim g)))
    (selects : Selects (written (c.render (some source)).toList)) : IsSelector source place room (trim g) c := by
  have inside : trim g <:+: items := (Text.trimBy_isInfix isWhite g).trans (Text.isInfix_of_mem_splitOnP group)
  have stands : Stands (wordsOf (trim g)) := h.phrase.stands_infix stands inside fun i => Text.getLast?_trimBy
  rw [shown, String.toList_ofList, stands.written_eq] at selects
  exact ⟨h.phrase.of_subset inside.subset, fun i mem => isComma_of_mem_groups group (mem_of_mem_trim mem),
    h.selectors.select g group, trim_trim g, stands, selects, by rw [outline, selector_trim], shown⟩

theorem IsSelectors.isSelector_of_mem {c : Branch} (h : IsSelectors source items l) (mem : c ∈ l.children) :
    c.kind.isSelector = true := by
  have outline := h.outline
  obtain ⟨k, cs⟩ := l
  rw [Branch.unplaced_mk, selectorList, bare, bare, Parsed.node.injEq] at outline
  have inside : c.unplaced ∈ (groups items).map selector := outline.2.2 ▸ List.mem_map_of_mem mem
  obtain ⟨g, -, e⟩ := List.mem_map.1 inside
  rw [← Branch.kind_unplaced, ← e]
  rfl

/-- Each selector of a rule is written in its group. -/
theorem IsRule.selectors_each (h : IsRule source place room items n l) (stands : Stands (wordsOf items ++ vs))
    (selects : ∀ c ∈ l.children, Selects (written (c.render (some source)).toList)) :
    List.Forall₂ (IsSelector source place room) ((groups items).map trim) l.children := by
  obtain ⟨outline, -, -, each⟩ := h.selectors
  have outlines : List.Forall₂ (fun (c : Branch) g => c.unplaced = selector g) l.children (groups items) := by
    obtain ⟨k, cs⟩ := l
    rw [Branch.unplaced_mk, selectorList, bare, bare, Parsed.node.injEq, ← List.forall₂_eq_eq_eq] at outline
    exact List.forall₂_map_right_iff.1 (List.forall₂_map_left_iff.1 outline.2.2)
  refine List.forall₂_map_left_iff.2 (List.forall₂_iff_zip.2 ⟨each.length_eq, fun {g c} mem => ?_⟩)
  obtain ⟨group, child⟩ := List.of_mem_zip mem
  exact h.isSelector stands group (List.forall₂_zip outlines.flip mem) (List.forall₂_zip each mem) (selects c child)

theorem IsSelector.words_ne_nil {c : Branch} (h : IsSelector source place room g c) : wordsOf g ≠ [] := by
  obtain ⟨i, mem, -⟩ := h.select
  exact h.phrase.words_ne_nil (List.ne_nil_of_mem mem)

/-- Selectors are the list of them. -/
theorem IsSelector.isRule {k : Node} (each : List.Forall₂ (IsSelector source place room) gs cs) (some : cs ≠ [])
    (list : k.kind = .selectorList) (changed : k.modified = true) (kind : m.kind = .rule) :
    IsRule source place room (listed gs) m (.mk k cs) ∧ Stands (wordsOf (listed gs)) ∧ trim (listed gs) = listed gs := by
  have all : ∀ g ∈ gs, ∃ c, IsSelector source place room g c :=
    ((List.forall₂_and_left gs cs).1 (each.imp fun g c h => ⟨⟨c, h⟩, h⟩)).1
  have filled : gs ≠ [] := by
    rintro rfl
    exact some (List.forall₂_nil_left_iff.1 each)
  have parts : groups (listed gs) = gs := groups_listed filled fun g mem => (all g mem).elim fun _ h => h.free
  have trimmed : trim (listed gs) = listed gs :=
    trim_listed fun g mem => (all g mem).elim fun _ h => ⟨fun none => h.words_ne_nil (by rw [none]; rfl), h.trimmed⟩
  have phrase : Phrase (endsSelectors place) room (listed gs) := by
    constructor
    · intro i mem
      rcases mem_listed mem with rfl | ⟨g, hg, mem⟩
      · exact value_comma room
      · exact (all g hg).elim fun _ h => h.phrase.values i mem
    · intro i mem
      rcases mem_listed mem with rfl | ⟨g, hg, mem⟩
      · simp [comma, Written.comma, endsSelectors]
      · exact (all g hg).elim fun _ h => h.phrase.goes i mem
  have selects : Selects (wordsOf (listed gs)) :=
    .listed (fun g mem => (all g mem).elim fun _ h => h.words_ne_nil) fun g mem => (all g mem).elim fun _ h => h.selects
  have stands : Stands (wordsOf (listed gs)) :=
    stands_listed fun g mem => (all g mem).elim fun _ h => ⟨h.stands, h.phrase.sound⟩
  have words : wordsOf (listed gs) ≠ [] := by
    obtain ⟨g, gs, rfl⟩ := List.exists_cons_of_ne_nil filled
    obtain ⟨c, h⟩ := all g (by simp)
    cases gs <;> simp [Item.listed, h.words_ne_nil]
  refine ⟨⟨kind, selects.entryAt words place, phrase, ?_⟩, stands, trimmed⟩
  refine ⟨?_, ?_, ?_, ?_⟩
  · have outlines : cs.map Branch.unplaced = gs.map selector := by
      rw [← List.forall₂_eq_eq_eq]
      exact List.forall₂_map_right_iff.2 (List.forall₂_map_left_iff.2 (each.flip.imp fun _ _ h => h.outline))
    rw [Branch.unplaced_mk, list, selectorList, parts, outlines]
  · rw [AllSelect, parts]
    intro g mem
    obtain ⟨c, h⟩ := all g mem
    rw [h.trimmed]
    exact h.select
  · have texts : cs.map (fun c => c.render (Option.some source)) = gs.map text := by
      rw [← List.forall₂_eq_eq_eq]
      exact List.forall₂_map_right_iff.2 (List.forall₂_map_left_iff.2 (each.flip.imp fun _ _ h => h.shown))
    rw [trimmed, Branch.Writes, Branch.render, Node.unchangedText?, changed, if_pos rfl, list]
    change Piece.listed (Branch.renderAll (Option.some source) cs) = text (listed gs)
    rw [Piece.listed, Branch.renderAll_eq, List.map_map, text_listed, ← texts]
    rfl
  · rw [parts]
    exact each.imp fun g c h => by
      rw [h.trimmed]
      exact h.shown

/-- Selectors that are left of a list, but not none, are a list again. -/
theorem IsRule.pare {k : Node} {t : Bool} (h : IsRule source place room items n (.mk k cs))
    (stands : Stands (wordsOf items ++ vs)) (kind : m.kind = .rule) (below : Branch.Pares cs t cs') (some : cs' ≠ [])
    (selects : ∀ c ∈ cs, Selects (written (c.render (Option.some source)).toList)) :
    ∃ zs, IsRule source place room zs m (.mk { k with modified := true } cs') ∧ Stands (wordsOf zs) ∧ trim zs = zs := by
  have each := h.selectors_each stands selects
  have closed : ∀ c ∈ cs, c.kind.isClosed = true :=
    fun c mem => Node.Kind.isClosed_iff.2 (.inr (.inr (h.selectors.isSelector_of_mem mem)))
  obtain ⟨gs, -, each⟩ := below.forall₂ closed each
  have list : k.kind = .selectorList := by
    exact congrArg Parsed.kind h.selectors.outline
  exact ⟨listed gs, IsSelector.isRule each some list rfl kind⟩

end AboveFold.Grammar
