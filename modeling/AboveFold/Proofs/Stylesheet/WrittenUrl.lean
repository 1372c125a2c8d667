import AboveFold.Proofs.Grammar.UrlValue
import AboveFold.Proofs.Token.Begins
import AboveFold.Stylesheet.Basic

/-!
# Urls that survive a rewrite

A url that was put into a stylesheet is found again when the stylesheet is rendered and read: in a rule that
declares it and nothing else, it is all of the value, if it fits its quotes (`Stylesheet.IsUrlRule.parse_render`).
-/

namespace AboveFold
open Text Token Grammar Branch

namespace Token

/-- A name without escapes. A byte order mark can be part of a name, but not start a stylesheet. -/
structure IsName (name : String) : Prop where
  start : name.toList.head?.any (fun c => isNameStart c && c ≠ byteOrderMark) = true
  chars : ∀ c ∈ name.toList, isNameChar c = true

variable {c : Char} {xs r : List Char} {name : String}

theorem nameLength_of_chars (chars : ∀ c ∈ xs, isNameChar c = true) (stop : goesOn r = false) :
    nameLength 0 (xs ++ r) = xs.length := by
  induction xs with
  | nil => exact nameLength_of_stop stop
  | cons c xs ih =>
    rw [List.forall_mem_cons] at chars
    rw [List.cons_append, nameLength, if_pos chars.1, ih chars.2]
    rfl

theorem not_isMark_of_isNameStart (h : isNameStart c = true) : isBlank c = false ∧ isMark c = false := by
  constructor
  · refine Bool.eq_false_iff.2 fun blank => ?_
    simp only [isBlank, Bool.or_eq_true, decide_eq_true_eq] at blank
    rcases blank with (((rfl | rfl) | rfl) | rfl) | rfl <;> cases h
  · refine Bool.eq_false_iff.2 fun mark => ?_
    simp only [isMark, List.contains_iff_mem, List.mem_cons, List.not_mem_nil, or_false] at mark
    rcases mark with rfl | rfl | rfl | rfl | rfl | rfl | rfl | rfl | rfl | rfl | rfl | rfl | rfl | rfl | rfl | rfl | rfl
      | rfl | rfl <;> cases h

/-- A name before a text that does not go on with it is an identifier. -/
theorem written_name (named : IsName name) (stop : goesOn r = false) (other : r.head? ≠ some '(') :
    written (name.toList ++ r) = ⟨.ident name, name.toList⟩ :: written r := by
  obtain ⟨start, chars⟩ := named
  have whole := identLexeme_of_other (nameLength_of_chars chars stop) other
  cases e : name.toList with
  | nil => simp [e] at start
  | cons c xs =>
    rw [e] at start whole
    have first : isNameStart c = true := by simp_all
    have marks := not_isMark_of_isNameStart first
    have digit : c.isDigit = false := Bool.eq_false_iff.2 fun digit => by simp [isNameStart_of_isDigit digit] at first
    rw [List.cons_append, written_of_lexeme (k := .ident name)]
    have same : String.ofList (c :: xs) = name := by rw [← e, String.ofList_toList]
    rw [lexeme_of_not_isMark marks.1 marks.2, digit, first]
    rw [same] at whole
    exact whole

theorem written_sign {k : Kind} (sign : k.sign? = some c) (r : List Char) :
    written (c :: r) = ⟨k, [c]⟩ :: written r := by
  have reads : lexeme c ([] ++ r) = (k, 1) := by
    cases k <;> cases sign <;> rfl
  exact written_of_lexeme reads

end Token

namespace Stylesheet

variable {name property url : String} {quote : Option Char}

theorem kind_tokens {source : String} (unmarked : source.toList.head? ≠ some byteOrderMark) (path : Option String) :
    (tokens source path).map Token.kind = (written source.toList).map Written.kind ++ [.eof] := by
  unfold tokens
  split
  next cs e => exact absurd (by rw [e]; rfl) unmarked
  next => exact kind_tokensFrom path .start _

/-- The text of a rule that declares a url and nothing else. -/
def urlRule (name property url : String) (quote : Option Char) : String :=
  name ++ "\x7b" ++ property ++ ":" ++ layout (.url url quote) [] ++ "\x7d"

/-- The nodes of a rule that declares a url and nothing else, all of them changed but for those of its selectors. -/
structure IsUrlRule (property url : String) (quote : Option Char) (r b d v u : Node) : Prop where
  kinds : [r.kind, b.kind, d.kind, v.kind, u.kind]
    = [.rule, .block .declarations, .declaration property false, .value, .url url quote]
  changed : ∀ n ∈ [r, b, d, v, u], n.modified = true

theorem render_of_modified {n : Node} (changed : n.modified = true) (source : Option String) (cs : List Branch) :
    (Branch.mk n cs).render source = layout n.kind (renderAll source cs) := by
  simp [Branch.render, Node.unchangedText?, changed]

/-- Such a rule is written as its text. -/
theorem IsUrlRule.render_eq {r b d v u : Node} (h : IsUrlRule property url quote r b d v u) (source : Option String)
    (l : Branch) : (Branch.mk r [l, .mk b [.mk d [.mk v [.mk u []]]]]).render source
      = urlRule (l.render source) property url quote := by
  obtain ⟨kinds, changed⟩ := h
  simp only [List.cons.injEq, and_true] at kinds
  obtain ⟨rule, block, declaration, value, address⟩ := kinds
  simp only [List.forall_mem_cons] at changed
  obtain ⟨inRule, inBlock, inDeclaration, inValue, here, -⟩ := changed
  have inner : (Branch.mk u []).render source = layout (.url url quote) [] := by
    rw [render_of_modified here, address]
    rfl
  have middle : (Branch.mk v [.mk u []]).render source = layout (.url url quote) [] := by
    rw [render_of_modified inValue, value, renderAll, renderAll, inner, Branch.kind, Branch.node, address]
    simp [layout, trimBy, Node.Kind.isWhitespace, Piece.joined]
  have outer : (Branch.mk b [.mk d [.mk v [.mk u []]]]).render source
      = "\x7b" ++ property ++ ":" ++ layout (.url url quote) [] ++ "\x7d" := by
    rw [render_of_modified inBlock, block, renderAll, renderAll, render_of_modified inDeclaration, declaration,
      renderAll, renderAll, middle, Branch.kind, Branch.node, Branch.kind, Branch.node, declaration, value]
    simp [layout, Piece.entries, Node.Kind.isComment, String.append_assoc]
  rw [render_of_modified inRule, rule, renderAll, renderAll, renderAll, outer]
  simp [layout, Piece.joined, urlRule, String.append_assoc]

theorem kind_urlRule (named : IsName name) (declared : IsName property)
    (isQuote : ∀ q ∈ quote, q = '\x22' ∨ q = '\x27') (fits : fitsUrl url quote = true) (path : Option String) :
    (tokens (urlRule name property url quote) path).map Token.kind = .ident name :: .curlyOpen :: .ident property
      :: .colon :: (urlKinds url quote ++ [.curlyClose, .eof]) := by
  have shape : (urlRule name property url quote).toList = name.toList ++ '\x7b' :: (property.toList ++ ':' ::
      (("url(" ++ urlText url quote ++ ")").toList ++ ['\x7d'])) := by
    simp [urlRule, layout]
  have unmarked : (urlRule name property url quote).toList.head? ≠ some byteOrderMark := by
    have start := named.start
    rw [shape]
    cases e : name.toList with
    | nil => simp [e] at start
    | cons c cs => simp_all
  rw [kind_tokens unmarked, shape, written_name named rfl (by simp), written_sign (k := .curlyOpen) rfl,
    written_name declared rfl (by simp), written_sign (k := .colon) rfl, (written_url isQuote _).2 fits,
    written_sign (k := .curlyClose) rfl]
  simp [urlKinds, written]

/-- A stylesheet of one rule with one declaration, whose value is one node of the given kind. -/
def DeclaresOnly (property : String) (kind : Node.Kind) (sheet : Branch) : Prop :=
  ∃ n r l b d v, sheet = .mk n [.mk r [l, .mk b [.mk d [v]]]] ∧ d.kind = .declaration property false
    ∧ v.kind = .value ∧ v.children.map Branch.kind = [kind]

/-- The text of a rule for a url that fits is read without diagnostics and declares exactly that url. -/
theorem parse_urlRule (named : IsName name) (declared : IsName property)
    (isQuote : ∀ q ∈ quote, q = '\x22' ∨ q = '\x27') (fits : fitsUrl url quote = true) (path : Option String) :
    let s := parse (urlRule name property url quote) path
    s.errors = [] ∧ DeclaresOnly property (urlKind url quote) s.tree.sheet := by
  obtain ⟨clean, outer, rule, list, block, p, sheet, selectors, declares⟩ :=
    Input.read_url ⟨urlRule name property url quote, path⟩ (kind_urlRule named declared isQuote fits path)
  obtain ⟨whole, value, inner, rfl⟩ := declares
  have tree : (parse (urlRule name property url quote) path).tree.sheet
      = (Parsed.number 0 (Input.read ⟨_, path⟩ (tokens (urlRule name property url quote) path)).sheet).1 := rfl
  rw [sheet] at tree
  exact ⟨clean, _, _, _, _, _, _, tree, rfl, rfl, rfl⟩

/-- **A url that fits survives a rewrite**: what is written for a rule that declares it and nothing else is read without
diagnostics and declares exactly that url. -/
theorem IsUrlRule.parse_render {r b d v u : Node} (h : IsUrlRule property url quote r b d v u) {source : Option String}
    {l : Branch} (named : IsName (l.render source)) (declared : IsName property)
    (isQuote : ∀ q ∈ quote, q = '\x22' ∨ q = '\x27') (fits : fitsUrl url quote = true) (path : Option String) :
    let s := parse ((Branch.mk r [l, .mk b [.mk d [.mk v [.mk u []]]]]).render source) path
    s.errors = [] ∧ DeclaresOnly property (urlKind url quote) s.tree.sheet := by
  rw [h.render_eq]
  exact parse_urlRule named declared isQuote fits path

end Stylesheet

end AboveFold
