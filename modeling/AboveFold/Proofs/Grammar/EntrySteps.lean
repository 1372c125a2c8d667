import AboveFold.Grammar.Rule

/-!
# One step of a list

A list of entries ends, passes over a token, or reads one entry and goes on behind it (`entries_step`). What an entry can
be is said once (`EntryRead`); what holds of every entry is shown by cases on it, and what holds of lists by cases on
their step (`EntriesStep`).
-/

namespace AboveFold.Grammar
open Source Node Parsed

/-- The token that a comment, an at-rule or a declaration starts with. -/
theorem kind_of_entryOf (place : Place) (t : Token) (ts : List Token) :
    match entryOf place (t :: ts) with
    | .comment text => t.kind = .comment text
    | .atRule name => t.kind = .atKeyword name
    | .declaration property => t.kind = .ident property
    | _ => True := by
  cases k : t.kind <;> cases place <;> simp only [entryOf, k]
  -- among declarations an identifier may start a rule
  cases startsNestedRule _ ts <;> simp

/-- What follows the head of an at-rule: its block if there is one, where the at-rule ends, and the state
there. -/
def atRuleBody (inp : Input) (name : String) (fuel : Nat) (head : AtRuleHead) (st : State) :
    List Parsed × Nat × State :=
  if head.hasBlock then
    let (p, st) := block inp (atRuleContents name) .atRuleBlock fuel st
    ([p], p.span.stop, st)
  else ([], head.stop, st)

/-- An entry of a list at `place` is read from its first token `t` on: its node, and the state behind it. -/
inductive EntryRead (inp : Input) (place : Place) (fuel : Nat) (st : State) (t : Token) (ts : List Token) :
    Parsed → State → Prop where
  | comment (text : String) (starts : entryOf place (t :: ts) = .comment text) (kind : t.kind = .comment text) :
      EntryRead inp place fuel st t ts (.leaf (.comment text) t.span.bytes) st.advance
  /-- Raw text, which goes on up to the end of a declaration where declarations are read. -/
  | fault (fault : Token.Fault) {read : Parsed × State}
      (eq : read = match place with
        | .declarations => rawDeclaration inp t.start t.stop (st.advance.report (.lexical fault t.span))
        | _ => (rawNode inp t.start t.stop, st.advance.report (.lexical fault t.span)))
      (starts : entryOf place (t :: ts) = .fault fault) :
      EntryRead inp place fuel st t ts read.1 read.2
  | declaration (property : String) (starts : entryOf place (t :: ts) = .declaration property)
      (kind : t.kind = .ident property) :
      EntryRead inp place fuel st t ts (declaration inp t property st).1 (declaration inp t property st).2
  | atRule (name : String) {head : AtRuleHead × State} {body : List Parsed × Nat × State}
      (starts : entryOf place (t :: ts) = .atRule name) (kind : t.kind = .atKeyword name)
      (headEq : head = atRuleHead inp t.stop st.advance) (bodyEq : body = atRuleBody inp name fuel head.1 head.2) :
      EntryRead inp place fuel st t ts
        (.node (.atRule name) ⟨t.start, body.2.1⟩ ((preludeOf inp name head.1.atoms).1 ++ body.1))
        (body.2.2.discard (preludeOf inp name head.1.atoms).2)
  /-- A style rule without a block is raw text. -/
  | raw {p : Parsed} {st' : State} (starts : entryOf place (t :: ts) = .styleRule)
      (eq : ruleHead inp place st = (.raw p, st')) : EntryRead inp place fuel st t ts p st'
  | rule {list : Parsed} {start : Nat} {st' : State} {body : Parsed × State}
      (starts : entryOf place (t :: ts) = .styleRule) (eq : ruleHead inp place st = (.block list start, st'))
      (bodyEq : body = block inp .declarations .ruleBlock fuel st') :
      EntryRead inp place fuel st t ts (.node .rule ⟨start, body.1.span.stop⟩ [list, body.1]) body.2

/-- What a list is, by what its first token starts. -/
inductive EntriesStep (inp : Input) (place : Place) (fuel : Nat) (st : State) (t : Token) (ts : List Token)
    (out : List Parsed × State) : Prop where
  | finish (ends : entryOf place (t :: ts) = .finish) (eq : out = ([], st))
  | separator (skips : entryOf place (t :: ts) = .separator) (eq : out = entries inp place fuel st.advance)
  | strayBrace (stray : entryOf place (t :: ts) = .strayBrace)
      (eq : out = entries inp place fuel (st.advance.report (.strayBrace t.span)))
  | entry {p : Parsed} {st' : State} (read : EntryRead inp place fuel st t ts p st')
      (eq : out = (p :: (entries inp place fuel st').1, (entries inp place fuel st').2))

variable {st : State} {t : Token} {ts : List Token}

theorem entries_nil (inp : Input) (place : Place) (fuel : Nat) (e : st.rest = []) :
    entries inp place fuel st = ([], st) := by
  rw [entries.eq_def]
  cases fuel <;> simp only [e]

/-- **A list ends, passes over a token, or reads one entry and goes on behind it.** -/
theorem entries_step (inp : Input) (place : Place) (fuel : Nat) (e : st.rest = t :: ts) :
    EntriesStep inp place fuel st t ts (entries inp place (fuel + 1) st) := by
  have kind := kind_of_entryOf place t ts
  rw [entries.eq_def]
  simp only [e]
  split
  next k => exact .finish k rfl
  next k => exact .separator k rfl
  next k => exact .strayBrace k rfl
  next text k =>
    rw [k] at kind
    exact .entry (.comment text k kind) rfl
  next fault k => exact .entry (.fault fault rfl k) rfl
  next property k =>
    rw [k] at kind
    exact .entry (.declaration property k kind) rfl
  next name k =>
    rw [k] at kind
    exact .entry (.atRule name k kind rfl rfl) rfl
  next k =>
    split
    next eq => exact .entry (.raw k eq) rfl
    next eq => exact .entry (.rule k eq rfl) rfl

end AboveFold.Grammar
