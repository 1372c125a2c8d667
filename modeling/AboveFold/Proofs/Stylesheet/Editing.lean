import AboveFold.Proofs.Tree.Walking
import AboveFold.Prune.Options
import AboveFold.Stylesheet.Absolute

/-!
# Editing a stylesheet

All that can be done to the tree of a stylesheet: single edits, whole passes, and walks whose visitor
edits the tree while the walk goes on. A `Session` is a stylesheet that is worked on with the walks
under way; it notes which nodes were edited.
-/

namespace AboveFold

/-- A pass over a stylesheet. -/
inductive Pass where
  | media
  | selectors (critical : List String)
  | filters (f : Filters)
  | atRules (names : List String)
  | interactive
  | embeds (limit : Nat)
  | fonts (kept : List String)
  | unused (used : List String)
  | allUnused
  | comments
  | absolutify (base : Url)
  | emptied

/-- The stylesheet after a pass. -/
def Pass.apply (s : Stylesheet) : Pass → Stylesheet
  | media => s.pruneMedia.2
  | selectors critical => (s.pruneSelectors critical).2
  | filters f => (s.applyFilters f).2
  | atRules names => (s.pruneAtRules names).2
  | interactive => s.pruneInteractive.2
  | embeds limit => (s.pruneEmbeds limit).2
  | fonts kept => (s.pruneFonts kept).2
  | unused used => (s.pruneVariables used).2
  | allUnused => s.pruneVariablesFully.2
  | comments => s.pruneComments.2
  | absolutify base => (s.absolutify base).2
  | emptied => s.pruneEmptied.2

/-- An edit of a stylesheet. -/
inductive Edit where
  | create (kind : Node.Kind)
  | setKind (id : Nat) (kind : Node.Kind)
  | markModified (id : Nat)
  | detach (id : Nat)
  | remove (id : Nat)
  | append (parent child : Nat)
  | insert (parent index child : Nat)
  | replace (old replacement : Nat)
  | removeEmptiedFrom (id : Nat)
  | walk (id : Nat) (v : Visitor)
  | pass (p : Pass)

namespace Edit

/-- The nodes that an edit speaks of. -/
def arguments : Edit → List Nat
  | create _ | pass _ => []
  | setKind id _ | markModified id | detach id | remove id | removeEmptiedFrom id | walk id _ => [id]
  | append a b | insert a _ b | replace a b => [a, b]

/-- The stylesheet after an edit. -/
def apply (s : Stylesheet) : Edit → Stylesheet
  | create kind => { s with tree := (s.tree.create kind).2 }
  | setKind id kind => { s with tree := s.tree.setKind id kind }
  | markModified id => { s with tree := s.tree.markModified id }
  | detach id => { s with tree := (s.tree.detach id).2 }
  | remove id => { s with tree := (s.tree.remove id).2 }
  | append parent child => { s with tree := s.tree.append parent child }
  | insert parent index child => { s with tree := s.tree.insert parent index child }
  | replace old replacement => { s with tree := (s.tree.replace old replacement).2 }
  | removeEmptiedFrom id => { s with tree := (s.tree.removeEmptiedFrom id).2 }
  | walk id v => { s with tree := (s.tree.walkFrom id v).tree }
  | pass p => p.apply s

/-- The nodes that an edit marks without regard to what they are. -/
def marks : Edit → List Nat
  | setKind id _ | markModified id => [id]
  | _ => []

end Edit

/-- The kind of a node and the numbers of its children. -/
def Tree.shape? (t : Tree) (id : Nat) : Option (Node.Kind × List Nat) :=
  (t.find? id).map fun b => (b.kind, b.children.map Branch.id)

/-- The nodes that an edit of `s` marks or gives another kind or other children, new nodes included. -/
def Edit.touched (s : Stylesheet) (e : Edit) : List Nat :=
  let t := (e.apply s).tree
  e.marks ++ (List.range t.size).filter fun id => t.shape? id ≠ s.tree.shape? id

/-- A walk under way: the nodes it is still to ask about, and the nodes that lost a child to it, in
order. -/
structure Round where
  pending : List Nat
  bereft : List Nat

/-- A stylesheet that is worked on. `rounds` are the walks under way, the innermost first, and `edited`
the nodes that were edited so far. -/
structure Session where
  sheet : Stylesheet
  rounds : List Round
  edited : List Nat

/-- What is done next. -/
inductive Command where
  | edit (e : Edit)
  /-- Begin a walk. -/
  | enter (id : Nat)
  /-- Of the innermost walk: keep the next node and go on with its children. -/
  | descend
  /-- Keep the next node as it is. -/
  | skip
  /-- Take the next node out. -/
  | drop
  /-- After the last node: remove what one of the nodes that lost a child left empty, or end the walk. -/
  | settle

namespace Session

/-- A stylesheet that was just read. -/
def start (source : String) (path : Option String) : Session :=
  ⟨.parse source path, [], []⟩

/-- An edit, which has to speak of nodes of the tree. -/
def perform (s : Session) (e : Edit) : Session :=
  if e.arguments.all (· < s.sheet.tree.size) then
    { s with sheet := e.apply s.sheet, edited := e.touched s.sheet ++ s.edited }
  else s

/-- The session after a command. A command that does not fit changes nothing. -/
def step (s : Session) : Command → Session
  | .edit e => s.perform e
  | .enter id => if id < s.sheet.tree.size then { s with rounds := ⟨[id], []⟩ :: s.rounds } else s
  | .descend =>
    match s.rounds with
    | ⟨id :: ids, bereft⟩ :: rounds => { s with rounds := ⟨s.sheet.tree.childrenOf id ++ ids, bereft⟩ :: rounds }
    | _ => s
  | .skip =>
    match s.rounds with
    | ⟨_ :: ids, bereft⟩ :: rounds => { s with rounds := ⟨ids, bereft⟩ :: rounds }
    | _ => s
  | .drop =>
    match s.rounds with
    | ⟨id :: ids, bereft⟩ :: rounds =>
      let parent := (s.sheet.tree.parent? id).map Node.id
      { s.perform (.detach id) with rounds := ⟨ids, bereft ++ parent.toList⟩ :: rounds }
    | _ => s
  | .settle =>
    match s.rounds with
    | ⟨[], id :: bereft⟩ :: rounds => { s.perform (.removeEmptiedFrom id) with rounds := ⟨[], bereft⟩ :: rounds }
    | ⟨[], []⟩ :: rounds => { s with rounds }
    | _ => s

/-- The session after some commands, in order. -/
def run (source : String) (path : Option String) (commands : List Command) : Session :=
  commands.foldl step (start source path)

end Session

/-! ## Edits keep to the tree -/

section

variable {s : Stylesheet}

/-- A stylesheet became another by a change of its tree alone. -/
structure Stylesheet.Evolves (s s' : Stylesheet) : Prop where
  tree : s.tree.Evolves s'.tree
  source : s'.source = s.source

theorem Stylesheet.Evolves.trans {s' s'' : Stylesheet} (h : s.Evolves s') (h' : s'.Evolves s'') : s.Evolves s'' :=
  ⟨h.tree.trans h'.tree, h'.source.trans h.source⟩

theorem Stylesheet.evolves_pruneBy (h : s.tree.Numbered) (v : Visitor) : s.Evolves (s.pruneBy v).2 :=
  ⟨h.walk v, rfl⟩

theorem Stylesheet.evolves_pruneVariablesWithin (h : s.tree.Numbered) (fuel : Nat) :
    s.Evolves (pruneVariablesWithin fuel s).2 := by
  induction fuel generalizing s with
  | zero => exact ⟨.refl h, rfl⟩
  | succ fuel ih =>
    have pruned := evolves_pruneBy h (Prune.declarations fun b => b.definition?.any (!s.usedVariables.contains ·))
    unfold pruneVariablesWithin
    split
    next s' e => exact (congrArg Prod.snd e : _ = s') ▸ pruned
    next n s' e =>
      have e : (s.pruneVariables s.usedVariables).2 = s' := congrArg Prod.snd e
      have pruned : s.Evolves s' := e ▸ pruned
      exact pruned.trans (ih pruned.tree.numbered)

theorem Pass.evolves (h : s.tree.Numbered) (p : Pass) : s.Evolves (p.apply s) := by
  cases p with
  | allUnused => exact Stylesheet.evolves_pruneVariablesWithin h _
  | emptied => exact ⟨h.removeEmptied, rfl⟩
  | comments => exact ⟨h.walk _, rfl⟩
  | absolutify base => exact ⟨h.walk _, rfl⟩
  | media => exact Stylesheet.evolves_pruneBy h _
  | selectors critical => exact Stylesheet.evolves_pruneBy h _
  | filters f => exact Stylesheet.evolves_pruneBy h _
  | atRules names => exact Stylesheet.evolves_pruneBy h _
  | interactive => exact Stylesheet.evolves_pruneBy h _
  | embeds limit => exact Stylesheet.evolves_pruneBy h _
  | fonts kept => exact Stylesheet.evolves_pruneBy h _
  | unused used => exact Stylesheet.evolves_pruneBy h _

/-- Every edit that speaks of nodes of the tree. -/
theorem Edit.evolves (h : s.tree.Numbered) (e : Edit) (within : ∀ id ∈ e.arguments, id < s.tree.size) :
    s.Evolves (e.apply s) := by
  cases e with
  | create kind => exact ⟨h.create kind, rfl⟩
  | setKind id kind => exact ⟨h.setKind id kind, rfl⟩
  | markModified id => exact ⟨h.markModified id, rfl⟩
  | detach id => exact ⟨(h.detach id).1, rfl⟩
  | remove id => exact ⟨h.remove id, rfl⟩
  | append parent child => exact ⟨h.append (within parent (by simp [arguments])) child, rfl⟩
  | insert parent index child => exact ⟨h.insert (within parent (by simp [arguments])) index child, rfl⟩
  | replace old replacement => exact ⟨h.replace old replacement, rfl⟩
  | removeEmptiedFrom id => exact ⟨h.removeEmptiedFrom id, rfl⟩
  | walk id v => exact ⟨h.walkFrom id v, rfl⟩
  | pass p => exact p.evolves h

end

end AboveFold
