import AboveFold.Proofs.Grammar.Levels
import AboveFold.Proofs.Prune.MediaLists
import AboveFold.Proofs.Text.AsciiCase

/-!
# Texts of media queries

A media query has the collapsed text of what it was read from (`Grammar.Input.read_queries`), and no pass changes that
(`Stylesheet.Runs.queriesRead`). Whether it can hold on a screen depends neither on blanks and comments nor on the case
of its letters. So what is decided by the text of a node is what the text in the source decides
(`Stylesheet.queries_decide_as_written`).
-/

namespace AboveFold.Prune
open Text

theorem isUsefulQuery_of_eqIgnoreCase {a b : String} (h : eqIgnoreCase a b = true) :
    isUsefulQuery a = isUsefulQuery b := by
  unfold isUsefulQuery
  rw [← collapse_lower, ← collapse_lower, eqIgnoreCase_iff.1 h]

end AboveFold.Prune

/-! ## What is read -/

namespace AboveFold.Grammar
open Source Node Parsed Token

/-- A node that is the collapsed text of what it was read from, if it is a media query. -/
def QueryRead (inp : Input) (p : Parsed) : Prop :=
  ∀ text, p.kind = .mediaQuery text → text = Text.collapse (inp.slice p.span)

variable {inp : Input} {p : Parsed}

theorem QueryRead.of_not_isMediaQuery (other : p.kind.isMediaQuery = false) : QueryRead inp p := by
  intro text kind
  rw [kind] at other
  cases other

theorem Place.isMediaQuery_of_admits {place : Place} {k : Node.Kind} (h : place.admits k) : k.isMediaQuery = false := by
  rcases h with h | ⟨-, h⟩ <;> cases k <;> first | rfl | cases h

theorem queryRead_declaration (t : Token) (property : String) (st : State) :
    QueryRead inp (declaration inp t property st).1 :=
  .of_not_isMediaQuery (Place.isMediaQuery_of_admits (declaration_isEntry t property st).1)

/-- Every media query has the collapsed text of what it was read from. -/
theorem Input.read_queries (inp : Input) :
    (inp.read (tokens inp.source inp.path)).sheet.Every (QueryRead inp) := by
  obtain ⟨here, boundary, tiles⟩ := tiles_tokens inp.source inp.path
  have elsewhere : HoldsElsewhere (fun _ => QueryRead inp) inp :=
    ⟨fun _ _ plain => .of_not_isMediaQuery (Bool.or_eq_false_iff.1 plain).2, by rintro _ _ _ _ ⟨⟩; rfl⟩
  have holds : HoldsWhereRead (fun _ => QueryRead inp) inp (tokens inp.source inp.path) :=
    ⟨elsewhere, fun st _ t _ property _ _ _ => queryRead_declaration t property st⟩
  exact (holds.read boundary tiles).every

end AboveFold.Grammar

/-! ## What passes leave -/

namespace AboveFold.Node.Kind

variable {k : Kind}

theorem isComponent_of_isMediaQuery (h : k.isMediaQuery = true) : k.isComponent = false := by
  cases k <;> first | rfl | cases h

theorem isClosed_of_isMediaQuery (h : k.isMediaQuery = true) : k.isClosed = true := by
  cases k <;> first | rfl | cases h

end AboveFold.Node.Kind

namespace AboveFold.Branch
open Cut

/-- Every media query among the branches `bs'` is one of those among `bs`, and was read from the same text. -/
def KeepsQueries (bs bs' : List Branch) : Prop :=
  ∀ d ∈ preorderAll bs', d.kind.isMediaQuery = true →
    ∃ c ∈ preorderAll bs, c.kind = d.kind ∧ c.node.span = d.node.span

variable {b b' : Branch} {bs bs' cs cs' : List Branch} {n n' : Node} {v : Visitor}

theorem KeepsQueries.refl (bs : List Branch) : KeepsQueries bs bs :=
  fun d mem _ => ⟨d, mem, rfl, rfl⟩

theorem KeepsQueries.nil (bs : List Branch) : KeepsQueries bs [] := by
  intro d mem
  cases mem

theorem KeepsQueries.append (h : KeepsQueries bs bs') (h' : KeepsQueries cs cs') :
    KeepsQueries (bs ++ cs) (bs' ++ cs') := by
  intro d mem query
  rw [preorderAll_append, List.mem_append] at mem
  simp only [preorderAll_append, List.mem_append]
  rcases mem with mem | mem
  · obtain ⟨c, hc, same⟩ := h d mem query
    exact ⟨c, .inl hc, same⟩
  · obtain ⟨c, hc, same⟩ := h' d mem query
    exact ⟨c, .inr hc, same⟩

theorem KeepsQueries.trans (h : KeepsQueries bs bs') (h' : KeepsQueries bs' cs') : KeepsQueries bs cs' := by
  intro d mem query
  obtain ⟨c, hc, kind, span⟩ := h' d mem query
  obtain ⟨e, he, kind', span'⟩ := h c hc (kind ▸ query)
  exact ⟨e, he, kind'.trans kind, span'.trans span⟩

/-- Media queries are closed, so they are spared. -/
theorem Spares.keepsQueries (h : b.Spares b') : KeepsQueries [b] [b'] := by
  intro d mem query
  rw [preorderAll_cons, preorderAll_nil, List.append_nil] at mem ⊢
  exact ⟨d, h d mem (Node.Kind.isClosed_of_isMediaQuery query), rfl, rfl⟩

/-- A node stays and keeps the queries below it. -/
theorem KeepsQueries.node (top : n'.kind.isMediaQuery = true → n.kind = n'.kind ∧ n.span = n'.span)
    (below : KeepsQueries cs cs') : KeepsQueries [mk n cs] [mk n' cs'] := by
  intro d mem query
  simp only [preorderAll_cons, preorderAll_nil, List.append_nil, mem_preorder, children_mk] at mem ⊢
  rcases mem with rfl | mem
  · exact ⟨mk n cs, .inl rfl, top query⟩
  · obtain ⟨c, hc, same⟩ := below d mem query
    exact ⟨c, .inr hc, same⟩

theorem KeepsQueries.each {f : Branch → Cut} (h : ∀ b ∈ bs, KeepsQueries [b] (f b).kept) :
    KeepsQueries bs (each f bs).kept := by
  induction bs with
  | nil => exact .refl []
  | cons b bs ih =>
    rw [List.forall_mem_cons] at h
    rw [each_cons]
    exact h.1.append (ih h.2)

theorem keepsQueries_clear (b : Branch) : KeepsQueries [b] b.clear.kept := by
  induction b using induct with
  | mk n cs ih =>
    cases emptied : (swept (mk n cs)).isEmptied with
    | true =>
      rw [clear_of_isEmptied emptied]
      exact .nil _
    | false =>
      rw [clear_of_not_isEmptied emptied]
      exact .node (fun _ => ⟨rfl, rfl⟩) (.each ih)

theorem keepsQueries_swept (b : Branch) : KeepsQueries [b] [b.swept] := by
  obtain ⟨n, cs⟩ := b
  exact .node (fun _ => ⟨rfl, rfl⟩) (.each fun c _ => keepsQueries_clear c)

mutual

/-- The walk of a modest visitor makes no media query and changes none. -/
theorem walk_keepsQueries (modest : v.Modest) :
    ∀ (b : Branch) (above : List Node) (before after : List Branch) (trail : Trail),
      KeepsQueries [b] (b.walk v above before after trail).branches
  | mk n cs, above, before, after, trail => by
    have answer := modest ⟨above, before, mk n cs, after⟩
    cases verdict : v ⟨above, before, mk n cs, after⟩ with
    | descend =>
      simp only [Branch.walk, verdict]
      exact .node (fun _ => ⟨rfl, rfl⟩) (walkAll_keepsQueries modest cs _ _ _)
    | skip =>
      simp only [Branch.walk, verdict]
      exact .refl _
    | become kind =>
      have reworded : n.kind.Reworded kind := by rwa [verdict] at answer
      simp only [Branch.walk, verdict]
      refine .node (fun query => ⟨(reworded.eq (.inr ?_)).symm, rfl⟩) (.refl cs)
      exact Node.Kind.isComponent_of_isMediaQuery query
    | remove =>
      cases above with
      | nil =>
        simp only [Branch.walk, verdict]
        exact .refl _
      | cons =>
        simp only [Branch.walk, verdict]
        exact .nil _
    | exchange kind =>
      obtain ⟨rfl, -⟩ : kind = .whitespace ∧ _ := by rwa [verdict] at answer
      cases above with
      | nil =>
        simp only [Branch.walk, verdict]
        exact .refl _
      | cons =>
        simp only [Branch.walk, verdict]
        exact .node nofun (.nil cs)

theorem walkAll_keepsQueries (modest : v.Modest) :
    ∀ (bs : List Branch) (above : List Node) (before : List Branch) (trail : Trail),
      KeepsQueries bs (walkAll v above before bs trail).branches
  | [], _, _, _ => .refl []
  | b :: bs, above, before, trail =>
    (walk_keepsQueries modest b above before bs trail).append (walkAll_keepsQueries modest bs _ _ _)

end

end AboveFold.Branch

namespace AboveFold.Stylesheet
open Branch Text

variable {s s' : Stylesheet} {v : Visitor}

/-- Every media query of a stylesheet is the collapsed text of what it was read from. -/
def QueriesRead (s : Stylesheet) : Prop :=
  ∀ b ∈ s.tree.attached, b.kind.isMediaQuery = true →
    ∃ raw, s.sourceText? b = some raw ∧ b.kind = .mediaQuery (collapse raw)

theorem queriesRead_parse (source : String) (path : Option String) : (parse source path).QueriesRead := by
  intro b mem query
  obtain ⟨-, span, place, fits⟩ := parse_pristine source path b (Tree.mem_branches.2 (.inl mem))
  obtain ⟨raw, text⟩ := fits.slice_isSome
  have slice : (Grammar.Input.mk source path).slice span = raw := by
    rw [Grammar.Input.slice, text]
    rfl
  obtain ⟨q, hq, reflects⟩ := Parsed.reflects_number 0 (Grammar.Input.read ⟨source, path⟩ _).sheet b mem
  obtain rfl : q.span = span := Option.some.inj (reflects.span.symm.trans place)
  have read := (Grammar.Input.mk source path).read_queries q hq
  refine ⟨raw, by rw [sourceText?, place]; exact text, ?_⟩
  cases k : b.kind with
  | mediaQuery kept => rw [read kept (reflects.kind.symm.trans k), slice]
  | _ =>
    rw [k] at query
    cases query

/-- A stylesheet of the same source that keeps its queries. -/
theorem QueriesRead.keeps (h : s.QueriesRead) (source : s'.source = s.source)
    (keeps : KeepsQueries [s.tree.sheet] [s'.tree.sheet]) : s'.QueriesRead := by
  intro d mem query
  obtain ⟨c, hc, kind, span⟩ := keeps d (List.mem_append_left [] mem) query
  rw [preorderAll_cons, preorderAll_nil, List.append_nil] at hc
  obtain ⟨raw, text, collapsed⟩ := h c hc (kind ▸ query)
  exact ⟨raw, by rwa [sourceText?, source, ← span], kind ▸ collapsed⟩

theorem QueriesRead.pruneBy (read : s.QueriesRead) (h : s.Grammatical) (modest : v.Modest) :
    (s.pruneBy v).2.QueriesRead := by
  have walked : KeepsQueries [s.tree.sheet] [(s.tree.unsettled v).sheet] :=
    s.tree.passed_branches v ▸ walk_keepsQueries modest s.tree.sheet [] [] [] _
  have nested : (s.tree.unsettled v).sheet.Nested :=
    nested_of_formed (formed_of_recasts (s.tree.unsettled_recasts modest) h.formed)
  exact read.keeps rfl (walked.trans ((h.rooted.numbered.walk_settles v).spares nested).keepsQueries)

theorem QueriesRead.pruneEmptied (read : s.QueriesRead) : s.pruneEmptied.2.QueriesRead := by
  have sheet : s.pruneEmptied.2.tree.sheet = s.tree.sheet.swept := s.tree.removeEmptied_sheet
  exact read.keeps rfl (sheet ▸ keepsQueries_swept s.tree.sheet)

/-- No pass changes what a media query was read from, or its text. -/
theorem Runs.queriesRead (runs : s.Runs s') (h : s.Grammatical) (read : s.QueriesRead) : s'.QueriesRead := by
  induction runs with
  | done => exact read
  | walk modest _ ih => exact ih (h.pruneBy modest) (read.pruneBy h modest)
  | sweep _ ih => exact ih h.pruneEmptied read.pruneEmptied

theorem queriesRead_passes (source : String) (path : Option String) (passes : List Pass) :
    (passes.foldl Pass.apply (parse source path)).QueriesRead :=
  (runs_passes passes _).queriesRead (grammatical_parse source path) (queriesRead_parse source path)

/-- **A media query is as useful as its text in the source.** Collapsing is a projection and does not see the case of
letters. So whatever passes were run over a stylesheet, a media query in it is decided as the text that it was read
from, in any case of its letters. -/
theorem queries_decide_as_written (source : String) (path : Option String) (passes : List Pass) :
    (∀ s, collapse (collapse s) = collapse s) ∧ (∀ s, collapse (lower s) = lower (collapse s))
      ∧ let sheet := passes.foldl Pass.apply (parse source path)
        ∀ b ∈ sheet.tree.attached, b.kind.isMediaQuery = true →
          ∃ raw, sheet.sourceText? b = some raw ∧ b.kind = .mediaQuery (collapse raw)
            ∧ ∀ query, eqIgnoreCase query raw = true → b.isUsefulMedia = Prune.isUsefulQuery query := by
  refine ⟨collapse_collapse, collapse_lower, fun b mem query => ?_⟩
  obtain ⟨raw, text, kind⟩ := queriesRead_passes source path passes b mem query
  refine ⟨raw, text, kind, fun query same => ?_⟩
  rw [Branch.isUsefulMedia, kind, Prune.isUsefulQuery_of_eqIgnoreCase same]
  exact Prune.isUsefulQuery_collapse raw

/-- A query with a comment in it, which the pass over comments has taken out of its nodes, is decided by its text in
the source, and would be so if it were written otherwise. -/
theorem queries_decide_as_written_not_all :
    let sheet := [Pass.comments].foldl Pass.apply (parse "@media Not/**/ALL{a{b:c}}" none)
    ∃ b ∈ sheet.tree.attached, b.kind = .mediaQuery "Not ALL" ∧ b.node.modified = true
      ∧ b.isUsefulMedia = Prune.isUsefulQuery "nOT/**/all" ∧ Prune.isUsefulQuery "nOT/**/all" = false := by
  intro sheet
  have found : ∃ b ∈ sheet.tree.attached, b.kind = .mediaQuery "Not ALL" ∧ b.node.modified = true
      ∧ sheet.sourceText? b = some "Not/**/ALL" := by decide +kernel
  obtain ⟨b, mem, kind, modified, text⟩ := found
  obtain ⟨-, -, decides⟩ := queries_decide_as_written "@media Not/**/ALL{a{b:c}}" none [.comments]
  obtain ⟨raw, text', -, decided⟩ := decides b mem (by rw [kind]; rfl)
  obtain rfl : "Not/**/ALL" = raw := Option.some.inj (text.symm.trans text')
  exact ⟨b, mem, kind, modified, decided "nOT/**/all" (by decide), by decide +kernel⟩

end AboveFold.Stylesheet
