import AboveFold.Proofs.Grammar.Trimming
import AboveFold.Proofs.Prune.Remains
import AboveFold.Proofs.Stylesheet.Walks
import AboveFold.Proofs.Token.UrlText
import AboveFold.Proofs.Tree.Relabelling
import AboveFold.Proofs.Url.Graphic

/-!
# What becomes of relative urls

Making urls absolute leaves all nodes of a stylesheet in their places and gives some of them another text
(`Stylesheet.Rooted.absolutify_places`). A second time there is nothing left to do
(`Stylesheet.Rooted.absolutify_again`), if an absolute url is read as one again. Below a base whose path has
segments the new text of a url is graphic. So what is written for it reads as one url, unless it holds a
backslash or the quote that the author wrote around the old one (`Stylesheet.Rooted.absolutify_fits`).
-/

namespace AboveFold
open Text Token Branch

namespace Url

variable {base : Url} {url absolute : String} {c : Char} {cs : List Char}

/-- The absolute form of a url is that of its text as it stands, escapes and all, and that text is relative. -/
theorem of_resolve? (h : base.resolve? url = some absolute) :
    ∃ u, Url.parse (String.ofList (trim url.toList)) = none ∧ base.join (String.ofList (trim url.toList)) = some u
      ∧ u.text = absolute := by
  unfold Url.resolve? at h
  dsimp only at h
  split at h
  next => cases h
  split at h
  next => cases h
  split at h
  next => cases h
  next relative =>
    obtain ⟨u, joined, rfl⟩ := Option.map_eq_some_iff.1 h
    exact ⟨u, by simpa using relative, joined, rfl⟩

theorem Graphic.resolve (graphic : base.Graphic) (h : base.resolve? url = some absolute) :
    IsGraphic absolute.toList := by
  obtain ⟨u, relative, joined, rfl⟩ := of_resolve? h
  exact (graphic_join graphic relative joined).text

/-- Graphic characters do no harm in a url. -/
theorem harmless_of_isGraphic (h : isGraphic c = true) : isLineEnd c = false ∧ isNonPrintable c = false := by
  have ascii : isAscii c = true := by
    simp only [isGraphic, isAscii, Bool.and_eq_true, decide_eq_true_eq] at h ⊢
    omega
  exact ascii_forall (p := fun c => isGraphic c = true → isLineEnd c = false ∧ isNonPrintable c = false)
    (by decide) ascii h

/-- **A url that was made absolute can be written back** exactly if it does not hold the quote that it is written
with, if there is no backslash in it. -/
theorem Graphic.fitsUrl_resolve (graphic : base.Graphic) (h : base.resolve? url = some absolute)
    (plain : '\\' ∉ absolute.toList) (quote : Option Char) :
    fitsUrl absolute quote = true ↔ ∀ q ∈ quote, q ∉ absolute.toList := by
  refine fitsUrl_of_harmless fun c mem => ⟨?_, harmless_of_isGraphic (graphic.resolve h c mem)⟩
  rintro rfl
  exact plain mem

/-- In a path a quote is not encoded. -/
example : fitsUrl "https://example.com/it's/x.png" (some '\x27') = false := by decide +kernel

/-- What is read relative to a url is an absolute url by itself, as it is written. -/
def Rereads (base : Url) : Prop :=
  ∀ s u, base.join s = some u → (Url.parse u.text).isSome = true

theorem isWhiteSpace_of_isGraphic (h : isGraphic c = true) : isWhiteSpace c = false := by
  simp only [isGraphic, isWhiteSpace, Bool.and_eq_true, Bool.or_eq_false_iff, Bool.and_eq_false_iff,
    decide_eq_true_eq, decide_eq_false_iff_not, beq_eq_false_iff_ne] at h ⊢
  omega

/-- An absolute url stays as it is. -/
theorem Rereads.resolve (rereads : base.Rereads) (graphic : base.Graphic) (h : base.resolve? url = some absolute) :
    base.resolve? absolute = none := by
  have trimmed : trim absolute.toList = absolute.toList :=
    trimBy_eq_self fun c mem => isWhiteSpace_of_isGraphic (graphic.resolve h c mem)
  obtain ⟨u, -, joined, rfl⟩ := of_resolve? h
  have again := rereads _ u joined
  unfold Url.resolve?
  simp only [trimmed, String.ofList_toList, again, if_true, ite_self]

end Url

/-! ## What the visitor does -/

/-- How making urls absolute changes a node below the nodes `above`. -/
inductive Absolutized (base : Url) (above : List Node) : Node.Kind → Node.Kind → Prop
  | url {url absolute : String} {quote : Option Char} (resolved : base.resolve? url = some absolute) :
      Absolutized base above (.url url quote) (.url absolute quote)
  | target {value absolute : String} {quote : Char} (target : isImportTarget above = true)
      (resolved : base.resolve? value = some absolute) (unquoted : quote ∉ absolute.toList) :
      Absolutized base above (.stringLit value quote) (.stringLit absolute quote)

section Visitor

variable {base : Url} {site : Site} {k : Node.Kind}

theorem isImportTarget_congr {above above' : List Node} (same : above'.map Node.kind = above.map Node.kind) :
    isImportTarget above' = isImportTarget above := by
  rcases above with _ | ⟨p, _ | ⟨r, above⟩⟩ <;> rcases above' with _ | ⟨p', _ | ⟨r', above'⟩⟩ <;>
    simp_all [isImportTarget]

theorem requote_eq_become {quote : Char} {value : Option String} :
    requote quote value = .become k ↔ ∃ text, value = some text ∧ quote ∉ text.toList ∧ k = .stringLit text quote := by
  unfold requote
  cases value with
  | none => simp
  | some text => by_cases inside : quote ∈ text.toList <;> simp [inside, eq_comm]

theorem absolutized_of_become (h : absoluteUrls base site = .become k) :
    Absolutized base site.above site.branch.kind k := by
  unfold absoluteUrls at h
  split at h
  next url quote was =>
    split at h
    next => cases h
    next absolute resolved =>
      obtain rfl := Verdict.become.inj h
      exact was ▸ .url resolved
  next value quote was =>
    split at h
    next target =>
      obtain ⟨absolute, resolved, unquoted, rfl⟩ := requote_eq_become.1 h
      exact was ▸ .target target resolved unquoted
    next => cases h
  next => cases h
  next => cases h

theorem relabels_absoluteUrls (base : Url) : (absoluteUrls base).Relabels := by
  intro site
  unfold absoluteUrls requote
  split
  next => split <;> simp
  next =>
    split
    next => split <;> [simp; split <;> simp]
    next => simp
  next => simp
  next => simp

theorem settles_absoluteUrls (rereads : base.Rereads) (graphic : base.Graphic) : (absoluteUrls base).Settles where
  alike s s' alike := by
    unfold absoluteUrls
    rw [alike.kind, isImportTarget_congr alike.above]
  settled s s' k answer same is := by
    have changed := absolutized_of_become answer
    generalize s.branch.kind = was at changed
    unfold absoluteUrls
    rw [is]
    cases changed with
    | url resolved => simp only [rereads.resolve graphic resolved]
    | target target resolved unquoted =>
      simp only [isImportTarget_congr same, target, if_true, rereads.resolve graphic resolved, requote]

end Visitor

namespace Stylesheet

variable {s : Stylesheet} {base : Url}

/-- **Making urls absolute keeps all nodes in their places** and changes the texts of relative urls only, and of
strings that name what is imported. -/
theorem Rooted.absolutify_places (h : s.Rooted) (base : Url) :
    List.Forall₂ (fun l b => b.id = l.branch.id
        ∧ (b.kind = l.branch.kind ∨ Absolutized base l.above l.branch.kind b.kind))
      (s.tree.sheet.locate []) (s.absolutify base).2.tree.attached := by
  refine (h.numbered.walk_places (relabels_absoluteUrls base)).imp fun l b relabelled => ⟨relabelled.1, ?_⟩
  refine relabelled.2.imp_right fun ⟨before, after, answer⟩ => ?_
  exact absolutized_of_become answer

/-- **Making urls absolute a second time changes nothing.** -/
theorem Rooted.absolutify_again (h : s.Rooted) (rereads : base.Rereads) (graphic : base.Graphic) :
    (s.absolutify base).2.absolutify base = (0, (s.absolutify base).2) := by
  have again := h.numbered.walk_again (relabels_absoluteUrls base) (settles_absoluteUrls rereads graphic)
  simp only [absolutify, again]

/-- **A url that was made absolute can be written back**: it was there before as it is, or without a backslash in
it it fits exactly if it does not hold the quote that it had. -/
theorem Rooted.absolutify_fits (h : s.Rooted) (graphic : base.Graphic) {b : Branch} {url : String}
    {quote : Option Char} (attached : b ∈ (s.absolutify base).2.tree.attached) (is : b.kind = .url url quote) :
    (∃ b' ∈ s.tree.attached, b'.id = b.id ∧ b'.kind = b.kind)
      ∨ ('\\' ∉ url.toList → (fitsUrl url quote = true ↔ ∀ q ∈ quote, q ∉ url.toList)) := by
  obtain ⟨l, place, same, kept | changed⟩ := exists_of_forall₂ (h.absolutify_places base).flip attached
  · exact .inl ⟨l.branch, Tree.mem_attached_of_place place, same.symm, kept.symm⟩
  · rw [is] at changed
    generalize l.branch.kind = was at changed
    cases changed with
    | url resolved => exact .inr fun plain => graphic.fitsUrl_resolve resolved plain quote

end Stylesheet

end AboveFold
