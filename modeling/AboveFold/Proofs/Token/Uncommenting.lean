import AboveFold.Proofs.Token.Respacing

/-!
# Taking comments out of a text

Comments go from a text one by one, and may leave a space (`Uncomments`). This is a special case of `Loosens`, and a
finer one: blanks stay where they are, but for those at the ends. So it can be said of single tokens what happened
between them, and of texts side by side what happened to both of them (`Uncomments.append`).
-/

namespace AboveFold.Token
open Text

/-- Of the tokens `ws`, behind one of the kind `prev` and before one of the kind `next`, some comments went and left
`vs`. They may leave a space, and must if they alone kept two tokens apart that could run together. -/
inductive Uncomments (next : Option Kind) : Option Kind → List Written → List Written → Prop where
  | nil {prev : Option Kind} : Uncomments next prev [] []
  | keep {prev : Option Kind} {w : Written} {ws vs : List Written} (rest : Uncomments next (some w.kind) ws vs) :
      Uncomments next prev (w :: ws) (w :: vs)
  | space {prev : Option Kind} {w : Written} {ws vs : List Written} (comment : w.kind.isComment = true)
      (rest : Uncomments next (some .whitespace) ws vs) : Uncomments next prev (w :: ws) (.space :: vs)
  | drop {prev : Option Kind} {w : Written} {ws vs : List Written} (comment : w.kind.isComment = true)
      (apart : (prev.any Kind.joinsBehind && ((ws.head?.map Written.kind).or next).any Kind.joinsBefore) = false)
      (rest : Uncomments next prev ws vs) : Uncomments next prev (w :: ws) vs
  /-- At the end of a text blanks may go. -/
  | stop {prev : Option Kind} {ws : List Written} (last : next = none) (trivia : ∀ w ∈ ws, w.kind.isTrivia = true) :
      Uncomments next prev ws []

namespace Uncomments

variable {w : Written} {ws vs us : List Written} {prev next : Option Kind}

theorem loosens (h : Uncomments next prev ws vs) : Loosens next prev ws vs := by
  induction h with
  | nil => exact .nil
  | keep _ ih => exact .keep ih
  | space comment _ ih => exact .space (Kind.isTrivia_of_isComment comment) ih
  | drop comment apart _ ih => exact .drop comment apart ih
  | stop last trivia => exact .stop last trivia

theorem refl (next prev : Option Kind) (ws : List Written) : Uncomments next prev ws ws := by
  induction ws generalizing prev with
  | nil => exact .nil
  | cons w ws ih => exact .keep (ih _)

/-! ## Side by side, and without blanks at the ends -/

theorem append {us' : List Written} (h : Uncomments ((us.head?.map Written.kind).or next) prev ws vs)
    (h' : Uncomments next ((vs.getLast?.map Written.kind).or prev) us us') :
    Uncomments next prev (ws ++ us) (vs ++ us') := by
  have behind (w : Written) (vs : List Written) (prev : Option Kind) :
      ((w :: vs).getLast?.map Written.kind).or prev = (vs.getLast?.map Written.kind).or (some w.kind) := by
    rw [List.getLast?_cons]
    cases vs.getLast? <;> rfl
  generalize e : (us.head?.map Written.kind).or next = next' at h
  induction h with
  | nil => exact h'
  | @keep prev w ws vs rest ih => exact .keep (ih (behind w vs prev ▸ h'))
  | @space prev w ws vs comment rest ih => exact .space comment (ih (behind .space vs prev ▸ h'))
  | @drop prev w ws vs comment apart rest ih =>
    refine .drop comment ?_ (ih h')
    rw [← apart, ← e]
    cases ws <;> simp
  | stop last trivia =>
    rw [← e, Option.or_eq_none_iff, Option.map_eq_none_iff, List.head?_eq_none_iff] at last
    obtain ⟨rfl, rfl⟩ := last
    rw [List.append_nil]
    cases h' with
    | nil => exact .stop rfl trivia
    | stop => exact .stop rfl trivia

/-- Where nothing but blanks is left, nothing but blanks and comments was. -/
theorem isTrivia (h : Uncomments next prev ws vs) (white : ∀ v ∈ vs, v.kind = .whitespace) :
    ∀ w ∈ ws, w.kind.isTrivia = true := by
  induction h with
  | nil => simp
  | keep rest ih =>
    rw [List.forall_mem_cons] at white ⊢
    exact ⟨by rw [white.1]; rfl, ih white.2⟩
  | space comment rest ih =>
    rw [List.forall_mem_cons] at white ⊢
    exact ⟨Kind.isTrivia_of_isComment comment, ih white.2⟩
  | drop comment _ rest ih =>
    rw [List.forall_mem_cons]
    exact ⟨Kind.isTrivia_of_isComment comment, ih white⟩
  | stop _ trivia => exact trivia

/-- The blanks at the end may go too. -/
theorem left (h : Uncomments none prev ws (vs ++ us)) (white : ∀ u ∈ us, u.kind = .whitespace) :
    Uncomments none prev ws vs := by
  have all {prev : Option Kind} {ws : List Written} (h : Uncomments none prev ws us) : Uncomments none prev ws [] :=
    .stop rfl (h.isTrivia white)
  generalize e : vs ++ us = xs at h
  induction h generalizing vs with
  | nil =>
    obtain ⟨rfl, -⟩ := List.append_eq_nil_iff.1 e
    exact .nil
  | keep rest ih =>
    cases vs with
    | nil =>
      obtain rfl : us = _ := e
      exact all (.keep rest)
    | cons v vs =>
      obtain ⟨rfl, same⟩ := List.cons.inj e
      exact .keep (ih same)
  | space comment rest ih =>
    cases vs with
    | nil =>
      obtain rfl : us = _ := e
      exact all (.space comment rest)
    | cons v vs =>
      obtain ⟨rfl, same⟩ := List.cons.inj e
      exact .space comment (ih same)
  | drop comment apart rest ih => exact .drop comment apart (ih e)
  | stop _ trivia =>
    obtain ⟨rfl, -⟩ := List.append_eq_nil_iff.1 e
    exact .stop rfl trivia

theorem blank (h : Uncomments next prev ws vs) (stands : Stands ws) :
    ∀ v ∈ vs, v.kind = .whitespace → ∀ c ∈ v.text, isBlank c = true := by
  induction h with
  | nil => simp
  | keep rest ih =>
    rw [List.forall_mem_cons]
    exact ⟨stands.blank, ih stands.tail⟩
  | space comment rest ih =>
    rw [List.forall_mem_cons]
    exact ⟨fun _ => by simp [Written.space, isBlank], ih stands.tail⟩
  | drop _ _ rest ih => exact ih stands.tail
  | stop => simp

theorem blank_textOf (h : Uncomments next prev ws (us ++ vs)) (white : ∀ u ∈ us, u.kind = .whitespace)
    (stands : Stands ws) : ∀ c ∈ textOf us, isBlank c = true := by
  intro c mem
  obtain ⟨u, hu, mem⟩ := List.mem_flatMap.1 mem
  exact h.blank stands u (by simp [hu]) (white u hu) c mem

/-- A text that loses comments, and then the blanks at its ends, goes on saying the same. -/
theorem meaning_trim {lead trail : List Written} (h : Uncomments none prev ws (lead ++ vs ++ trail))
    (white : ∀ v ∈ lead ++ trail, v.kind = .whitespace) (stands : Stands ws)
    (sound : ∀ w ∈ ws, ∀ f, w.kind ≠ .fault f) (shielded : Shielded ws) :
    meaning (textOf vs) = meaning (textOf ws) := by
  rw [List.forall_mem_append] at white
  have left := h.left white.2
  have same := left.loosens.meaning_eq stands sound shielded
  rwa [textOf_append, meaning_append_of_blanks (left.blank_textOf white.1 stands)] at same

end Uncomments

end AboveFold.Token
