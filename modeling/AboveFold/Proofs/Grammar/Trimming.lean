import AboveFold.Proofs.Grammar.Layout
import AboveFold.Text.WhiteSpace

/-!
# Trimmed and divided lists

What stays of a list of component values when it is trimmed or divided at commas stands in its old
order, and only whitespace and commas are left out.
-/

namespace AboveFold.Text

variable {α β : Type}

/-- A list is what is left of it after trimming, with what is trimmed around that. -/
theorem exists_trimBy (f : α → Bool) (xs : List α) :
    ∃ lead trail, xs = lead ++ trimBy f xs ++ trail ∧ ∀ x ∈ lead ++ trail, f x := by
  refine ⟨xs.takeWhile f, ((xs.dropWhile f).reverse.takeWhile f).reverse, ?_, ?_⟩
  · have inner : trimBy f xs ++ ((xs.dropWhile f).reverse.takeWhile f).reverse = xs.dropWhile f := by
      rw [trimBy, ← List.reverse_append, List.takeWhile_append_dropWhile, List.reverse_reverse]
    rw [List.append_assoc, inner, List.takeWhile_append_dropWhile]
  · intro x mem
    rcases List.mem_append.1 mem with mem | mem
    · exact List.all_eq_true.1 List.all_takeWhile x mem
    · exact List.all_eq_true.1 List.all_takeWhile x (List.mem_reverse.1 mem)

/-- Where nothing is to be trimmed, all stays. -/
theorem trimBy_eq_self {f : α → Bool} {xs : List α} (none : ∀ x ∈ xs, f x = false) : trimBy f xs = xs := by
  obtain ⟨lead, trail, e, trimmed⟩ := exists_trimBy f xs
  have empty : lead ++ trail = [] := by
    refine List.eq_nil_iff_forall_not_mem.2 fun x mem => ?_
    have inside : x ∈ xs := by
      rw [e, List.append_assoc]
      simp only [List.mem_append] at mem ⊢
      exact mem.imp_right .inr
    exact absurd (trimmed x mem) (by simp [none x inside])
  obtain ⟨rfl, rfl⟩ := List.append_eq_nil_iff.1 empty
  simpa using e.symm

theorem trimBy_map (f : β → Bool) (g : α → β) (xs : List α) :
    trimBy f (xs.map g) = (trimBy (f ∘ g) xs).map g := by
  simp only [trimBy, List.dropWhile_map, ← List.map_reverse]

end AboveFold.Text

namespace AboveFold.Parsed
open Source

variable {p : Parsed} {ps : List Parsed} {span : ByteSpan}

theorem eq_nil_of_cover_eq_none (e : cover ps = none) : ps = [] := by
  cases ps with
  | nil => rfl
  | cons p ps => cases e

theorem trim_leading (ps : List Parsed) : trim ps <+: ps.dropWhile isWhitespace := by
  have := List.dropWhile_suffix (l := (ps.dropWhile isWhitespace).reverse) isWhitespace
  simpa [trim] using List.reverse_prefix.2 this

theorem trim_isInfix (ps : List Parsed) : trim ps <:+: ps :=
  (trim_leading ps).isInfix.trans (List.dropWhile_suffix isWhitespace).isInfix

/-- A trimmed list does not end in whitespace. -/
theorem isWhitespace_getLast?_trim (mem : p ∈ (trim ps).getLast?) : p.isWhitespace = false := by
  have last : ((ps.dropWhile isWhitespace).reverse.dropWhile isWhitespace).head? = some p := by
    rw [← List.getLast?_reverse]
    exact mem
  have := List.head?_dropWhile_not isWhitespace (ps.dropWhile isWhitespace).reverse
  rwa [last] at this

theorem trim_sublist (ps : List Parsed) : (trim ps).Sublist ps := (trim_isInfix ps).sublist

theorem mem_takeWhile_or_dropWhile {α : Type} {x : α} {xs : List α} (f : α → Bool) (mem : x ∈ xs) :
    f x ∨ x ∈ xs.dropWhile f := by
  rw [← List.takeWhile_append_dropWhile (p := f) (l := xs)] at mem
  exact (List.mem_append.1 mem).imp_left (List.all_eq_true.1 List.all_takeWhile x)

/-- Trimming leaves out nothing but whitespace. -/
theorem white_or_mem_trim (mem : p ∈ ps) : p.isWhitespace ∨ p ∈ trim ps := by
  rcases mem_takeWhile_or_dropWhile isWhitespace mem with white | mem
  · exact .inl white
  · rcases mem_takeWhile_or_dropWhile isWhitespace (List.mem_reverse.2 mem) with white | mem
    · exact .inl white
    · exact .inr (List.mem_reverse.2 mem)

theorem mem_of_mem_trimmings (mem : p ∈ trimmings ps) : p ∈ ps := by
  rcases List.mem_append.1 mem with mem | mem
  · exact (List.takeWhile_sublist isWhitespace).subset mem
  · have := (List.takeWhile_sublist isWhitespace).subset mem
    exact (List.dropWhile_sublist isWhitespace).subset (List.mem_reverse.1 this)

/-- The span over a trimmed list starts and ends with a node that is no whitespace. -/
theorem ends_of_cover_trim (eq : cover (trim ps) = some span) :
    ∃ p ∈ trim ps, ∃ q ∈ trim ps, p.isWhitespace = false ∧ q.isWhitespace = false
      ∧ span = ⟨p.span.start, q.span.stop⟩ := by
  cases e : trim ps with
  | nil =>
    rw [e] at eq
    cases eq
  | cons p rest =>
    rw [e, cover, Option.some.injEq] at eq
    refine ⟨p, by simp, (p :: rest).getLast (by simp), List.getLast_mem _, ?_, ?_, eq.symm⟩
    · have first : (ps.dropWhile isWhitespace).head? = some p := by
        obtain ⟨more, h⟩ := trim_leading ps
        rw [← h, e]
        rfl
      have := List.head?_dropWhile_not isWhitespace ps
      rwa [first] at this
    · have last : (p :: rest).getLast (by simp) ∈ (trim ps).getLast? := by
        rw [Option.mem_def, e, List.getLast?_eq_some_getLast]
      exact isWhitespace_getLast?_trim last

theorem flatten_splitAtCommas_sublist (ps : List Parsed) : (splitAtCommas ps).flatten.Sublist ps := by
  induction ps with
  | nil => simp [splitAtCommas]
  | cons p ps ih =>
    unfold splitAtCommas
    split
    · exact ih.cons p
    · split
      next => simp
      next group groups e =>
        rw [e] at ih
        exact ih.cons_cons p

theorem isInfix_of_mem_splitAtCommas {group : List Parsed} (mem : group ∈ splitAtCommas ps) : group <:+: ps := by
  -- the first group stands in front, the others anywhere
  suffices ∃ first rest, splitAtCommas ps = first :: rest ∧ first <+: ps ∧ ∀ g ∈ rest, g <:+: ps by
    obtain ⟨first, rest, e, front, inside⟩ := this
    rw [e, List.mem_cons] at mem
    rcases mem with rfl | mem
    · exact front.isInfix
    · exact inside group mem
  clear mem
  induction ps with
  | nil => exact ⟨[], [], rfl, List.prefix_rfl, by simp⟩
  | cons p ps ih =>
    obtain ⟨first, rest, e, front, inside⟩ := ih
    unfold splitAtCommas
    rw [e]
    split
    next =>
      refine ⟨[], first :: rest, rfl, List.nil_prefix, List.forall_mem_cons.2 ⟨List.infix_cons front.isInfix, ?_⟩⟩
      exact fun g mem => List.infix_cons (inside g mem)
    next => exact ⟨p :: first, rest, rfl, (List.prefix_cons_inj p).2 front, fun g mem => List.infix_cons (inside g mem)⟩

theorem mem_of_mem_separators (mem : p ∈ Grammar.separators ps) : p ∈ ps := by
  rcases List.mem_append.1 mem with mem | mem
  · exact (List.mem_filter.1 mem).1
  · obtain ⟨trimmed, hg, mem⟩ := List.mem_flatten.1 mem
    obtain ⟨group, member, rfl⟩ := List.mem_map.1 hg
    exact (flatten_splitAtCommas_sublist ps).subset
      (List.mem_flatten.2 ⟨group, member, mem_of_mem_trimmings mem⟩)

end AboveFold.Parsed
