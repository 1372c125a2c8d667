import AboveFold.Proofs.Tree.Forest
import AboveFold.Tree.Walk

/-!
# Cuts

A cut is what is left of branches side by side after some nodes inside them were taken out, and whether
any was. Cuts are made one after another with `bind`. A plan says from the top downwards what goes;
sweeping takes out what says nothing any more, from the inside out. Both mark a top that stays if a child
or a node further down went.
-/

namespace AboveFold

/-- What is left of branches side by side, and whether anything in them was taken out. -/
structure Cut where
  kept : List Branch
  touched : Bool

/-- What a walk left of branches. -/
def Passed.cut (r : Passed) : Cut := ⟨r.branches, r.touched⟩

namespace Cut

/-- Nothing was taken out. -/
def whole (bs : List Branch) : Cut := ⟨bs, false⟩

/-- All was taken out. -/
def gone : Cut := ⟨[], true⟩

/-- Two cuts side by side. -/
def beside (c d : Cut) : Cut := ⟨c.kept ++ d.kept, c.touched || d.touched⟩

/-- Each branch of a list is cut by itself. -/
def each (f : Branch → Cut) (bs : List Branch) : Cut :=
  ⟨bs.flatMap fun b => (f b).kept, bs.any fun b => (f b).touched⟩

/-- What a cut left is cut again. -/
def bind (c : Cut) (f : Branch → Cut) : Cut :=
  ⟨(each f c.kept).kept, c.touched || (each f c.kept).touched⟩

/-- A node over what a cut left of its children. -/
def under (n : Node) (c : Cut) : Branch :=
  .mk { n with modified := n.modified || c.touched } c.kept

/-- A branch whose children were cut. -/
def wrap (n : Node) (c : Cut) : Cut := ⟨[c.under n], c.touched⟩

section

variable {c d : Cut} {n : Node} {b : Branch} {bs cs : List Branch} {f g : Branch → Cut}

@[simp] theorem each_nil (f : Branch → Cut) : each f [] = whole [] := rfl

@[simp] theorem each_cons (f : Branch → Cut) (b : Branch) (bs : List Branch) :
    each f (b :: bs) = (f b).beside (each f bs) := by
  simp [each, beside]

@[simp] theorem beside_whole_nil (c : Cut) : c.beside (whole []) = c := by
  simp [beside, whole]

theorem each_single (f : Branch → Cut) (b : Branch) : each f [b] = f b := by
  rw [each_cons, each_nil, beside_whole_nil]

theorem each_append (f : Branch → Cut) (bs cs : List Branch) :
    each f (bs ++ cs) = (each f bs).beside (each f cs) := by
  simp [each, beside]

theorem each_congr (h : ∀ b ∈ bs, f b = g b) : each f bs = each g bs := by
  induction bs with
  | nil => rfl
  | cons b bs ih =>
    simp only [List.mem_cons, forall_eq_or_imp] at h
    rw [each_cons, each_cons, h.1, ih h.2]

theorem each_eq_whole (h : ∀ b ∈ bs, f b = whole [b]) : each f bs = whole bs := by
  induction bs with
  | nil => rfl
  | cons b bs ih =>
    simp only [List.mem_cons, forall_eq_or_imp] at h
    rw [each_cons, h.1, ih h.2]
    rfl

@[simp] theorem bind_gone (f : Branch → Cut) : gone.bind f = gone := rfl

@[simp] theorem bind_whole (f : Branch → Cut) (bs : List Branch) : (whole bs).bind f = each f bs := by
  simp [bind, whole]

theorem bind_congr (h : ∀ b ∈ c.kept, f b = g b) : c.bind f = c.bind g := by
  rw [bind, bind, each_congr h]

theorem bind_beside (c d : Cut) (f : Branch → Cut) : (c.beside d).bind f = (c.bind f).beside (d.bind f) := by
  simp only [bind, beside, each_append, Cut.mk.injEq, true_and]
  cases c.touched <;> cases d.touched <;> cases (each f c.kept).touched <;> rfl

theorem bind_each (f g : Branch → Cut) (bs : List Branch) :
    (each f bs).bind g = each (fun b => (f b).bind g) bs := by
  induction bs with
  | nil => rfl
  | cons b bs ih => rw [each_cons, each_cons, bind_beside, ih]

theorem bind_eq_self (h : ∀ b ∈ c.kept, f b = whole [b]) : c.bind f = c := by
  rw [bind, each_eq_whole h]
  simp [whole]

@[simp] theorem under_node (n : Node) (c : Cut) :
    (c.under n).node = { n with modified := n.modified || c.touched } := rfl

@[simp] theorem under_children (n : Node) (c : Cut) : (c.under n).children = c.kept := rfl

theorem under_whole (n : Node) (bs : List Branch) : (whole bs).under n = .mk n bs := by
  simp [under, whole]

theorem wrap_whole (n : Node) (bs : List Branch) : (whole bs).wrap n = whole [.mk n bs] := by
  rw [wrap, under_whole]
  rfl

/-- The marks of two cuts, one after the other, add up. -/
theorem under_under (n : Node) (c : Cut) (f : Branch → Cut) :
    (each f c.kept).under (c.under n).node = (c.bind f).under n := by
  simp only [under, Branch.node, bind, Bool.or_assoc]

theorem bind_wrap (n : Node) (c : Cut) (f : Branch → Cut) :
    (c.wrap n).bind f = ⟨(f (c.under n)).kept, c.touched || (f (c.under n)).touched⟩ := by
  rw [bind, wrap, each_single]

/-- A branch whose children were cut goes when it is cut again. -/
theorem bind_wrap_gone (h : f (c.under n) = gone) : (c.wrap n).bind f = gone := by
  rw [bind_wrap, h]
  simp [gone]

/-- A branch whose children were cut stays when it is cut again, and its children are cut again. -/
theorem bind_wrap_wrap (h : f (c.under n) = (each g c.kept).wrap (c.under n).node) :
    (c.wrap n).bind f = (c.bind g).wrap n := by
  rw [bind_wrap, h, wrap, wrap, under_under]
  rfl

end

end Cut

namespace Branch
open Cut

@[simp] theorem node_mk (n : Node) (cs : List Branch) : (mk n cs).node = n := rfl

@[simp] theorem children_mk (n : Node) (cs : List Branch) : (mk n cs).children = cs := rfl

@[simp] theorem id_mk (n : Node) (cs : List Branch) : (mk n cs).id = n.id := rfl

@[simp] theorem kind_mk (n : Node) (cs : List Branch) : (mk n cs).kind = n.kind := rfl

/-- To prove something of a branch, it may be taken to hold of its children. -/
@[elab_as_elim]
theorem induct {P : Branch → Prop} (mk : ∀ n cs, (∀ c ∈ cs, P c) → P (.mk n cs)) (b : Branch) : P b := by
  have cons (c : Branch) (cs : List Branch) (here : P c) (rest : ∀ d ∈ cs, P d) : ∀ d ∈ c :: cs, P d := by
    simp only [List.mem_cons, forall_eq_or_imp]
    exact ⟨here, rest⟩
  exact @Branch.rec P (fun cs => ∀ c ∈ cs, P c) mk (by simp) cons b

/-! ## Plans -/

/-- What becomes of a branch, by the kinds of the nodes above it, nearest first, and by what it holds.
Where a plan says nothing, the top of the branch stays and its children are looked at. -/
abbrev Plan := List Node.Kind → Branch → Option Cut

mutual

/-- Cuts a branch as planned; `above` are the kinds above it. -/
def cut (π : Plan) (above : List Node.Kind) : Branch → Cut
  | mk n cs =>
    match π above (mk n cs) with
    | some c => c
    | none => (cutAll π (n.kind :: above) cs).wrap n

/-- Cuts branches side by side as planned. -/
def cutAll (π : Plan) (above : List Node.Kind) : List Branch → Cut
  | [] => .whole []
  | b :: bs => (cut π above b).beside (cutAll π above bs)

end

/-- A branch whose top stays, with all below it cut as planned. -/
def cutBelow (π : Plan) (above : List Node.Kind) (b : Branch) : Branch :=
  (each (cut π (b.kind :: above)) b.children).under b.node

/-- One plan and then another. -/
def Plan.andThen (π ρ : Plan) : Plan := fun above b =>
  match π above b with
  | some c => some (c.bind (cut ρ above))
  | none => ρ above b

section

variable {π ρ : Plan} {above : List Node.Kind} {b : Branch} {c : Cut}

theorem cutAll_eq (π : Plan) (above : List Node.Kind) (bs : List Branch) :
    cutAll π above bs = each (cut π above) bs := by
  induction bs with
  | nil => rfl
  | cons b bs ih => rw [cutAll, ih, each_cons]

theorem cut_of_some (h : π above b = some c) : cut π above b = c := by
  obtain ⟨n, cs⟩ := b
  rw [cut, h]

theorem cut_of_none (h : π above b = none) :
    cut π above b = (each (cut π (b.kind :: above)) b.children).wrap b.node := by
  obtain ⟨n, cs⟩ := b
  rw [cut, h]
  simp only [cutAll_eq]
  rfl

theorem mem_preorder_of_child {n : Node} {cs : List Branch} {c d : Branch} (mem : c ∈ cs)
    (inside : d ∈ c.preorder) : d ∈ (mk n cs).preorder :=
  mem_preorder.2 (.inr (mem_preorderAll.2 ⟨c, mem, inside⟩))

/-- Where a plan takes nothing, nothing goes. -/
theorem cut_eq_whole
    (spared : ∀ ks, ∀ c ∈ b.preorder, π (ks ++ above) c = none ∨ π (ks ++ above) c = some (.whole [c])) :
    cut π above b = .whole [b] := by
  induction b using induct generalizing above with
  | mk n cs ih =>
    rcases spared [] _ (self_mem_preorder _) with e | e
    · have below : each (cut π (n.kind :: above)) cs = .whole cs := by
        apply each_eq_whole
        intro c mem
        apply ih c mem
        intro ks d inside
        have := spared (ks ++ [n.kind]) d (mem_preorder_of_child mem inside)
        rwa [List.append_assoc] at this
      have kept : cut π above (mk n cs) = (each (cut π (n.kind :: above)) cs).wrap n := cut_of_none e
      rw [kept, below, wrap_whole]
    · exact cut_of_some e

/-- Cutting twice is cutting by one plan and then the other, if the first does not change what the second
says of a top that stays, and that is that it stays or goes. -/
theorem cut_bind_cut
    (stable : ∀ above, ∀ c ∈ b.preorder, π above c = none → ρ above (cutBelow π above c) = ρ above c)
    (decided : ∀ above, ∀ c ∈ b.preorder, π above c = none → ρ above c = none ∨ ρ above c = some .gone) :
    (cut π above b).bind (cut ρ above) = cut (π.andThen ρ) above b := by
  induction b using induct generalizing above with
  | mk n cs ih =>
    cases e : π above (mk n cs) with
    | some c =>
      have both : π.andThen ρ above (mk n cs) = some (c.bind (cut ρ above)) := by simp only [Plan.andThen, e]
      rw [cut_of_some e, cut_of_some both]
    | none =>
      have both : π.andThen ρ above (mk n cs) = ρ above (mk n cs) := by simp only [Plan.andThen, e]
      have same : ρ above (cutBelow π above (mk n cs)) = ρ above (mk n cs) :=
        stable above _ (self_mem_preorder _) e
      have below : (each (cut π (n.kind :: above)) cs).bind (cut ρ (n.kind :: above))
          = each (cut (π.andThen ρ) (n.kind :: above)) cs := by
        rw [bind_each]
        apply each_congr
        intro c mem
        apply ih c mem
        · exact fun above d inside => stable above d (mem_preorder_of_child mem inside)
        · exact fun above d inside => decided above d (mem_preorder_of_child mem inside)
      rw [cut_of_none e]
      rcases decided above _ (self_mem_preorder _) e with e' | e'
      · rw [cut_of_none (both.trans e'), children, kind, node, ← below]
        exact bind_wrap_wrap (cut_of_none (same.trans e'))
      · rw [cut_of_some (both.trans e')]
        exact bind_wrap_gone (cut_of_some (same.trans e'))

theorem cutBelow_under (π : Plan) (above : List Node.Kind) (n : Node) (c : Cut) :
    cutBelow π above (c.under n) = (c.bind (cut π (n.kind :: above))).under n :=
  under_under n c _

theorem cutBelow_cutBelow
    (stable : ∀ above, ∀ c ∈ b.preorder, π above c = none → ρ above (cutBelow π above c) = ρ above c)
    (decided : ∀ above, ∀ c ∈ b.preorder, π above c = none → ρ above c = none ∨ ρ above c = some .gone) :
    cutBelow ρ above (cutBelow π above b) = cutBelow (π.andThen ρ) above b := by
  obtain ⟨n, cs⟩ := b
  have below : (each (cut π (n.kind :: above)) cs).bind (cut ρ (n.kind :: above))
      = each (cut (π.andThen ρ) (n.kind :: above)) cs := by
    rw [bind_each]
    apply each_congr
    intro c mem
    apply cut_bind_cut
    · exact fun above d inside => stable above d (mem_preorder_of_child mem inside)
    · exact fun above d inside => decided above d (mem_preorder_of_child mem inside)
  have twice := cutBelow_under ρ above n (each (cut π (n.kind :: above)) cs)
  rw [below] at twice
  exact twice

end

/-! ## Sweeping -/

/-- Takes the empty rules and at-rules out of a branch, innermost first. -/
def clear (b : Branch) : Cut := ⟨b.sweep.kept, !b.sweep.gone.isEmpty⟩

theorem sweepAll_eq (bs : List Branch) :
    (sweepAll bs).kept = (each clear bs).kept ∧ (!(sweepAll bs).gone.isEmpty) = (each clear bs).touched := by
  induction bs with
  | nil => exact ⟨rfl, rfl⟩
  | cons b bs ih =>
    simp only [sweepAll, each_cons, beside, ih.1, ← ih.2, clear, true_and]
    cases b.sweep.gone <;> rfl

/-- A branch without the empty rules and at-rules below its top. -/
def swept (b : Branch) : Branch := (each clear b.children).under b.node

/-- A branch whose children are swept goes if it is empty then. -/
theorem clear_eq (b : Branch) :
    b.clear = if b.swept.isEmptied then .gone else (each clear b.children).wrap b.node := by
  obtain ⟨n, cs⟩ := b
  obtain ⟨kept, touched⟩ := sweepAll_eq cs
  have top : mk { n with modified := n.modified || !(sweepAll cs).gone.isEmpty } (sweepAll cs).kept
      = swept (mk n cs) := by
    rw [kept, touched]
    rfl
  rw [clear, sweep, top]
  split
  · rfl
  · rw [wrap, touched]
    rfl

theorem clear_of_isEmptied {b : Branch} (h : b.swept.isEmptied = true) : b.clear = .gone := by
  rw [clear_eq, if_pos h]

theorem clear_of_not_isEmptied {b : Branch} (h : b.swept.isEmptied = false) :
    b.clear = (each clear b.children).wrap b.node := by
  rw [clear_eq, h]
  rfl

theorem swept_under (n : Node) (c : Cut) : (c.under n).swept = (c.bind clear).under n := under_under n c clear

/-- A branch over what is left of its children is swept as a whole. -/
theorem wrap_bind_clear (n : Node) (c : Cut) :
    (c.wrap n).bind clear = if ((c.bind clear).under n).isEmptied then .gone else (c.bind clear).wrap n := by
  have top := swept_under n c
  cases emptied : ((c.bind clear).under n).isEmptied with
  | true => exact bind_wrap_gone (clear_of_isEmptied (top ▸ emptied))
  | false => exact bind_wrap_wrap (clear_of_not_isEmptied (top ▸ emptied))

/-- What a sweep leaves of a branch holds nothing empty. -/
theorem full_clear (b : Branch) : ∀ c ∈ preorderAll b.clear.kept, c.isEmptied = false := by
  induction b using induct with
  | mk n cs ih =>
    cases emptied : (swept (mk n cs)).isEmptied with
    | true =>
      rw [clear_of_isEmptied emptied]
      simp [gone]
    | false =>
      rw [clear_of_not_isEmptied emptied]
      intro c mem
      rw [wrap, preorderAll_cons, preorderAll_nil, List.append_nil] at mem
      rcases mem_preorder.1 mem with rfl | mem
      · exact emptied
      · obtain ⟨d, hd, inside⟩ := mem_preorderAll.1 mem
        obtain ⟨e, he, left⟩ := List.mem_flatMap.1 hd
        exact ih e he c (mem_preorderAll.2 ⟨d, left, inside⟩)

theorem full_swept (b : Branch) : ∀ c ∈ preorderAll b.swept.children, c.isEmptied = false := by
  intro c mem
  obtain ⟨d, hd, inside⟩ := mem_preorderAll.1 mem
  obtain ⟨e, he, left⟩ := List.mem_flatMap.1 hd
  exact full_clear e c (mem_preorderAll.2 ⟨d, left, inside⟩)

/-- Where nothing is empty, nothing goes. -/
theorem clear_eq_whole {b : Branch} (full : ∀ c ∈ b.preorder, c.isEmptied = false) : b.clear = .whole [b] := by
  induction b using induct with
  | mk n cs ih =>
    have below : each clear cs = .whole cs := by
      apply each_eq_whole
      intro c mem
      apply ih c mem
      exact fun d inside => full d (mem_preorder_of_child mem inside)
    have same : swept (mk n cs) = mk n cs := by
      rw [swept, children, below, node, under_whole]
    have top : (swept (mk n cs)).isEmptied = false := by
      rw [same]
      exact full _ (self_mem_preorder _)
    rw [clear_of_not_isEmptied top, children, below, node, wrap_whole]

end Branch

end AboveFold
