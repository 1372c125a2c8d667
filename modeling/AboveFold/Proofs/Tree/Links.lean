import AboveFold.Proofs.Tree.Forest
import Mathlib.Data.List.Nodup

/-!
# Numbers and links

A tree is `Numbered` when the numbers below its size are given to its nodes, each to one. Then a number
finds one branch, and what is said of parents and children agrees.
-/

namespace AboveFold.Tree
open Branch

/-- The branches of a tree side by side, the style sheet first. -/
def forest (t : Tree) : List Branch := t.sheet :: t.loose

/-- All branches inside a tree, attached and loose. -/
def branches (t : Tree) : List Branch := preorderAll t.forest

/-- The numbers of all nodes. -/
def ids (t : Tree) : List Nat := idsAll t.forest

/-- All branches inside a tree with the nodes above them. -/
def located (t : Tree) : List Located := locateAll [] t.forest

/-- The numbers below the size are those of the nodes, and none is given twice. -/
def Numbered (t : Tree) : Prop :=
  ∀ n, (n < t.size → t.ids.count n = 1) ∧ (t.size ≤ n → t.ids.count n = 0)

variable {t : Tree} {b c : Branch} {l : Located} {n id : Nat}

theorem mem_ids : n ∈ t.ids ↔ ∃ b ∈ t.branches, b.id = n := mem_idsAll

theorem mem_branches : b ∈ t.branches ↔ b ∈ t.sheet.preorder ∨ b ∈ preorderAll t.loose := by
  simp [branches, forest]

theorem count_ids (t : Tree) (n : Nat) : t.ids.count n = t.sheet.ids.count n + (idsAll t.loose).count n := by
  simp [ids, forest, List.count_append]

theorem sheet_mem_branches (t : Tree) : t.sheet ∈ t.branches :=
  mem_preorderAll_of_mem (List.mem_cons_self ..)

theorem Numbered.once (h : t.Numbered) : t.ids.Nodup := by
  rw [List.nodup_iff_count]
  intro n
  have := h n
  omega

theorem Numbered.mem_ids_iff (h : t.Numbered) : n ∈ t.ids ↔ n < t.size := by
  have := h n
  rw [← List.count_pos_iff]
  omega

theorem Numbered.id_lt (h : t.Numbered) (mem : b ∈ t.branches) : b.id < t.size :=
  h.mem_ids_iff.1 (mem_ids.2 ⟨b, mem, rfl⟩)

theorem Numbered.unique (h : t.Numbered) (hb : b ∈ t.branches) (hc : c ∈ t.branches) (e : b.id = c.id) :
    b = c :=
  List.inj_on_of_nodup_map h.once hb hc e

theorem Numbered.once_children (h : t.Numbered) (mem : b ∈ t.branches) : (idsAll b.children).Nodup := by
  have sub := preorder_sublist_preorderAll t.forest b mem
  cases b with
  | mk n cs => exact ((List.sublist_cons_self _ _).trans sub |>.map Branch.id).nodup h.once

/-! ## Finding branches -/

theorem findSome?_find? (id : Nat) (bs : List Branch) :
    bs.findSome? (Branch.find? id) = (preorderAll bs).find? (·.id = id) := by
  induction bs with
  | nil => rfl
  | cons b bs ih =>
    rw [List.findSome?_cons, ih, preorderAll_cons, List.find?_append, ← Branch.find?]
    cases Branch.find? id b <;> rfl

theorem findSome?_ancestors? (id : Nat) (bs : List Branch) :
    bs.findSome? (Branch.ancestors? id) = ((locateAll [] bs).find? (·.branch.id = id)).map Located.above := by
  induction bs with
  | nil => rfl
  | cons b bs ih =>
    rw [List.findSome?_cons, ih, locateAll, List.find?_append, Branch.ancestors?]
    cases List.find? _ (locate [] b) <;> rfl

theorem mem_of_find? (e : t.find? id = some b) : b ∈ t.branches ∧ b.id = id := by
  rw [Tree.find?, findSome?_find?] at e
  exact ⟨List.mem_of_find?_eq_some e, by simpa using List.find?_some e⟩

theorem Numbered.find?_eq_some (h : t.Numbered) : t.find? id = some b ↔ b ∈ t.branches ∧ b.id = id := by
  refine ⟨mem_of_find?, fun ⟨mem, e⟩ => ?_⟩
  cases found : t.find? id with
  | none =>
    rw [Tree.find?, findSome?_find?, List.find?_eq_none] at found
    exact absurd e (by simpa using found b mem)
  | some c =>
    obtain ⟨hc, e'⟩ := mem_of_find? found
    rw [h.unique mem hc (e.trans e'.symm)]

/-! ## Finding what stands above -/

theorem mem_branches_of_located (mem : l ∈ t.located) : l.branch ∈ t.branches := Located.branch_mem mem

/-- The nodes above a number are those above the branch that has it. -/
theorem Numbered.ancestors_eq (h : t.Numbered) (mem : l ∈ t.located) : t.ancestors l.branch.id = l.above := by
  rw [Tree.ancestors, findSome?_ancestors?]
  have once : (t.located.map fun l => l.branch.id).Nodup := by
    have : t.located.map (fun l => l.branch.id) = t.ids := by
      rw [ids, idsAll, ← locateAll_branch [] t.forest, List.map_map]
      rfl
    exact this ▸ h.once
  change ((t.located.find? _).map Located.above).getD [] = l.above
  cases found : t.located.find? (·.branch.id = l.branch.id) with
  | none => simpa using List.find?_eq_none.1 found l mem
  | some m =>
    have e : m.branch.id = l.branch.id := by simpa using List.find?_some found
    rw [List.inj_on_of_nodup_map once (List.mem_of_find?_eq_some found) mem e]
    rfl

theorem exists_located_of_parent? {p : Node} (e : t.parent? id = some p) :
    ∃ l ∈ t.located, l.branch.node = p ∧ ∃ c ∈ l.branch.children, c.id = id := by
  rw [Tree.parent?, Tree.ancestors, findSome?_ancestors?] at e
  cases found : (locateAll [] (t.sheet :: t.loose)).find? (·.branch.id = id) with
  | none => simp [found] at e
  | some l =>
    have mem : l ∈ t.located := List.mem_of_find?_eq_some found
    have id_eq : l.branch.id = id := by simpa using List.find?_some found
    simp only [found, Option.map_some, Option.getD_some] at e
    rcases locateAll_cases t.forest [] l mem with ⟨top, -⟩ | ⟨p', hp, above, child⟩
    · simp [top] at e
    · rw [above, List.head?_cons, Option.some.injEq] at e
      exact ⟨p', hp, e, l.branch, child, id_eq⟩

/-- What has a node above it has a place in the tree. -/
theorem exists_located_of_ancestor {m : Node} (mem : m ∈ t.ancestors id) : ∃ l ∈ t.located, l.branch.id = id := by
  rw [Tree.ancestors, findSome?_ancestors?] at mem
  cases found : (locateAll [] (t.sheet :: t.loose)).find? (·.branch.id = id) with
  | none => simp [found] at mem
  | some l => exact ⟨l, List.mem_of_find?_eq_some found, by simpa using List.find?_some found⟩

/-- A node inside a branch is its top or has it above. -/
theorem Numbered.top_or_ancestor (h : t.Numbered) (mem : b ∈ t.branches) (inside : id ∈ b.ids) :
    id = b.id ∨ b.node ∈ t.ancestors id := by
  obtain ⟨p, hp, rfl⟩ := exists_located mem []
  obtain ⟨x, hx, rfl⟩ := List.mem_map.1 inside
  rw [← locate_branch p.above p.branch] at hx
  obtain ⟨l, hl, rfl⟩ := List.mem_map.1 hx
  rw [h.ancestors_eq (locate_subset_locateAll t.forest [] p hp hl)]
  exact (Located.node_mem_above hl).imp_left fun e => by rw [e]

end AboveFold.Tree
