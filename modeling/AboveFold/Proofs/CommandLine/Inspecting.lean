import AboveFold.CommandLine.Run
import Mathlib.Data.List.Nodup

/-!
# Inspections in any order

Stylesheets that are inspected together are done in an order that nobody chose. What is printed and whether the
inspection succeeds does not depend on it, as the reports are put back into the order of the inputs. What is told of
failures does, but only in the order in which it is told (`inspect_alike`). Where failures come in the same order,
nothing depends on the order of all else (`Outcome.ofReports_eq`).
-/

namespace AboveFold.CommandLine

/-- What is told of failures, if there are any. -/
def failureText : List String → Option String
  | [] => none
  | messages => some ("❌ Failed to inspect some inputs:\n" ++ "\n".intercalate (messages.map ("  * " ++ ·)))

/-- Two inspections end in the same way, but for the order in which they tell of failures. -/
structure Outcome.Alike (o o' : Outcome) : Prop where
  success : o.success = o'.success
  output : o.output = o'.output
  error : ∃ messages messages', messages.Perm messages' ∧ o.error = failureText messages ∧ o'.error = failureText messages'

/-- Reading side by side gives each file once, with its place in the list, and leaves the store as it is. The order is
up to the store. -/
def FileAccess.ReadsAll (files : FileAccess (StateM Files)) : Prop :=
  ∀ (f : Files) (paths : List String), ∃ arrivals : List Arrival, (files.readAll paths).run f = (arrivals, f)
    ∧ arrivals.Perm (paths.zipIdx.map fun (path, index) => ⟨index, path, f.read path⟩)

variable {failures : List String} {completed completed' : List Completed}

namespace Completed

/-- Reports are put back into the order of the inputs. -/
theorem reports_perm (perm : completed.Perm completed') (once : (completed.map index).Nodup) :
    reports completed = reports completed' := by
  have sorted (cs : List Completed) : (cs.mergeSort fun a b => a.index ≤ b.index).Pairwise fun a b => a.index ≤ b.index := by
    have ordered : (cs.mergeSort fun a b => a.index ≤ b.index).Pairwise fun a b => decide (a.index ≤ b.index) = true :=
      List.pairwise_mergeSort (fun a b c ab bc => by simp at *; omega) (fun a b => by simp; omega) cs
    simpa using ordered
  have same : (completed.mergeSort fun a b => a.index ≤ b.index) = completed'.mergeSort fun a b => a.index ≤ b.index := by
    have merged := (List.mergeSort_perm completed fun a b => a.index ≤ b.index).trans
      (perm.trans (List.mergeSort_perm completed' fun a b => a.index ≤ b.index).symm)
    refine merged.eq_of_pairwise (fun a b ha hb le ge => ?_) (sorted completed) (sorted completed')
    rw [List.mem_mergeSort] at ha hb
    exact List.inj_on_of_nodup_map once ha (perm.mem_iff.2 hb) (Nat.le_antisymm le ge)
  rw [reports, reports, same]

end Completed

namespace Outcome

/-- An inspection succeeds when nothing fails. -/
theorem ofReports_success (failures : List String) (completed : List Completed) :
    (ofReports failures completed).success = (failures ++ completed.filterMap Completed.failure?).isEmpty := by
  unfold ofReports
  dsimp only
  cases failures ++ completed.filterMap Completed.failure? <;> rfl

theorem ofReports_error (failures : List String) (completed : List Completed) :
    (ofReports failures completed).error = failureText (failures ++ completed.filterMap Completed.failure?) := by
  unfold ofReports
  dsimp only
  cases failures ++ completed.filterMap Completed.failure? <;> rfl

/-- What is printed depends on the reports only. -/
theorem ofReports_output (same : Completed.reports completed = Completed.reports completed') :
    (ofReports failures completed).output = (ofReports failures completed').output := by
  unfold ofReports
  dsimp only
  rw [same]
  cases failures ++ completed.filterMap Completed.failure? <;>
    cases failures ++ completed'.filterMap Completed.failure? <;> rfl

/-- **The order in which stylesheets are done** shows in the order of failures and in nothing else. -/
theorem ofReports_alike (failures : List String) (perm : completed.Perm completed')
    (once : (completed.map Completed.index).Nodup) : (ofReports failures completed).Alike (ofReports failures completed') := by
  have messages := (perm.filterMap Completed.failure?).append_left failures
  refine ⟨?_, ofReports_output (Completed.reports_perm perm once), _, _, messages, ofReports_error .., ofReports_error ..⟩
  rw [ofReports_success, ofReports_success, Bool.eq_iff_iff, List.isEmpty_iff, List.isEmpty_iff]
  exact ⟨fun none => (none ▸ messages).nil_eq.symm, fun none => (none ▸ messages).eq_nil⟩

/-- Where failures come in the same order, the order of all else does not show. -/
theorem ofReports_eq (failures : List String) (perm : completed.Perm completed')
    (once : (completed.map Completed.index).Nodup)
    (same : completed.filterMap Completed.failure? = completed'.filterMap Completed.failure?) :
    ofReports failures completed = ofReports failures completed' := by
  rw [ofReports, ofReports, Completed.reports_perm perm once, same]

/-- Of two files that are no text, the one that is done first is told of first. -/
example :
    let a : Completed := .ofArrival ⟨0, "a.css", .ok [255]⟩
    let b : Completed := .ofArrival ⟨1, "b.css", .ok [255]⟩
    (ofReports [] [a, b]).error ≠ (ofReports [] [b, a]).error := by
  intro a b
  rw [ofReports_error, ofReports_error]
  decide +kernel

end Outcome

theorem FileAccess.readsAll_memory : FileAccess.memory.ReadsAll :=
  fun f _ => ⟨f.readAll _, rfl, List.mergeSort_perm ..⟩

/-- The stylesheets that are inspected have places of their own in the list of inputs. -/
theorem nodup_index_of_perm {arrivals : List Arrival} {f : Files} {paths : List String}
    (perm : arrivals.Perm (paths.zipIdx.map fun (path, index) => ⟨index, path, f.read path⟩)) :
    ((arrivals.map Completed.ofArrival).map Completed.index).Nodup := by
  have places := (perm.map Completed.ofArrival).map Completed.index
  have numbers : ((paths.zipIdx.map fun (path, index) => (⟨index, path, f.read path⟩ : Arrival)).map
      Completed.ofArrival).map Completed.index = List.range' 0 paths.length := by
    rw [List.map_map, List.map_map, ← List.zipIdx_map_snd 0 paths]
    rfl
  rw [numbers] at places
  exact places.nodup_iff.2 List.nodup_range'

/-- What an inspection finds, and what becomes of it. -/
theorem inspect_run (files : FileAccess (StateM Files)) (r : InspectRequest) (f : Files) :
    let searched := (r.paths.mapM files.find).run f
    ((inspect files r).run f).1 = .ofReports (searched.1.flatten.filterMap Found.failure?)
      (((files.readAll (r.inputs searched.1.flatten)).run searched.2).1.map Completed.ofArrival) := rfl

/-- **Inspections do not depend on the order in which stylesheets are done**, but for the order in which they tell of
failures. -/
theorem inspect_alike {files files' : FileAccess (StateM Files)} (find : files.find = files'.find) (all : files.ReadsAll)
    (all' : files'.ReadsAll) (r : InspectRequest) (f : Files) :
    ((inspect files r).run f).1.Alike ((inspect files' r).run f).1 := by
  rw [inspect_run, inspect_run, ← find]
  generalize (r.paths.mapM files.find).run f = searched
  obtain ⟨arrivals, done, perm⟩ := all searched.2 (r.inputs searched.1.flatten)
  obtain ⟨arrivals', done', perm'⟩ := all' searched.2 (r.inputs searched.1.flatten)
  rw [done, done']
  exact Outcome.ofReports_alike _ ((perm.trans perm'.symm).map _) (nodup_index_of_perm perm)

end AboveFold.CommandLine
