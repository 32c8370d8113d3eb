import CallHierarchy.Table
import Mathlib.Data.List.Nodup

/-!
# What stands in a table

A key has the value of its first entry, which is its only one if no key stands in the
table twice. Setting keys that are all different makes a table of just these entries, in
order.
-/

namespace CallHierarchy.Table

variable {κ β : Type} [DecidableEq κ] {table : List (κ × β)} {key : κ} {value : β}

theorem mem_of_get? (isValue : get? table key = some value) : (key, value) ∈ table := by
  rcases Option.map_eq_some_iff.1 isValue with ⟨entry, isFound, rfl⟩
  have isKey : entry.1 = key := by simpa using List.find?_some isFound
  rw [← isKey]
  exact List.mem_of_find?_eq_some isFound

theorem get?_eq_none_iff : get? table key = none ↔ key ∉ table.map (·.1) := by
  simp only [get?, Option.map_eq_none_iff, List.find?_eq_none, decide_eq_true_eq, List.mem_map,
    not_exists, not_and]

theorem get?_of_mem (distinct : (table.map (·.1)).Nodup) (entryMem : (key, value) ∈ table) :
    get? table key = some value := by
  cases isValue : get? table key with
  | none => exact absurd (List.mem_map_of_mem entryMem) (get?_eq_none_iff.1 isValue)
  | some other =>
      have same := List.inj_on_of_nodup_map distinct (mem_of_get? isValue) entryMem rfl
      rw [(Prod.mk.inj same).2]

theorem foldl_set {before entries : List (κ × β)}
    (distinct : ((before ++ entries).map (·.1)).Nodup) :
    entries.foldl (fun table (key, value) => set table key value) before = before ++ entries := by
  induction entries generalizing before with
  | nil => simp
  | cons entry entries ih =>
      have isNew : before.any (·.1 = entry.1) = false := by
        rw [List.map_append, List.nodup_append] at distinct
        simp only [List.any_eq_false, decide_eq_true_eq]
        intro other otherMem
        exact distinct.2.2 other.1 (List.mem_map_of_mem otherMem) entry.1 (by simp)
      have added : set before entry.1 entry.2 = before ++ [entry] := by simp [set, isNew]
      have later := @ih (before ++ [entry]) (by simpa using distinct)
      simpa [added] using later

theorem ofEntries_of_nodup {entries : List (κ × β)} (distinct : (entries.map (·.1)).Nodup) :
    ofEntries entries = entries :=
  foldl_set distinct

end CallHierarchy.Table
