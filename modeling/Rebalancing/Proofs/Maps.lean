import Std.Data.ExtTreeMap

/-!
# Sorted maps and their entries

A sorted map is the map of its list of entries, and its values are those of the entries.
Entries are altered independently of each other.
-/

namespace Rebalancing

open Std

variable {α β : Type} {cmp : α → α → Ordering} [TransCmp cmp]

/-- The values of a map are the second components of its entries. -/
theorem values_eq_map_toList (map : ExtTreeMap α β cmp) : map.values = map.toList.map Prod.snd := by
  have h : map.values = map.foldr (fun _ value acc => value :: acc) [] := by
    rcases map with ⟨⟨map⟩⟩
    rfl
  rw [h, ExtTreeMap.foldr_eq_foldr_toList]
  induction map.toList with
  | nil => rfl
  | cons entry entries ih => simp [ih]

/-- Inserting the entries of a map one by one gives the map. -/
theorem ofList_toList [DecidableEq α] [LawfulEqCmp cmp] (map : ExtTreeMap α β cmp) :
    ExtTreeMap.ofList map.toList cmp = map := by
  apply ExtTreeMap.ext_getElem?
  intro key
  cases h : map[key]? with
  | some value =>
    have mem := ExtTreeMap.mem_toList_iff_getElem?_eq_some.mpr h
    exact ExtTreeMap.getElem?_ofList_of_mem ReflCmp.compare_self map.distinct_keys_toList mem
  | none =>
    apply ExtTreeMap.getElem?_eq_none
    rw [ExtTreeMap.mem_ofList, ExtTreeMap.map_fst_toList_eq_keys, List.contains_iff_mem,
      ExtTreeMap.mem_keys, ExtTreeMap.mem_iff_isSome_getElem?, h]
    exact Bool.false_ne_true

/-- Two alterations commute if they do where they meet. -/
theorem alter_comm [DecidableEq α] [LawfulEqCmp cmp] (map : ExtTreeMap α β cmp) {key key' : α}
    {change change' : Option β → Option β}
    (comm : key = key' → ∀ value, change' (change value) = change (change' value)) :
    (map.alter key change).alter key' change' = (map.alter key' change').alter key change := by
  refine ExtTreeMap.ext_getElem? fun other => ?_
  simp only [ExtTreeMap.getElem?_alter, LawfulEqCmp.compare_eq_iff_eq]
  by_cases h : key = other
  · subst h
    by_cases h' : key' = key
    · subst h'
      simp only [if_true, comm rfl]
    · simp only [h', Ne.symm h', if_true, if_false]
  · by_cases h' : key' = other
    · subst h'
      simp only [h, Ne.symm h, if_true, if_false]
    · simp only [h, h', if_false]

end Rebalancing
