import Mathlib.Data.List.Nodup
import Rebalancing.Json.Decode

/-!
# Records that differ in some fields

A record is known by what it gives as each of its fields, whether it is an object or an array.
So it can be said that two records are the same but for some fields.  They are if a member or an
item has another value, or if there is a member more.
-/

namespace Rebalancing.Json

variable {names changed changed' : List String} {record record' record'' : Json} {fields : Fields}
  {name other : String}

/-- What a record gives as a field, if it can be read. -/
def field? (names : List String) (record : Json) (name : String) : Option Json :=
  (record.fields? names).bind (·.get? name)

theorem field?_of_fields? (h : record.fields? names = some fields) :
    record.field? names name = fields.get? name := by
  rw [field?, h, Option.bind_some]

theorem exists_fields?_of_field? {json : Json} (h : record.field? names name = some json) :
    ∃ fields, record.fields? names = some fields ∧ fields.get? name = some json :=
  Option.bind_eq_some_iff.mp h

/-- Two records that give the same but for some fields.  Both can be read or neither can. -/
inductive SameBut (names changed : List String) (record record' : Json) : Prop
  | both (fields fields' : Fields) (hfields : record.fields? names = some fields)
      (hfields' : record'.fields? names = some fields')
      (same : ∀ name ∉ changed, fields.get? name = fields'.get? name)
  | neither (hfields : record.fields? names = none) (hfields' : record'.fields? names = none)

namespace SameBut

theorem symm (h : SameBut names changed record record') : SameBut names changed record' record := by
  cases h with
  | both fields fields' hfields hfields' same =>
    exact .both fields' fields hfields' hfields fun name unchanged => (same name unchanged).symm
  | neither hfields hfields' => exact .neither hfields' hfields

theorem trans (h : SameBut names changed record record')
    (h' : SameBut names changed' record' record'') :
    SameBut names (changed ++ changed') record record'' := by
  cases h with
  | both fields fields' hfields hfields' same =>
    cases h' with
    | both between fields'' hbetween hfields'' same' =>
      obtain rfl := Option.some.inj (hfields'.symm.trans hbetween)
      refine .both fields fields'' hfields hfields'' fun name unchanged => ?_
      rw [List.mem_append, not_or] at unchanged
      exact (same name unchanged.1).trans (same' name unchanged.2)
    | neither hbetween _ => cases hfields'.symm.trans hbetween
  | neither hfields hfields' =>
    cases h' with
    | both _ _ hbetween _ _ => cases hfields'.symm.trans hbetween
    | neither _ hfields'' => exact .neither hfields hfields''

/-- If something can be read of one, both can be read. -/
theorem exists_fields? (h : SameBut names changed record record') {json : Json}
    (given : record.field? names name = some json) :
    ∃ fields fields', record.fields? names = some fields ∧ record'.fields? names = some fields' ∧
      ∀ name ∉ changed, fields.get? name = fields'.get? name := by
  cases h with
  | both fields fields' hfields hfields' same => exact ⟨fields, fields', hfields, hfields', same⟩
  | neither hfields _ =>
    obtain ⟨fields, hfields', -⟩ := exists_fields?_of_field? given
    cases hfields.symm.trans hfields'

end SameBut

/-! ## Objects -/

/-- The members of an object that are known. -/
def known (names : List String) (members : List (String × Json)) : List (String × Json) :=
  members.filter fun member => names.contains member.1

theorem sameBut_of_known {members members' : List (String × Json)}
    (distinct : ((known names members).map (·.1)).Nodup ↔ ((known names members').map (·.1)).Nodup)
    (same : ∀ name ∉ changed, (Fields.mk (known names members)).get? name =
      (Fields.mk (known names members')).get? name) :
    SameBut names changed (.object members) (.object members') := by
  by_cases readable : ((known names members).map (·.1)).Nodup
  · exact .both _ _ (if_pos readable) (if_pos (distinct.mp readable)) same
  · exact .neither (if_neg readable) (if_neg fun h => readable (distinct.mpr h))

theorem known_append_cons_of_mem (mem : name ∈ names) (before behind : List (String × Json))
    (value : Json) : known names (before ++ (name, value) :: behind) =
      known names before ++ (name, value) :: known names behind := by
  rw [known, List.filter_append, List.filter_cons_of_pos (by simpa using mem)]
  rfl

theorem known_append_cons_of_not_mem (not_mem : name ∉ names)
    (before behind : List (String × Json)) (value : Json) :
    known names (before ++ (name, value) :: behind) = known names (before ++ behind) := by
  rw [known, known, List.filter_append, List.filter_append,
    List.filter_cons_of_neg (by simpa using not_mem)]

/-- Lookups pass over members with other names. -/
theorem Fields.get?_append_cons (ne : name ≠ other) (before behind : List (String × Json))
    (value : Json) :
    get? ⟨before ++ (name, value) :: behind⟩ other = get? ⟨before ++ behind⟩ other := by
  rw [get?, get?, List.find?_append, List.find?_append, List.find?_cons_of_neg (by simpa using ne)]

/-- A member may have another value. -/
theorem sameBut_value (names : List String) (before behind : List (String × Json)) (name : String)
    (value value' : Json) : SameBut names [name] (.object (before ++ (name, value) :: behind))
      (.object (before ++ (name, value') :: behind)) := by
  by_cases mem : name ∈ names
  · refine sameBut_of_known ?_ fun other unchanged => ?_
    · simp only [known_append_cons_of_mem mem, List.map_append, List.map_cons]
    · have ne : name ≠ other := fun same => unchanged (List.mem_singleton.mpr same.symm)
      rw [known_append_cons_of_mem mem, known_append_cons_of_mem mem, Fields.get?_append_cons ne,
        Fields.get?_append_cons ne]
  · refine sameBut_of_known ?_ fun other _ => ?_ <;>
      rw [known_append_cons_of_not_mem mem, known_append_cons_of_not_mem mem]

/-- There may be a member more. -/
theorem sameBut_member (names : List String) (before behind : List (String × Json)) {name : String}
    (fresh : name ∉ (before ++ behind).map (·.1)) (value : Json) :
    SameBut names [name] (.object (before ++ (name, value) :: behind))
      (.object (before ++ behind)) := by
  by_cases mem : name ∈ names
  · have hknown : known names (before ++ behind) = known names before ++ known names behind :=
      List.filter_append ..
    have fresh : name ∉ (known names before ++ known names behind).map (·.1) := by
      rw [← hknown]
      exact fun mem => fresh (List.map_subset _ (List.filter_subset_self _) mem)
    refine sameBut_of_known ?_ fun other unchanged => ?_
    · rw [known_append_cons_of_mem mem, hknown, List.map_append, List.map_cons,
        List.nodup_middle, ← List.map_append, List.nodup_cons]
      exact and_iff_right fresh
    · have ne : name ≠ other := fun same => unchanged (List.mem_singleton.mpr same.symm)
      rw [known_append_cons_of_mem mem, hknown, Fields.get?_append_cons ne]
  · refine sameBut_of_known ?_ fun other _ => ?_ <;>
      rw [known_append_cons_of_not_mem mem]

/-! ## Arrays -/

/-- Other fields are found where they were. -/
theorem Fields.get?_zip_set {place : Nat} (h : names[place]? = some name) (ne : name ≠ other)
    (items : List Json) (value : Json) :
    get? ⟨names.zip (items.set place value)⟩ other = get? ⟨names.zip items⟩ other := by
  induction names generalizing place items with
  | nil => cases h
  | cons first names ih =>
    cases items with
    | nil => rfl
    | cons item items =>
      cases place with
      | zero =>
        cases h
        rw [List.set_cons_zero, List.zip_cons_cons, List.zip_cons_cons, get?, get?,
          List.find?_cons_of_neg (by simpa using ne), List.find?_cons_of_neg (by simpa using ne)]
      | succ place =>
        have rest := ih h items
        rw [List.set_cons_succ, List.zip_cons_cons, List.zip_cons_cons]
        rw [get?, get?] at rest ⊢
        by_cases found : first = other
        · rw [List.find?_cons_of_pos (by simpa using found),
            List.find?_cons_of_pos (by simpa using found)]
        · rw [List.find?_cons_of_neg (by simpa using found),
            List.find?_cons_of_neg (by simpa using found)]
          exact rest

/-- An item may be another one. -/
theorem sameBut_item {place : Nat} (h : names[place]? = some name) (items : List Json)
    (value : Json) : SameBut names [name] (.array (items.set place value)) (.array items) := by
  by_cases short : items.length ≤ names.length
  · refine .both _ _ (if_pos (by rwa [List.length_set])) (if_pos short) fun other unchanged => ?_
    have ne : name ≠ other := fun same => unchanged (List.mem_singleton.mpr same.symm)
    exact Fields.get?_zip_set h ne items value
  · exact .neither (if_neg (by rwa [List.length_set])) (if_neg short)

end Rebalancing.Json
