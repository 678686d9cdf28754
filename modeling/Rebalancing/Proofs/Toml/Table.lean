import Rebalancing.Toml.Table

/-! # What later lines cannot change

A value stays where it is once a line has put it into a table with a header of its own: whatever the
lines after it are, each of them leaves such values alone or makes no document. -/

namespace Rebalancing.Toml

namespace Entries

variable {entries : Entries} {name other : String} {entry : Entry}

@[simp] theorem get?_nil : get? [] name = none := rfl

theorem get?_cons (first : String × Entry) :
    get? (first :: entries) name = if first.1 = name then some first.2 else entries.get? name := by
  by_cases h : first.1 = name <;> simp [get?, h]

theorem get?_append_self (h : entries.get? name = none) :
    (entries ++ [(name, entry)]).get? name = some entry := by
  rw [get?, Option.map_eq_none_iff] at h
  simp [get?, h]

theorem get?_append_of_ne (h : other ≠ name) :
    (entries ++ [(name, entry)]).get? other = entries.get? other := by
  simp [get?, h.symm]

theorem any_eq_isSome_get? : entries.any (·.1 = name) = (entries.get? name).isSome := by
  induction entries with
  | nil => rfl
  | cons first entries ih => by_cases h : first.1 = name <;> simp [get?_cons, h, ih]

theorem put_of_get?_none (h : entries.get? name = none) :
    entries.put name entry = entries ++ [(name, entry)] := by
  simp [put, any_eq_isSome_get?, h]

theorem get?_put_self : (entries.put name entry).get? name = some entry := by
  cases h : entries.get? name with
  | none => rw [put_of_get?_none h, get?_append_self h]
  | some old =>
    rw [put, if_pos (by rw [any_eq_isSome_get?, h, Option.isSome_some])]
    induction entries with
    | nil => cases h
    | cons first entries ih =>
      by_cases hfirst : first.1 = name
      · simp [get?_cons, hfirst]
      · rw [get?_cons, if_neg hfirst] at h
        simp [get?_cons, hfirst, ih h]

theorem get?_put_of_ne (hne : other ≠ name) :
    (entries.put name entry).get? other = entries.get? other := by
  rw [put]
  split
  case isTrue h =>
    clear h
    induction entries with
    | nil => rfl
    | cons first entries ih =>
      rw [List.map_cons, get?_cons, get?_cons, ih]
      by_cases hfirst : first.1 = name <;> simp [hfirst, hne.symm]
  case isFalse => exact get?_append_of_ne hne

theorem erase_of_get?_none (h : entries.get? name = none) : entries.erase name = entries := by
  rw [get?, Option.map_eq_none_iff, List.find?_eq_none] at h
  exact List.filter_eq_self.mpr fun entry hentry => by simpa using h entry hentry

theorem get?_erase_of_ne (h : other ≠ name) :
    (entries.erase name).get? other = entries.get? other := by
  rw [get?, get?, erase, List.find?_filter]
  congr 2
  funext entry
  by_cases hentry : entry.1 = other <;> simp [hentry, h]

end Entries

/-! ## Settled values -/

/-- A value that a path leads to through tables with headers of their own. -/
inductive Settled : List String → Toml → Entries → Prop where
  | here {name : String} {value : Toml} {entries : Entries}
      (h : entries.get? name = some (.value value)) : Settled [name] value entries
  | inside {name : String} {path : List String} {value : Toml} {entries inner : Entries}
      (h : entries.get? name = some (.table .header inner)) (settled : Settled path value inner) :
      Settled (name :: path) value entries

namespace Settled

variable {name next : String} {path : List String} {value : Toml} {entries : Entries}

theorem get?_eq : Settled [name] value entries → entries.get? name = some (.value value)
  | .here h => h
  | .inside _ settled => nomatch settled

theorem exists_inner : Settled (name :: next :: path) value entries →
    ∃ inner, entries.get? name = some (.table .header inner) ∧ Settled (next :: path) value inner
  | .inside h settled => ⟨_, h, settled⟩

end Settled

/-- Whether an entry can lead to settled values. -/
def Entry.isFixed : Entry → Bool
  | .value _ => true
  | .table origin _ => origin = .header
  | .tables _ => false

/-- The values settled before are settled after. -/
def Kept (before after : Entries) : Prop :=
  ∀ path value, Settled path value before → Settled path value after

namespace Kept

variable {before after : Entries} {name : String}

theorem refl (entries : Entries) : Kept entries entries := fun _ _ settled => settled

/-- Tables that differ in one name which nothing settled depends on. -/
theorem of_get?_eq (hname : ∀ old, before.get? name = some old → old.isFixed = false)
    (h : ∀ other, other ≠ name → after.get? other = before.get? other) : Kept before after := by
  have hother {other : String} {old : Entry} (hold : before.get? other = some old)
      (hfixed : old.isFixed) : after.get? other = some old := by
    rw [h other, hold]
    rintro rfl
    rw [hname old hold] at hfixed
    cases hfixed
  rintro path value (⟨hvalue⟩ | ⟨htable, settled⟩)
  · exact .here (hother hvalue rfl)
  · exact .inside (hother htable rfl) settled

theorem put {entry : Entry} (h : ∀ old, before.get? name = some old → old.isFixed = false) :
    Kept before (before.put name entry) :=
  of_get?_eq h fun _ hne => Entries.get?_put_of_ne hne

theorem erase (h : ∀ old, before.get? name = some old → old.isFixed = false) :
    Kept before (before.erase name) :=
  of_get?_eq h fun _ hne => Entries.get?_erase_of_ne hne

theorem append {entry : Entry} (h : before.get? name = none) :
    Kept before (before ++ [(name, entry)]) :=
  Entries.put_of_get?_none h ▸ put (by simp [h])

/-- A table changes in a way that keeps what is settled in it. -/
theorem put_table {origin : Origin} {inner inner' : Entries}
    (h : before.get? name = some (.table origin inner)) (hinner : Kept inner inner') :
    Kept before (before.put name (.table origin inner')) := by
  rintro path value (@⟨other, _, _, hvalue⟩ | @⟨other, path, _, _, contents, htable, settled⟩)
  · refine .here ?_
    rwa [Entries.get?_put_of_ne]
    rintro rfl
    cases h.symm.trans hvalue
  · by_cases hne : other = name
    · subst other
      cases h.symm.trans htable
      exact .inside Entries.get?_put_self (hinner path value settled)
    · exact .inside (by rwa [Entries.get?_put_of_ne hne]) settled

end Kept

/-- A change of a table that leaves its origin and what is settled in it. -/
def Keeps (change : Origin × Entries → Option (Origin × Entries)) : Prop :=
  ∀ before after, change before = some after → after.1 = before.1 ∧ Kept before.2 after.2

theorem keeps_updateAt {change : Origin × Entries → Option (Origin × Entries)} (h : Keeps change)
    (origin : Origin) (path : List String) : Keeps (updateAt origin change path) := by
  induction path with
  | nil => exact h
  | cons name path ih =>
    rintro ⟨own, entries⟩ after hafter
    rw [updateAt] at hafter
    split at hafter
    case h_1 hnone =>
      simp only [Option.bind_eq_bind, Option.bind_eq_some_iff] at hafter
      obtain ⟨⟨origin', inner⟩, -, ⟨⟩⟩ := hafter
      exact ⟨rfl, .put (by simp [hnone])⟩
    case h_2 inner contents htable =>
      split at hafter
      · cases hafter
      · simp only [Option.bind_eq_bind, Option.bind_eq_some_iff] at hafter
        obtain ⟨⟨origin', inner'⟩, hinner, ⟨⟩⟩ := hafter
        obtain ⟨rfl, kept⟩ := ih _ _ hinner
        exact ⟨rfl, .put_table htable kept⟩
    case h_3 last before htables =>
      simp only [Option.bind_eq_bind, Option.bind_eq_some_iff] at hafter
      obtain ⟨last', -, ⟨⟩⟩ := hafter
      exact ⟨rfl, .put (by simp [htables, Entry.isFixed])⟩
    all_goals cases hafter

theorem keeps_addValue (through : Bool) (name : String) (value : Toml) :
    Keeps (addValue through name value) := by
  rintro ⟨origin, entries⟩ after hafter
  rw [addValue] at hafter
  split at hafter
  · cases hafter
  · cases hafter
    refine ⟨rfl, .append ?_⟩
    simp_all

/-! ## Drafts -/

namespace Draft

variable {draft after : Draft} {name : String} {path : List String} {value : Toml}
  {root : Entries}

/-- A value of a table at the top that is there to stay, be it the current table or another. -/
inductive Holds (name : String) (path : List String) (value : Toml) (draft : Draft) : Prop where
  | placed (hpath : draft.path ≠ []) (settled : Settled (name :: path) value draft.root)
  | current (hpath : draft.path = [name]) (hlisted : draft.listed = false)
      (horigin : draft.current.1 = .header) (settled : Settled path value draft.current.2)

theorem keeps_place (name : String) (listed : Bool) (current : Origin × Entries) :
    Keeps fun (origin, entries) =>
      match entries.get? name, listed with
      | none, true => some (origin, entries.put name (.tables [current]))
      | some (.tables children), true =>
        some (origin, entries.put name (.tables (current :: children)))
      | none, false => some (origin, entries.put name (.table current.1 current.2))
      | some (.table .implied _), false =>
        some (origin, entries.put name (.table current.1 current.2))
      | _, _ => none := by
  rintro ⟨origin, entries⟩ after hafter
  dsimp only at hafter
  split at hafter
  all_goals cases hafter
  all_goals exact ⟨rfl, .put (by simp_all [Entry.isFixed])⟩

/-- A current table of a plain header at the top goes where there is none yet, or an implied one. -/
theorem settle_of_path_eq (hpath : draft.path = [name]) (hlisted : draft.listed = false) :
    draft.settle = match draft.root.get? name with
      | none | some (.table .implied _) =>
        some (draft.root.put name (.table draft.current.1 draft.current.2))
      | _ => none := by
  rw [settle, hpath, hlisted]
  simp only [List.getLast?_singleton, List.dropLast_singleton, updateAt]
  split <;> simp_all

theorem Holds.settle (h : draft.Holds name path value) (hroot : draft.settle = some root) :
    Settled (name :: path) value root := by
  cases h with
  | placed hpath settled =>
    rw [Draft.settle, List.getLast?_eq_some_getLast hpath] at hroot
    obtain ⟨⟨origin, _⟩, hupdate, rfl⟩ := Option.map_eq_some_iff.mp hroot
    exact (keeps_updateAt (keeps_place _ _ _) _ _ _ _ hupdate).2 _ _ settled
  | current hpath hlisted horigin settled =>
    rw [settle_of_path_eq hpath hlisted, horigin] at hroot
    split at hroot
    all_goals cases hroot
    all_goals exact .inside Entries.get?_put_self settled

theorem keeps_take (name : String) :
    Keeps fun (origin, entries) =>
      match entries.get? name with
      | none | some (.table .implied _) => some (origin, entries.erase name)
      | _ => none := by
  rintro ⟨origin, entries⟩ after hafter
  dsimp only at hafter
  split at hafter
  all_goals cases hafter
  all_goals exact ⟨rfl, .erase (by simp_all [Entry.isFixed])⟩

theorem keeps_look (name : String) :
    Keeps fun (origin, entries) =>
      match entries.get? name with
      | none | some (.tables _) => some (origin, entries)
      | _ => none := by
  rintro ⟨origin, entries⟩ after hafter
  dsimp only at hafter
  split at hafter
  all_goals cases hafter
  all_goals exact ⟨rfl, .refl _⟩

theorem ne_nil_of_getLast? {header : List String} {last : String}
    (h : header.getLast? = some last) : header ≠ [] := by
  rintro rfl
  cases h

theorem Holds.openTable (h : draft.Holds name path value) {header : List String}
    (hafter : draft.openTable header = some after) : after.Holds name path value := by
  simp only [Draft.openTable, Option.bind_eq_bind, Option.bind_eq_some_iff] at hafter
  obtain ⟨root, hroot, last, hlast, ⟨origin, rest⟩, hupdate, ⟨⟩⟩ := hafter
  exact .placed (ne_nil_of_getLast? hlast)
    ((keeps_updateAt (keeps_take last) _ _ _ _ hupdate).2 _ _ (h.settle hroot))

theorem Holds.openListed (h : draft.Holds name path value) {header : List String}
    (hafter : draft.openListed header = some after) : after.Holds name path value := by
  simp only [Draft.openListed, Option.bind_eq_bind, Option.bind_eq_some_iff] at hafter
  obtain ⟨root, hroot, last, hlast, ⟨origin, rest⟩, hupdate, ⟨⟩⟩ := hafter
  exact .placed (ne_nil_of_getLast? hlast)
    ((keeps_updateAt (keeps_look last) _ _ _ _ hupdate).2 _ _ (h.settle hroot))

theorem Holds.assign (h : draft.Holds name path value) {through : List String} {last : String}
    {added : Toml} (hafter : draft.assign through last added = some after) :
    after.Holds name path value := by
  obtain ⟨current, hassign, rfl⟩ := Option.map_eq_some_iff.mp hafter
  obtain ⟨horigin, kept⟩ := keeps_updateAt (keeps_addValue _ _ _) _ _ _ _ hassign
  cases h with
  | placed hpath settled => exact .placed hpath settled
  | current hpath hlisted hheader settled =>
    exact .current hpath hlisted (horigin.trans hheader) (kept _ _ settled)

/-! ## Names used for the first time -/

theorem settle_of_get?_none (hpath : draft.path = [name]) (hlisted : draft.listed = false)
    (h : draft.root.get? name = none) :
    draft.settle = some (draft.root ++ [(name, .table draft.current.1 draft.current.2)]) := by
  simp only [settle_of_path_eq hpath hlisted, h, Entries.put_of_get?_none h]

theorem openTable_of_get?_none (hroot : draft.settle = some root) (h : root.get? name = none) :
    draft.openTable [name] = some { root, path := [name] } := by
  simp [openTable, openTable.entriesAt, updateAt, hroot, h, Entries.erase_of_get?_none h]

theorem assign_of_get?_none (h : draft.current.2.get? name = none) :
    draft.assign [] name value =
      some { draft with
        current := (draft.current.1, draft.current.2 ++ [(name, .value value)]) } := by
  simp [assign, Toml.assign, updateAt, addValue, h]

end Draft

/-! ## Finished documents -/

theorem find?_entriesToToml (entries : Entries) (name : String) :
    (entriesToToml entries).find? (·.1 = name) =
      (entries.get? name).map fun entry => (name, entry.toToml) := by
  induction entries with
  | nil => rfl
  | cons first entries ih =>
    obtain ⟨other, entry⟩ := first
    rw [entriesToToml, List.find?_cons, Entries.get?_cons, ih]
    by_cases h : other = name <;> simp [h]

end Rebalancing.Toml
