import Rebalancing.Proofs.Text.Split
import Rebalancing.Proofs.Wire.RoundTrip
import Rebalancing.Storage.GraphFile

/-!
# What saving does to the graph file

A snapshot is written beside the graph file and then moved into its place.  So a save that
succeeds leaves exactly the snapshot in the file, and one that fails, at whichever of its
steps, leaves the file as it was.
-/

namespace Rebalancing

open Std

/-! ## Where a snapshot is written first -/

/-- A name changes with a new extension in which there is a dot. -/
theorem Path.withExtension_ne {extension : String} (dotted : '.' ∈ extension.toList)
    (name : String) : withExtension name extension ≠ name := by
  intro same
  have hchars : stem name.toList ++ '.' :: extension.toList = name.toList := by
    have h := congrArg String.toList same
    simpa [withExtension] using h
  -- without an extension of its own the name only gets longer
  have longer : stem name.toList ≠ name.toList := by
    intro h
    have hlength := congrArg List.length hchars
    rw [h, List.length_append, List.length_cons] at hlength
    omega
  unfold stem at longer hchars
  split at longer
  case h_1 after before hsplit =>
    rw [hsplit] at hchars
    split at longer
    case isTrue => exact longer rfl
    case isFalse hne =>
      obtain ⟨hname, fresh⟩ := Text.eq_of_splitOnce hsplit
      have hreverse : name.toList = before.reverse ++ '.' :: after.reverse := by
        rw [← List.reverse_reverse name.toList, hname]
        simp
      simp only [if_neg hne] at hchars
      rw [hreverse, List.append_cancel_left_eq, List.cons.injEq] at hchars
      rw [hchars.2, List.mem_reverse] at dotted
      exact fresh dotted
  case h_2 => exact longer rfl

namespace Disk

variable {disk disk' : Disk} {location place : Location} {entry : Entry}

/-! ## What a change leaves alone -/

theorem entry?_put_of_ne (ne : place ≠ location) :
    Disk.entry? (disk.put place entry) location = disk.entry? location := by
  unfold entry? put
  rw [ExtTreeMap.getElem?_insert, if_neg fun h => ne (LawfulEqOrd.eq_of_compare h)]

theorem read?_put_of_ne (ne : place ≠ location) :
    (disk.put place entry).read? location = disk.read? location := by
  unfold read?
  rw [entry?_put_of_ne ne]

/-- No file can stand where the root or the working directory is. -/
theorem not_base_of_admitsFile (admits : disk.admitsFile place) : ¬(place = [] ∨ place = ["/"]) := by
  intro base
  simp [admitsFile, isDirectory, entry?, base] at admits

theorem read?_put_self (other : ¬(place = [] ∨ place = ["/"])) (content : List UInt8) :
    (disk.put place (.file content)).read? place = some content := by
  unfold read? entry? put
  rw [if_neg other, ExtTreeMap.getElem?_insert_self]

theorem contains_of_read? {content : List UInt8} (hread : disk.read? location = some content) :
    disk.contains location := by
  rw [read?] at hread
  split at hread
  case h_1 hfile => rw [contains, hfile, Option.isSome_some]
  case h_2 => cases hread

/-- Directories are made on the way, and none of them at a location further on. -/
theorem read?_makeDirectories {base names : List String}
    (h : disk.makeDirectories base names = some disk')
    (further : base.length + names.length < location.length) :
    disk'.read? location = disk.read? location := by
  induction names generalizing disk base with
  | nil =>
    cases h
    rfl
  | cons name rest ih =>
    have further' : (base ++ [name]).length + rest.length < location.length := by
      simp only [List.length_append, List.length_cons, List.length_nil] at further ⊢
      omega
    have ne : base ++ [name] ≠ location := by
      rintro rfl
      omega
    rw [makeDirectories] at h
    split at h
    · cases h
    · exact ih h further'
    · split at h
      · exact (ih h further').trans (read?_put_of_ne ne)
      · cases h

/-- A file stays as it is while directories are made, wherever they are. -/
theorem read?_makeDirectories_of_file {base names : List String} {content : List UInt8}
    (hread : disk.read? location = some content)
    (h : disk.makeDirectories base names = some disk') : disk'.read? location = some content := by
  induction names generalizing disk base with
  | nil =>
    cases h
    exact hread
  | cons name rest ih =>
    rw [makeDirectories] at h
    split at h
    case h_1 => cases h
    case h_2 => exact ih hread h
    case h_3 hnone =>
      split at h
      case isTrue =>
        refine ih ((read?_put_of_ne ?_).trans hread) h
        rintro rfl
        rw [read?, hnone] at hread
        cases hread
      case isFalse => cases h

/-! ## Steps -/

theorem perform_write {content : List UInt8} (h : disk.perform (.write place content) = some disk') :
    disk.admitsFile place ∧ disk' = disk.put place (.file content) := by
  rw [perform] at h
  split at h
  case isTrue admits => exact ⟨admits, (Option.some.inj h).symm⟩
  case isFalse => cases h

theorem perform_rename {source target : Location} {content : List UInt8}
    (hread : disk.read? source = some content)
    (h : disk.perform (.rename source target) = some disk') :
    disk'.read? target = some content := by
  rw [perform, hread] at h
  simp only at h
  split at h
  case isTrue admits =>
    cases h
    exact read?_put_self (not_base_of_admitsFile admits) content
  case isFalse => cases h

theorem performAll_cons_of_some {step : FileStep} {rest : List FileStep}
    (h : disk.perform step = some disk') : disk.performAll (step :: rest) = disk'.performAll rest := by
  rw [performAll, h]

theorem performAll_cons_of_none {step : FileStep} {rest : List FileStep}
    (h : disk.perform step = none) : disk.performAll (step :: rest) = (disk, false) := by
  rw [performAll, h]

end Disk

namespace GraphFile

variable {disk : Disk} {location : Location} {snapshot : Snapshot}

theorem staging_ne (nonempty : location ≠ []) : staging location ≠ location := by
  intro same
  have hlast := congrArg List.getLast? same
  rw [staging, List.getLast?_eq_some_getLast nonempty] at hlast
  simp only [Option.map_some, Option.toList_some, List.getLast?_append, List.getLast?_singleton,
    Option.some_or, Option.some.injEq] at hlast
  exact Path.withExtension_ne (by decide) _ hlast

/-- Whether a save went as it should: if it succeeded, the snapshot is in the file, and if it failed,
the file is as it was. -/
def IsSaved (disk : Disk) (location : Location) (snapshot : Snapshot) (result : Disk × Bool) : Prop :=
  if result.2 then result.1.read? location = some (Wire.encode snapshot)
  else result.1.read? location = disk.read? location

/-- Each step of a save may be refused, and only the last one touches the file. -/
theorem save_isSaved (disk : Disk) (location : Location) (snapshot : Snapshot) :
    IsSaved disk location snapshot (save disk location snapshot) := by
  unfold save saveSteps
  by_cases empty : location = []
  · subst empty
    have hrefused : disk.perform (.write (staging []) (Wire.encode snapshot)) = none := by
      simp [Disk.perform, staging, Disk.admitsFile, Disk.isDirectory, Disk.entry?]
    rw [Disk.performAll_cons_of_some rfl, Disk.performAll_cons_of_none hrefused]
    exact rfl
  cases hcreate : disk.perform (.createDirectories location.dropLast) with
  | none =>
    rw [Disk.performAll_cons_of_none hcreate]
    exact rfl
  | some created =>
    rw [Disk.performAll_cons_of_some hcreate]
    have hcreated : created.read? location = disk.read? location := by
      refine Disk.read?_makeDirectories hcreate ?_
      have := List.length_pos_iff.mpr empty
      rw [List.length_nil, List.length_dropLast]
      omega
    cases hwrite : created.perform (.write (staging location) (Wire.encode snapshot)) with
    | none =>
      rw [Disk.performAll_cons_of_none hwrite]
      exact hcreated
    | some written =>
      rw [Disk.performAll_cons_of_some hwrite]
      obtain ⟨admits, rfl⟩ := Disk.perform_write hwrite
      cases hrename : Disk.perform _ (.rename (staging location) location) with
      | none =>
        rw [Disk.performAll_cons_of_none hrename]
        exact (Disk.read?_put_of_ne (staging_ne empty)).trans hcreated
      | some renamed =>
        have other := Disk.not_base_of_admitsFile admits
        rw [Disk.performAll_cons_of_some hrename]
        exact Disk.perform_rename (Disk.read?_put_self other (Wire.encode snapshot)) hrename

theorem load_save {saved : Disk} (h : save disk location snapshot = (saved, true)) :
    load saved location = some snapshot := by
  have hread := save_isSaved disk location snapshot
  rw [h] at hread
  rw [load, show saved.read? location = _ from hread]
  exact Wire.decode?_encode snapshot

theorem load_save_of_failed {disk' : Disk} (h : save disk location snapshot = (disk', false)) :
    load disk' location = load disk location := by
  have hread := save_isSaved disk location snapshot
  rw [h] at hread
  rw [load, show disk'.read? location = _ from hread]
  rfl

end GraphFile

end Rebalancing
