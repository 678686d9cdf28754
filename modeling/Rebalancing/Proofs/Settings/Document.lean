import Rebalancing.Proofs.Toml.Document
import Rebalancing.Settings.Document

/-! # Settings read back from their document

However settings are written one by one, a document of all of them is read as the same settings if
each is read back on its own. -/

namespace Rebalancing.Settings

open Toml Toml.Reader

/-- The value that a setting stands for. -/
def Setting.toToml : Setting → Toml
  | .text value => .string value
  | .number value => .integer value

/-- A setting that is read back from what is written for it, up to the end of its line. -/
structure IsReadBack (write : Setting → String) (setting : Setting) : Prop where
  notBlank : (write setting).toList.head?.all fun c => !Quoted.isBlank c
  value_eq : ∀ rest, Reader.value (depthLimit - 1) ((write setting).toList ++ '\n' :: rest) =
    some (setting.toToml, '\n' :: rest)

/-- The entries that settings make. -/
def toEntries (settings : List (String × Setting)) : Entries :=
  settings.map fun (name, setting) => (name, .value setting.toToml)

variable {write : Setting → String}

theorem toList_lines (part : Section) : (part.lines write).toList =
    '[' :: part.name.toList ++ [']', '\n'] ++ part.entries.flatMap fun (name, setting) =>
      name.toList ++ ' ' :: '=' :: ' ' :: (write setting).toList ++ ['\n'] := by
  simp [Section.lines, List.flatMap_def, Function.comp_def]

theorem toList_document (parts : List Section) : (document parts write).toList =
    ['\n'].intercalate (parts.map fun part => (part.lines write).toList) := by
  simp [document, Function.comp_def]

theorem leads_settings {settings : List (String × Setting)} (draft : Draft)
    (hbare : ∀ setting ∈ settings, IsBare setting.1.toList)
    (hread : ∀ setting ∈ settings, IsReadBack write setting.2)
    (hnew : ∀ setting ∈ settings, draft.current.2.get? setting.1 = none)
    (hnodup : (settings.map Prod.fst).Nodup) :
    Leads (settings.flatMap fun (name, setting) =>
        name.toList ++ ' ' :: '=' :: ' ' :: (write setting).toList ++ ['\n']) draft
      { draft with current := (draft.current.1, draft.current.2 ++ toEntries settings) } := by
  induction settings generalizing draft with
  | nil => simpa [toEntries] using Leads.refl draft
  | cons first settings ih =>
    obtain ⟨name, setting⟩ := first
    obtain ⟨hbare, hbares⟩ := List.forall_mem_cons.mp hbare
    obtain ⟨hread, hreads⟩ := List.forall_mem_cons.mp hread
    obtain ⟨hnew, hnews⟩ := List.forall_mem_cons.mp hnew
    obtain ⟨hfresh, hnodup⟩ := List.nodup_cons.mp hnodup
    have hline := leads_assignment hbare hread.notBlank hread.value_eq
      (by rw [String.ofList_toList]; exact Draft.assign_of_get?_none hnew)
    have hnews' : ∀ other ∈ settings,
        (draft.current.2 ++ [(name, Entry.value setting.toToml)]).get? other.1 = none := by
      intro other hother
      rw [Entries.get?_append_of_ne, hnews other hother]
      exact fun same => hfresh (List.mem_map.mpr ⟨other, hother, same⟩)
    have hrest := ih { draft with
      current := (draft.current.1, draft.current.2 ++ [(name, .value setting.toToml)]) }
      hbares hreads hnews' hnodup
    simpa [toEntries] using hline.trans hrest

/-- A section whose names need no quotes and occur once, and whose settings are read back. -/
structure Section.IsReadable (write : Setting → String) (part : Section) : Prop where
  isBare : IsBare part.name.toList
  forall_isBare : ∀ setting ∈ part.entries, IsBare setting.1.toList
  forall_isReadBack : ∀ setting ∈ part.entries, IsReadBack write setting.2
  nodup : (part.entries.map Prod.fst).Nodup

/-- A section is read as a table behind those that are there. -/
theorem leads_section {part : Section} (hpart : part.IsReadable write) {draft : Draft}
    {root : Entries} (hroot : draft.settle = some root) (hnew : root.get? part.name = none) :
    ∃ after : Draft, Leads (part.lines write).toList draft after ∧
      after.settle = some (root ++ [(part.name, .table .header (toEntries part.entries))]) := by
  have hheader := leads_header hpart.isBare
    (by rw [String.ofList_toList]; exact Draft.openTable_of_get?_none hroot hnew)
  have hsettings := leads_settings { root, path := [part.name] } hpart.forall_isBare
    hpart.forall_isReadBack (fun _ _ => rfl) hpart.nodup
  refine ⟨_, toList_lines part ▸ hheader.trans hsettings, ?_⟩
  exact Draft.settle_of_get?_none rfl rfl hnew

/-- The entries of a document of sections. -/
def Section.toEntries (parts : List Section) : Entries :=
  parts.map fun part => (part.name, .table .header (Settings.toEntries part.entries))

theorem leads_document {parts : List Section} (hparts : ∀ part ∈ parts, part.IsReadable write)
    (hnodup : (parts.map Section.name).Nodup) {draft : Draft} {root : Entries}
    (hroot : draft.settle = some root) (hnew : ∀ part ∈ parts, root.get? part.name = none) :
    ∃ after : Draft, Leads (document parts write).toList draft after ∧
      after.settle = some (root ++ Section.toEntries parts) := by
  induction parts generalizing draft root with
  | nil => exact ⟨draft, .refl draft, by simpa [Section.toEntries] using hroot⟩
  | cons part parts ih =>
    obtain ⟨hpart, hparts⟩ := List.forall_mem_cons.mp hparts
    obtain ⟨hnewPart, hnew⟩ := List.forall_mem_cons.mp hnew
    obtain ⟨hfresh, hnodup⟩ := List.nodup_cons.mp hnodup
    obtain ⟨between, hfirst, hbetween⟩ := leads_section hpart hroot hnewPart
    have hnew' : ∀ other ∈ parts, Entries.get? (root ++
        [(part.name, .table .header (Settings.toEntries part.entries))]) other.name = none := by
      intro other hother
      rw [Entries.get?_append_of_ne, hnew other hother]
      exact fun same => hfresh (List.mem_map.mpr ⟨other, hother, same⟩)
    obtain ⟨after, hrest, hafter⟩ := ih hparts hnodup hbetween hnew'
    refine ⟨after, ?_, by simpa [Section.toEntries] using hafter⟩
    rcases parts with _ | ⟨next, parts⟩
    · simpa [document] using hfirst.trans hrest
    · simpa [document] using hfirst.trans ((leads_blank between).trans hrest)

/-! ## The sections of settings -/

theorem isBare_sections (settings : Settings) :
    ∀ part ∈ settings.sections.map fun part => (part.name, part.entries.map Prod.fst),
      IsBare part.1.toList ∧ (∀ name ∈ part.2, IsBare name.toList) ∧ part.2.Nodup := by
  change ∀ part ∈ (sections {}).map fun part => (part.name, part.entries.map Prod.fst), _
  decide +kernel

theorem isReadable_of_mem {settings : Settings} {part : Section} (h : part ∈ settings.sections)
    (hread : ∀ setting ∈ part.entries, IsReadBack write setting.2) : part.IsReadable write := by
  obtain ⟨hname, hbare, hnodup⟩ := isBare_sections settings _ (List.mem_map_of_mem h)
  exact ⟨hname, fun _ hsetting => hbare _ (List.mem_map_of_mem hsetting), hread, hnodup⟩

theorem nodup_sections (settings : Settings) : (settings.sections.map Section.name).Nodup := by
  change ((sections {}).map Section.name).Nodup
  decide +kernel

theorem uint64?_integer (n : UInt64) : Toml.uint64? (.integer n.toNat) = some n := by
  have := n.toNat_lt
  simp [Toml.uint64?, Toml.nat?]
  omega

theorem uint32?_integer (n : UInt32) : Toml.uint32? (.integer n.toNat) = some n := by
  have := n.toNat_lt
  simp [Toml.uint32?, Toml.nat?]
  omega

theorem uint16?_integer (n : UInt16) : Toml.uint16? (.integer n.toNat) = some n := by
  have := n.toNat_lt
  simp [Toml.uint16?, Toml.nat?]
  omega

theorem ofEntries?_sections (settings : Settings) :
    ofEntries? (entriesToToml (Section.toEntries settings.sections)) = some settings := by
  simp [ofEntries?, Section.toEntries, sections, tuningEntries, Settings.toEntries, entriesToToml,
    Entry.toToml, Setting.toToml, Toml.setting, rpcPathOfToml?, RefreshSettings.ofToml?,
    StorageSettings.ofToml?, RebalanceSettings.ofToml?, Aging.ofToml?, ApiSettings.ofToml?,
    LoggingSettings.ofToml?, Toml.given?, Toml.text?, uint64?_integer, uint32?_integer,
    uint16?_integer]

/-- Settings are read back from a document of all of them, whatever lines without settings stand in
front of it. -/
theorem parse?_document {settings : Settings} {text : String} {front : List Char}
    (hread : ∀ part ∈ settings.sections, ∀ setting ∈ part.entries, IsReadBack write setting.2)
    (hfront : Leads front {} {}) (hmark : dropMark text.toList = text.toList)
    (htext : text.toList = front ++ (document settings.sections write).toList) :
    parse? text = some settings := by
  obtain ⟨after, hdocument, hafter⟩ := leads_document
    (fun part hpart => isReadable_of_mem hpart (hread part hpart)) (nodup_sections settings)
    (show ({} : Draft).settle = some [] from rfl) fun _ _ => rfl
  obtain ⟨fuel, -, hparse⟩ := parse?_of_leads (htext.trans (List.append_nil _).symm) hmark
    (hfront.trans hdocument)
  have hfinish : after.finish = some (entriesToToml (Section.toEntries settings.sections)) :=
    congrArg (Option.map entriesToToml) hafter
  rw [parse?, hparse, lines_nil, Option.bind_some]
  change after.finish.bind ofEntries? = some settings
  rw [hfinish]
  exact ofEntries?_sections settings

/-- A path that has been settled is the one of the settings. -/
theorem rpcPath_of_settled {settings : Settings} {text : String} {root : Entries}
    (h : Settled ["lightning", "rpc_path"] (.string text) root)
    (hsettings : ofEntries? (entriesToToml root) = some settings) : settings.rpcPath = text := by
  simp only [ofEntries?, Option.bind_eq_bind, Option.bind_eq_some_iff] at hsettings
  obtain ⟨rpcPath, hpath, _, -, _, -, _, -, _, -, _, -, _, -, ⟨⟩⟩ := hsettings
  obtain ⟨inner, hlightning, hsettled⟩ := h.exists_inner
  have hgiven : rpcPathOfToml? (.table (entriesToToml inner)) = some text := by
    simp [rpcPathOfToml?, Toml.given?, Toml.setting, find?_entriesToToml, hsettled.get?_eq,
      Entry.toToml, Toml.text?]
  rw [Toml.setting, find?_entriesToToml, hlightning, Option.map_some, Entry.toToml] at hpath
  exact Option.some.inj (hpath.symm.trans hgiven)

end Rebalancing.Settings
