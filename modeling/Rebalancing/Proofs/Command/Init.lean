import Mathlib.Data.List.Chain
import Rebalancing.Command.Init
import Rebalancing.Command.Launch
import Rebalancing.Proofs.Settings.Document
import Rebalancing.Proofs.Storage.GraphFile
import Rebalancing.Proofs.Toml.Quoted

/-!
# What a node makes of its first configuration

The first configuration is a fixed text around the path it is written for, which stands between
quotes without escapes.  The text is a document of the default settings (`firstConfig_eq`).  So a node
that is launched with it gets that path, and the defaults of everything else, if and only if no
character of the path needs an escape.
-/

namespace Rebalancing.Command

open Settings Toml Toml.Reader

/-! ## Settings written plainly -/

/-- A setting as it stands in the first configuration: a text without escapes, or a number. -/
def plainly : Setting → String
  | .text value => "\"" ++ value ++ "\""
  | .number value => Decimal.text value

/-- A setting that is written as it is meant: a text without characters that need an escape, or a
number within 63 bits. -/
def isPlain : Setting → Bool
  | .text value => value.toList.all Quoted.isUnescaped
  | .number value => value < 0x8000000000000000

theorem isReadBack_plainly {setting : Setting} (h : isPlain setting) :
    IsReadBack plainly setting := by
  cases setting with
  | text value =>
    have hwritten (rest : List Char) : (plainly (.text value)).toList ++ '\n' :: rest =
        '"' :: (value.toList ++ '"' :: '\n' :: rest) := by simp [plainly]
    have hread (rest : List Char) := Quoted.read_unescaped (List.all_eq_true.mp h) rest
    refine ⟨by simp [plainly, Quoted.isBlank], fun rest => ?_⟩
    simp only [hwritten, value_quote, hread, Option.map_some, String.ofList_toList, Setting.toToml]
  | number value =>
    have hwritten : (plainly (.number value)).toList = Decimal.digits value := String.toList_ofList
    refine ⟨?_, fun rest => hwritten ▸ value_digits _ (of_decide_eq_true h) rest⟩
    rw [hwritten, Option.all_eq_true]
    intro c hc
    have hdigit := Decimal.isDigit_of_mem_digits (List.mem_of_head? hc)
    rw [Bool.not_eq_true', Quoted.isBlank, Bool.or_eq_false_iff, decide_eq_false_iff_not,
      decide_eq_false_iff_not]
    refine ⟨?_, ?_⟩
    all_goals rintro rfl
    all_goals exact absurd hdigit (by decide)

/-- The lines in front of the first setting. -/
def heading : String := "# Circular Node Configuration\n\n"

theorem leads_heading : Leads heading.toList {} {} :=
  (leads_comment " Circular Node Configuration".toList (by decide) {}).trans
    (leads_blank {})

section

variable {rpcPath : String}

/-- The path stands alone in the first section. -/
theorem sections_eq : Settings.sections { rpcPath } =
    ⟨"lightning", [("rpc_path", .text rpcPath)]⟩ :: (Settings.sections {}).tail := rfl

/-- The lines behind that of the path. -/
def remainder : List Char := '\n' :: (document (Settings.sections {}).tail plainly).toList

theorem toList_document_eq : (document (Settings.sections { rpcPath }) plainly).toList =
    '[' :: "lightning".toList ++ [']', '\n'] ++ ("rpc_path".toList ++ ' ' :: '=' :: ' ' :: '"' ::
      (rpcPath.toList ++ '"' :: '\n' :: remainder)) := by
  have hintercalate (first : List Char) :
      ['\n'].intercalate (first ::
        (Settings.sections {}).tail.map fun part => (part.lines plainly).toList) =
      first ++ remainder := by
    rw [remainder, toList_document]
    rfl
  rw [sections_eq, toList_document, List.map_cons, hintercalate, toList_lines]
  simp [plainly]

theorem toList_beforePath : beforePath.toList = heading.toList ++
    ('[' :: "lightning".toList ++ [']', '\n'] ++ ("rpc_path".toList ++ [' ', '=', ' ', '"'])) := by
  decide +kernel

/-- What stands behind the path is the rest of the defaults. -/
theorem behindPath_eq :
    behindPath = "\"\n" ++ "\n" ++ document (Settings.sections {}).tail plainly := by
  decide +kernel

theorem toList_behindPath : behindPath.toList = '"' :: '\n' :: remainder := by
  simp [behindPath_eq, remainder]

/-- The text with the path inserted is the document of the default settings for that path. -/
theorem firstConfig_eq : firstConfig rpcPath =
    heading ++ document (Settings.sections { rpcPath }) plainly := by
  rw [← String.toList_inj, firstConfig, String.toList_append, String.toList_append,
    toList_beforePath, toList_behindPath, String.toList_append, toList_document_eq]
  simp only [List.append_assoc, List.cons_append, List.nil_append]

theorem toList_firstConfig : (firstConfig rpcPath).toList =
    heading.toList ++ (document (Settings.sections { rpcPath }) plainly).toList := by
  rw [firstConfig_eq, String.toList_append]

theorem dropMark_firstConfig :
    dropMark (firstConfig rpcPath).toList = (firstConfig rpcPath).toList := by
  rw [toList_firstConfig]
  simp [heading, dropMark]

theorem isPlain_defaults : ∀ part ∈ (Settings.sections {}).tail, ∀ setting ∈ part.entries,
    isPlain setting.2 := by
  decide +kernel

/-- A path without characters that need an escape is read back, and the defaults with it. -/
theorem parse?_firstConfig (h : ∀ c ∈ rpcPath.toList, Quoted.isUnescaped c) :
    Settings.parse? (firstConfig rpcPath) = some { rpcPath } := by
  refine parse?_document ?_ leads_heading dropMark_firstConfig toList_firstConfig
  rw [sections_eq]
  refine List.forall_mem_cons.mpr ⟨?_, fun part hpart setting hsetting =>
    isReadBack_plainly (isPlain_defaults part hpart setting hsetting)⟩
  rintro setting hsetting
  obtain rfl := List.mem_singleton.mp hsetting
  exact isReadBack_plainly (List.all_eq_true.mpr h)

/-- No two quotes stand side by side in what follows the path. -/
theorem isChain_remainder : remainder.IsChain fun c d => c ≠ '"' ∨ d ≠ '"' := by
  simp only [remainder, toList_document, toList_lines]
  decide +kernel

theorem not_closing_remainder : ¬ Quoted.closing <:+: remainder := by
  intro h
  have hchain := List.IsChain.infix isChain_remainder h
  exact absurd hchain (by decide)

/-- The path of the settings is read from its own line: no other line can give or change it. -/
theorem exists_read_of_parse? {settings : Settings}
    (h : Settings.parse? (firstConfig rpcPath) = some settings) :
    ∃ text left,
      Quoted.read ('"' :: (rpcPath.toList ++ '"' :: '\n' :: remainder)) = some (text, left) ∧
        settings.rpcPath = String.ofList text := by
  have hheader : Leads ('[' :: "lightning".toList ++ [']', '\n']) {} { path := ["lightning"] } :=
    leads_header (show IsBare "lightning".toList by decide)
      (by rw [String.ofList_toList]; rfl)
  have htext : (firstConfig rpcPath).toList =
      heading.toList ++ ('[' :: "lightning".toList ++ [']', '\n']) ++ ("rpc_path".toList ++
        ' ' :: '=' :: ' ' :: '"' :: (rpcPath.toList ++ '"' :: '\n' :: remainder)) := by
    rw [toList_firstConfig, toList_document_eq, ← List.append_assoc]
  obtain ⟨fuel, hfuel, hparse⟩ :=
    parse?_of_leads htext dropMark_firstConfig (leads_heading.trans hheader)
  rw [Settings.parse?, hparse, Option.bind_eq_some_iff] at h
  obtain ⟨entries, hentries, hsettings⟩ := h
  obtain ⟨⟨after, left⟩, hlines, hfinish⟩ := Option.bind_eq_some_iff.mp hentries
  obtain ⟨fuel, rfl⟩ := Nat.exists_eq_succ_of_ne_zero (Nat.ne_zero_of_lt hfuel)
  -- the line of the path comes next, and all that follows it only keeps what it has settled
  rw [Reader.lines, get_bind, if_neg (by simp)] at hlines
  obtain ⟨between, behind, hline, hlines⟩ := exists_of_bind hlines
  obtain ⟨text, left, hread, rfl⟩ := exists_of_line_quote (by decide) rfl hline
  obtain ⟨root, hroot, rfl⟩ := Option.map_eq_some_iff.mp hfinish
  rw [String.ofList_toList] at hlines
  have holds : after.Holds "lightning" ["rpc_path"] (.string (String.ofList text)) :=
    holds_lines (.current rfl rfl rfl (.here (Entries.get?_append_self rfl))) hlines
  exact ⟨text, left, hread, rpcPath_of_settled (holds.settle hroot) hsettings⟩

/-- A path that is read back had no characters that need an escape. -/
theorem unescaped_of_parse? {settings : Settings}
    (h : Settings.parse? (firstConfig rpcPath) = some settings)
    (hpath : settings.rpcPath = rpcPath) : ∀ c ∈ rpcPath.toList, Quoted.isUnescaped c := by
  obtain ⟨text, left, hread, htext⟩ := exists_read_of_parse? h
  rw [hpath] at htext
  have hsame : rpcPath.toList = text := by rw [htext, String.toList_ofList]
  exact Quoted.unescaped_of_read not_closing_remainder (hread.trans (by rw [hsame]))

end

/-! ## The file that is left -/

section

variable {disk disk' : Disk} {directory rpcPath : String}

theorem run_perform (step : FileStep) (disk : Disk) : (Disk.files.perform step).run disk =
    match disk.perform step with
    | some disk' => (true, disk')
    | none => (false, disk) := by
  change StateT.run (match disk.perform step with
    | some disk' => do
      set disk'
      return true
    | none => return false : StateM Disk Bool) disk = _
  cases disk.perform step <;> rfl

theorem run_performAll (steps : List FileStep) (disk : Disk) :
    (Disk.files.performAll steps).run disk =
      ((disk.performAll steps).2, (disk.performAll steps).1) := by
  induction steps generalizing disk with
  | nil => rfl
  | cons step steps ih =>
    rw [Files.performAll, StateT.run_bind, run_perform, Disk.performAll]
    cases disk.perform step with
    | none => rfl
    | some disk' => exact ih disk'

theorem run_load (path : String) (disk : Disk) :
    (Launch.load Disk.files path).run disk =
      (if disk.contains (Path.location path) then
        (disk.read? (Path.location path)).bind fun bytes =>
          (String.fromUTF8? ⟨bytes.toArray⟩).bind Settings.parse?
      else some {}, disk) := by
  change StateT.run (if disk.contains (Path.location path) then _ else _
    : StateM Disk (Option Settings)) disk = _
  split <;> rfl

/-- The steps that write the file, and what is written. -/
def writing (directory rpcPath : String) : List FileStep := [
  .createDirectories (Path.location directory),
  .write (Path.location (Path.join directory configName)) (firstConfig rpcPath).toUTF8.toList]

/-- A run says something once the file is written, and after that it can only make a directory. -/
theorem runInit_cases {outcome : Outcome}
    (hrun : (runInit Disk.files directory rpcPath).run disk = (outcome, disk'))
    (hsaid : outcome.output ≠ "") :
    ∃ written, disk.performAll (writing directory rpcPath) = (written, true) ∧
      (disk' = written ∨
        ∃ location, written.perform (.createDirectories location) = some disk') := by
  rw [runInit, StateT.run_bind] at hrun
  change StateT.run (if disk.contains _ then _ else _ : StateM Disk Outcome) disk = _ at hrun
  split at hrun
  · cases hrun
    exact absurd rfl hsaid
  · rw [StateT.run_bind, run_performAll] at hrun
    cases hwritten : disk.performAll (writing directory rpcPath) with
    | mk written all =>
      rw [writing] at hwritten
      rw [hwritten] at hrun
      cases all with
      | false => 
        cases hrun
        exact absurd rfl hsaid
      | true =>
        change StateT.run (_ >>= _ : StateM Disk Outcome) written = _ at hrun
        rw [StateT.run_bind, run_perform] at hrun
        split at hrun
        case h_1 made hmade =>
          cases hrun
          exact ⟨written, rfl, .inr ⟨_, hmade⟩⟩
        case h_2 =>
          cases hrun
          exact ⟨written, rfl, .inl rfl⟩

theorem read?_of_performAll {written : Disk}
    (h : disk.performAll (writing directory rpcPath) = (written, true)) :
    written.read? (Path.location (Path.join directory configName)) =
      some (firstConfig rpcPath).toUTF8.toList := by
  rw [writing] at h
  cases hmade : disk.perform (.createDirectories (Path.location directory)) with
  | none =>
    rw [Disk.performAll_cons_of_none hmade] at h
    cases h
  | some made =>
    rw [Disk.performAll_cons_of_some hmade] at h
    cases hput : made.perform (.write (Path.location (Path.join directory configName))
        (firstConfig rpcPath).toUTF8.toList) with
    | none =>
      rw [Disk.performAll_cons_of_none hput] at h
      cases h
    | some put =>
      rw [Disk.performAll_cons_of_some hput] at h
      cases h
      obtain ⟨admits, rfl⟩ := Disk.perform_write hput
      exact Disk.read?_put_self (Disk.not_base_of_admitsFile admits) _

/-- A launch finds what was written. -/
theorem run_load_of_runInit {outcome : Outcome}
    (hrun : (runInit Disk.files directory rpcPath).run disk = (outcome, disk'))
    (hsaid : outcome.output ≠ "") :
    (Launch.load Disk.files (Path.join directory configName)).run disk' =
      (Settings.parse? (firstConfig rpcPath), disk') := by
  obtain ⟨written, hwritten, hafter⟩ := runInit_cases hrun hsaid
  have hread := read?_of_performAll hwritten
  have hleft : disk'.read? (Path.location (Path.join directory configName)) =
      some (firstConfig rpcPath).toUTF8.toList := by
    obtain rfl | ⟨location, hmade⟩ := hafter
    · exact hread
    · exact Disk.read?_makeDirectories_of_file hread hmade
  rw [run_load, if_pos (Disk.contains_of_read? hleft), hleft, Option.bind_some,
    Json.fromUTF8?_toUTF8, Option.bind_some]

/-- **The first configuration.**  A node that is launched with the configuration that was written for
a path gets the path, and the defaults of everything else, if and only if no character of the path
needs an escape.  Otherwise it gets another path, or no settings at all. -/
theorem first_configuration_read_back {outcome : Outcome}
    (hrun : (runInit Disk.files directory rpcPath).run disk = (outcome, disk'))
    (hsaid : outcome.output ≠ "") :
    ((Launch.load Disk.files (Path.join directory configName)).run disk' =
        (some { rpcPath }, disk') ↔ ∀ c ∈ rpcPath.toList, Quoted.isUnescaped c) ∧
      ∀ settings, (Launch.load Disk.files (Path.join directory configName)).run disk' =
        (some settings, disk') → settings.rpcPath = rpcPath → settings = { rpcPath } := by
  rw [run_load_of_runInit hrun hsaid]
  refine ⟨⟨fun h => unescaped_of_parse? (Prod.mk.inj h).1 rfl, fun h => ?_⟩, ?_⟩
  · rw [parse?_firstConfig h]
  · intro settings h hpath
    have hsettings := (Prod.mk.inj h).1
    exact Option.some.inj
      (hsettings.symm.trans (parse?_firstConfig (unescaped_of_parse? hsettings hpath)))

end

/-- A run in an empty directory. -/
def firstRun (rpcPath : String) : Outcome × Disk := (runInit Disk.files "node" rpcPath).run {}

theorem plain_path_read_back :
    (firstRun "/run/lightning-rpc").1.output ≠ "" ∧
      (Launch.load Disk.files (Path.join "node" configName)).run (firstRun "/run/lightning-rpc").2 =
        (some { rpcPath := "/run/lightning-rpc" }, (firstRun "/run/lightning-rpc").2) := by
  have hsaid : (firstRun "/run/lightning-rpc").1.output ≠ "" := by decide +kernel
  have unescaped : "/run/lightning-rpc".toList.all Quoted.isUnescaped := by decide
  exact ⟨hsaid,
    (first_configuration_read_back rfl hsaid).1.mpr (List.all_eq_true.mp unescaped)⟩

/-- A path may hold quotes, but one with quotes is not read back. -/
theorem quoted_path_not_read_back : ¬ ∃ settings,
    (Launch.load Disk.files (Path.join "node" configName)).run (firstRun "/run/a\"b").2 =
      (some settings, (firstRun "/run/a\"b").2) ∧ settings.rpcPath = "/run/a\"b" := by
  rintro ⟨settings, hload, hpath⟩
  have hsaid : (firstRun "/run/a\"b").1.output ≠ "" := by decide +kernel
  have hparse := (Prod.mk.inj ((run_load_of_runInit rfl hsaid).symm.trans hload)).1
  exact absurd (unescaped_of_parse? hparse hpath '"' (by simp)) (by decide)

end Rebalancing.Command
