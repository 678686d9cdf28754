import Rebalancing.Settings.Basic
import Rebalancing.Toml.Document

/-! # Settings as a TOML document

Sections and settings that are left out have their defaults, and unknown ones do not matter. A section
may also be given as an array of its settings in order. -/

namespace Rebalancing

namespace Toml

def text? : Toml → Option String
  | .string text => some text
  | _ => none

/-- A natural number up to a limit. -/
def nat? (limit : Nat) : Toml → Option Nat
  | .integer n => if 0 ≤ n ∧ n ≤ limit then some n.toNat else none
  | _ => none

def uint64? (value : Toml) : Option UInt64 := (value.nat? 0xffffffffffffffff).map .ofNat

def uint32? (value : Toml) : Option UInt32 := (value.nat? 0xffffffff).map .ofNat

def uint16? (value : Toml) : Option UInt16 := (value.nat? 0xffff).map .ofNat

/-- The settings that a section gives, `names` being those it can hold. A point in time counts as a
section without known settings. -/
def given? (names : List String) : Toml → Option (List (String × Toml))
  | .table entries => some entries
  | .array items => some (names.zip items)
  | .moment _ => some []
  | _ => none

/-- A setting, or its default. -/
def setting {α : Type} (given : List (String × Toml)) (name : String) (default : α)
    (decode : Toml → Option α) : Option α :=
  match given.find? (·.1 = name) with
  | none => some default
  | some (_, value) => decode value

end Toml

open Toml (setting)

namespace RefreshSettings

def ofToml? (value : Toml) : Option RefreshSettings := do
  let given ← value.given? ["graph_interval_secs", "peer_interval_secs", "stats_interval_secs"]
  let default : RefreshSettings := {}
  return {
    graphInterval := ← setting given "graph_interval_secs" default.graphInterval Toml.uint64?
    peerInterval := ← setting given "peer_interval_secs" default.peerInterval Toml.uint64?
    statsInterval := ← setting given "stats_interval_secs" default.statsInterval Toml.uint64? }

end RefreshSettings

namespace StorageSettings

def ofToml? (value : Toml) : Option StorageSettings := do
  let given ← value.given? ["data_dir", "graph_file"]
  let default : StorageSettings := {}
  return {
    dataDirectory := ← setting given "data_dir" default.dataDirectory Toml.text?
    graphFile := ← setting given "graph_file" default.graphFile Toml.text? }

end StorageSettings

namespace RebalanceSettings

def ofToml? (value : Toml) : Option RebalanceSettings := do
  let given ← value.given? ["max_hops_ceiling", "hop_step", "final_cltv_delta", "payment_timeout_secs",
    "attempt_deadline_secs", "default_max_ppm", "default_initial_max_hops"]
  let default : RebalanceSettings := {}
  let tuning : Tuning := {}
  return {
    tuning := {
      maxHopsCeiling := ← setting given "max_hops_ceiling" tuning.maxHopsCeiling Toml.uint64?
      hopStep := ← setting given "hop_step" tuning.hopStep Toml.uint64?
      finalDelay := ← setting given "final_cltv_delta" tuning.finalDelay Toml.uint32?
      paymentTimeout := ← setting given "payment_timeout_secs" tuning.paymentTimeout Toml.uint64?
      deadline := ← setting given "attempt_deadline_secs" tuning.deadline Toml.uint64? }
    maxPpm := ← setting given "default_max_ppm" default.maxPpm Toml.uint64?
    initialMaxHops := ← setting given "default_initial_max_hops" default.initialMaxHops Toml.uint64? }

end RebalanceSettings

namespace Aging

def ofToml? (value : Toml) : Option Aging := do
  let given ← value.given? ["average_msat", "variance_msat"]
  let default : Aging := {}
  return {
    average := ← setting given "average_msat" default.average Toml.uint64?
    variance := ← setting given "variance_msat" default.variance Toml.uint64? }

end Aging

namespace ApiSettings

def ofToml? (value : Toml) : Option ApiSettings := do
  let given ← value.given? ["listen_addr", "port"]
  let default : ApiSettings := {}
  return {
    address := ← setting given "listen_addr" default.address Toml.text?
    portNumber := ← setting given "port" default.portNumber Toml.uint16? }

end ApiSettings

namespace LoggingSettings

def ofToml? (value : Toml) : Option LoggingSettings := do
  let given ← value.given? ["level", "format"]
  let default : LoggingSettings := {}
  return {
    level := ← setting given "level" default.level Toml.text?
    format := ← setting given "format" default.format Toml.text? }

end LoggingSettings

namespace Settings

def rpcPathOfToml? (value : Toml) : Option String := do
  let given ← value.given? ["rpc_path"]
  setting given "rpc_path" ({} : Settings).rpcPath Toml.text?

def ofEntries? (entries : List (String × Toml)) : Option Settings := do
  let default : Settings := {}
  return {
    rpcPath := ← setting entries "lightning" default.rpcPath rpcPathOfToml?
    refresh := ← setting entries "refresh" default.refresh RefreshSettings.ofToml?
    storage := ← setting entries "storage" default.storage StorageSettings.ofToml?
    rebalance := ← setting entries "rebalance" default.rebalance RebalanceSettings.ofToml?
    aging := ← setting entries "aging" default.aging Aging.ofToml?
    api := ← setting entries "api" default.api ApiSettings.ofToml?
    logging := ← setting entries "logging" default.logging LoggingSettings.ofToml? }

/-- Reads a document. -/
def parse? (text : String) : Option Settings := (Toml.parse? text).bind ofEntries?

/-! ## Writing -/

/-- A setting as it is written. -/
inductive Setting where
  | text (value : String)
  | number (value : Nat)
deriving DecidableEq

/-- A text is quoted in the way that its characters call for. -/
def Setting.written : Setting → String
  | .text value => String.ofList (Toml.Quoted.write value.toList)
  | .number value => Decimal.text value

/-- The settings of a section, in order. -/
structure Section where
  name : String
  entries : List (String × Setting)
deriving DecidableEq

def tuningEntries (tuning : Tuning) : List (String × Setting) := [
  ("max_hops_ceiling", .number tuning.maxHopsCeiling.toNat),
  ("hop_step", .number tuning.hopStep.toNat),
  ("final_cltv_delta", .number tuning.finalDelay.toNat),
  ("payment_timeout_secs", .number tuning.paymentTimeout.toNat),
  ("attempt_deadline_secs", .number tuning.deadline.toNat)]

def sections (settings : Settings) : List Section := [
  ⟨"lightning", [("rpc_path", .text settings.rpcPath)]⟩,
  ⟨"refresh", [
    ("graph_interval_secs", .number settings.refresh.graphInterval.toNat),
    ("peer_interval_secs", .number settings.refresh.peerInterval.toNat),
    ("stats_interval_secs", .number settings.refresh.statsInterval.toNat)]⟩,
  ⟨"storage", [
    ("data_dir", .text settings.storage.dataDirectory),
    ("graph_file", .text settings.storage.graphFile)]⟩,
  ⟨"rebalance", tuningEntries settings.rebalance.tuning ++ [
    ("default_max_ppm", .number settings.rebalance.maxPpm.toNat),
    ("default_initial_max_hops", .number settings.rebalance.initialMaxHops.toNat)]⟩,
  ⟨"aging", [
    ("average_msat", .number settings.aging.average.toNat),
    ("variance_msat", .number settings.aging.variance.toNat)]⟩,
  ⟨"api", [
    ("listen_addr", .text settings.api.address),
    ("port", .number settings.api.portNumber.toNat)]⟩,
  ⟨"logging", [
    ("level", .text settings.logging.level),
    ("format", .text settings.logging.format)]⟩]

/-- A section as lines, its settings being written by `write`. -/
def Section.lines (part : Section) (write : Setting → String) : String :=
  "[" ++ part.name ++ "]\n"
    ++ String.join (part.entries.map fun (name, setting) => name ++ " = " ++ write setting ++ "\n")

/-- Sections with a blank line between them. -/
def document (parts : List Section) (write : Setting → String) : String :=
  "\n".intercalate (parts.map (·.lines write))

/-- The document of all settings. -/
def text (settings : Settings) : String := document settings.sections Setting.written

end Settings

end Rebalancing
