import Rebalancing.Api.Service
import Rebalancing.Command.Basic
import Rebalancing.Command.Outcome
import Rebalancing.Settings.Document
import Rebalancing.Storage.Files

/-! # Launching a node

A node is launched with the settings of a file, or with the defaults if there is no such file; some
can be given on the command line instead. Writing a file with the defaults is a run of its own. -/

namespace Rebalancing

namespace Command

/-- How a node is to be launched. -/
structure Launch where
  config : String := "circular.toml"
  rpcPath : Option String := none
  apiPort : Option UInt16 := none
  dataDirectory : Option String := none
  logLevel : Option String := none
  /-- Whether only to write the default settings. -/
  init : Bool := false
deriving DecidableEq

namespace Launch

def grammar : Grammar where
  known := [
    valued "config" (some 'c') path?,
    valued "rpc-path" none path?,
    valued "api-port" none portNumber?,
    valued "data-dir" none path?,
    valued "log-level" none anyText,
    switch "init" none]
  versioned := true

def ofArguments (arguments : List String) : Except Halt Launch :=
  (grammar.read arguments).map fun line => {
    config := (line.text? "config").getD ({} : Launch).config
    rpcPath := line.text? "rpc-path"
    apiPort := line.read? "api-port" portNumber?
    dataDirectory := line.text? "data-dir"
    logLevel := line.text? "log-level"
    init := line.has "init" }

/-- The settings with those of the command line in place of their own. -/
def override (launch : Launch) (settings : Settings) : Settings :=
  { settings with
    rpcPath := launch.rpcPath.getD settings.rpcPath
    api.portNumber := launch.apiPort.getD settings.api.portNumber
    storage.dataDirectory := launch.dataDirectory.getD settings.storage.dataDirectory
    logging.level := launch.logLevel.getD settings.logging.level }

/-- The settings of a file, or the defaults if there is none. -/
def load {m : Type → Type} [Monad m] (files : Files m) (path : String) : m (Option Settings) := do
  let location := Path.location path
  if ← files.contains location then
    return (← files.read? location).bind fun bytes =>
      (String.fromUTF8? ⟨bytes.toArray⟩).bind Settings.parse?
  else return some {}

/-- Runs a launch. A node with settings is handed to `serve`. -/
def run {m : Type → Type} [Monad m] (files : Files m) (serve : Settings → m Outcome)
    (launch : Launch) : m Outcome := do
  if launch.init then
    let steps := Files.writing (Path.location launch.config) (Settings.text {}).toUTF8.toList
    if ← files.performAll steps then return {} else return .failed "" .unworded
  match ← load files launch.config with
  | some settings => serve (launch.override settings)
  | none => return .failed "" .unworded

end Launch

/-- Runs the node's program. -/
def runNode {m : Type → Type} [Monad m] (files : Files m) (serve : Settings → m Outcome)
    (arguments : List String) : m Outcome :=
  match Launch.ofArguments arguments with
  | .error halt => return .ofHalt ("circular-node " ++ Api.version) halt
  | .ok launch => launch.run files serve

end Command

end Rebalancing
