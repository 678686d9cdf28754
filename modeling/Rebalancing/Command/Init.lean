import Rebalancing.Command.Outcome
import Rebalancing.Storage.Files

/-! # A first configuration

Writes a configuration file into a directory that has none, and makes room for the data of the node. -/

namespace Rebalancing

namespace Command

def configName : String := "circular.toml"

/-- The first configuration up to the path of the Lightning node's socket. -/
def beforePath : String :=
  "# Circular Node Configuration\n"
    ++ "\n"
    ++ "[lightning]\n"
    ++ "rpc_path = \""

/-- The first configuration behind the path. -/
def behindPath : String :=
  "\"\n"
    ++ "\n"
    ++ "[refresh]\n"
    ++ "graph_interval_secs = 600\n"
    ++ "peer_interval_secs = 30\n"
    ++ "stats_interval_secs = 600\n"
    ++ "\n"
    ++ "[storage]\n"
    ++ "data_dir = \"./data\"\n"
    ++ "graph_file = \"graph.json\"\n"
    ++ "\n"
    ++ "[rebalance]\n"
    ++ "max_hops_ceiling = 10\n"
    ++ "hop_step = 1\n"
    ++ "final_cltv_delta = 9\n"
    ++ "payment_timeout_secs = 60\n"
    ++ "attempt_deadline_secs = 300\n"
    ++ "default_max_ppm = 1000\n"
    ++ "default_initial_max_hops = 3\n"
    ++ "\n"
    ++ "[aging]\n"
    ++ "average_msat = 10000000\n"
    ++ "variance_msat = 5000000\n"
    ++ "\n"
    ++ "[api]\n"
    ++ "listen_addr = \"127.0.0.1\"\n"
    ++ "port = 9101\n"
    ++ "\n"
    ++ "[logging]\n"
    ++ "level = \"info\"\n"
    ++ "format = \"text\"\n"

/-- The first configuration, for the Lightning node at `rpcPath`. The path stands between quotes as it
is. -/
def firstConfig (rpcPath : String) : String := beforePath ++ rpcPath ++ behindPath

/-- What is said once the file is written. -/
def initNotice (config : String) : String :=
  "Initialized Circular node at " ++ config ++ "\n"
    ++ "Edit circular.toml to customize your configuration.\n"
    ++ "Run 'circular-node --config " ++ config ++ "' to start the node.\n"

/-- A configuration that exists is left alone. -/
def runInit {m : Type → Type} [Monad m] (files : Files m) (directory rpcPath : String) :
    m Outcome := do
  let config := Path.join directory configName
  if ← files.contains (Path.location config) then
    return .failed "" (.message ("configuration file already exists at " ++ config))
  let written ← files.performAll [
    .createDirectories (Path.location directory),
    .write (Path.location config) (firstConfig rpcPath).toUTF8.toList]
  if !written then return .failed "" .unworded
  let output := initNotice config
  if ← files.perform (.createDirectories (Path.location (Path.join directory "data"))) then
    return { output }
  else return .failed output .unworded

end Command

end Rebalancing
