import Rebalancing.Attempt.Engine
import Rebalancing.Liquidity.Aging
import Rebalancing.Text.Path

/-! # Settings

What the operator of a node can set. Every setting has a default. -/

namespace Rebalancing

/-- How often things are brought up to date, in seconds. -/
structure RefreshSettings where
  graphInterval : UInt64 := 600
  peerInterval : UInt64 := 30
  statsInterval : UInt64 := 600
deriving DecidableEq

structure StorageSettings where
  dataDirectory : String := "./data"
  /-- The name of the graph file inside the data directory. -/
  graphFile : String := "graph.json"
deriving DecidableEq

structure RebalanceSettings where
  tuning : Tuning := {}
  /-- The limit of a request that names none. -/
  maxPpm : UInt64 := 1000
  /-- The first hop limit of a request that names none. -/
  initialMaxHops : UInt64 := 3
deriving DecidableEq

structure ApiSettings where
  address : String := "127.0.0.1"
  portNumber : UInt16 := 9101
deriving DecidableEq

structure LoggingSettings where
  level : String := "info"
  format : String := "text"
deriving DecidableEq

structure Settings where
  /-- The path of the Lightning node's socket. -/
  rpcPath : String := ".lightning/bitcoin/lightning-rpc"
  refresh : RefreshSettings := {}
  storage : StorageSettings := {}
  rebalance : RebalanceSettings := {}
  aging : Aging := {}
  api : ApiSettings := {}
  logging : LoggingSettings := {}
deriving DecidableEq

namespace Settings

def apiAddress (settings : Settings) : String :=
  settings.api.address ++ ":" ++ Decimal.text settings.api.portNumber.toNat

def graphPath (settings : Settings) : String :=
  Path.join settings.storage.dataDirectory settings.storage.graphFile

end Settings

end Rebalancing
