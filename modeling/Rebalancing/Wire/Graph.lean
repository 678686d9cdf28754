import Rebalancing.Graph.Refresh
import Rebalancing.Graph.Snapshot
import Rebalancing.Route.Basic
import Rebalancing.Wire.Channel

/-! # Graphs and routes in JSON -/

namespace Rebalancing

open Std

/-- Names by node. -/
abbrev Names := ExtTreeMap NodeId String

namespace Names

def toJson (names : Names) : Json :=
  .object (names.toList.map fun (node, name) => (node.text, .string name))

/-- Reads the members of an object. Of several for one node the last one counts. -/
def ofJson? : Json → Option Names
  | .object members => do
    let entries ← members.mapM fun (node, name) => name.text?.map (NodeId.mk node, ·)
    return entries.foldl (fun names (node, name) => names.insert node name) ∅
  | _ => none

end Names

namespace Snapshot

def toJson (snapshot : Snapshot) : Json :=
  .object [("channels", .array (snapshot.channels.map Channel.toJson)),
    ("aliases", Names.toJson snapshot.names)]

def ofJson? (json : Json) : Option Snapshot := do
  let fields ← json.fields? ["channels", "aliases"]
  return {
    channels := ← fields.need "channels" (Json.list? Channel.ofJson?)
    names := ← fields.orDefault "aliases" ∅ Names.ofJson? }

end Snapshot

namespace Stats

def toJson (stats : Stats) : Json := .object [
  ("channels", .nat stats.channels),
  ("nodes", .nat stats.nodes),
  ("aliases", .nat stats.names),
  ("total_capacity", .nat stats.totalCapacity.toNat)]

def ofJson? (json : Json) : Option Stats := do
  let fields ← json.fields? ["channels", "nodes", "aliases", "total_capacity"]
  return {
    channels := ← fields.need "channels" (Json.nat? 0xffffffffffffffff)
    nodes := ← fields.need "nodes" (Json.nat? 0xffffffffffffffff)
    names := ← fields.need "aliases" (Json.nat? 0xffffffffffffffff)
    totalCapacity := ← fields.need "total_capacity" Json.uint64? }

end Stats

namespace Aging

def toJson (aging : Aging) : Json :=
  .object [("average", .nat aging.average.toNat), ("variance", .nat aging.variance.toNat)]

def ofJson? (json : Json) : Option Aging := do
  let fields ← json.fields? ["average", "variance"]
  return {
    average := ← fields.need "average" Json.uint64?
    variance := ← fields.need "variance" Json.uint64? }

end Aging

namespace RefreshSummary

def toJson (summary : RefreshSummary) : Json := .object [
  ("added", .nat summary.added),
  ("updated", .nat summary.updated),
  ("skipped", .nat summary.skipped),
  ("pruned", .nat summary.pruned)]

def ofJson? (json : Json) : Option RefreshSummary := do
  let fields ← json.fields? ["added", "updated", "skipped", "pruned"]
  return {
    added := ← fields.need "added" (Json.nat? 0xffffffffffffffff)
    updated := ← fields.need "updated" (Json.nat? 0xffffffffffffffff)
    skipped := ← fields.need "skipped" (Json.nat? 0xffffffffffffffff)
    pruned := ← fields.need "pruned" (Json.nat? 0xffffffffffffffff) }

end RefreshSummary

namespace Hop

def toJson (hop : Hop) : Json := .object [
  ("channel", hop.channel.toJson),
  ("amount", .nat hop.amount.toNat),
  ("delay", .nat hop.delay.toNat)]

def ofJson? (json : Json) : Option Hop := do
  let fields ← json.fields? ["channel", "amount", "delay"]
  return {
    channel := ← fields.need "channel" Channel.ofJson?
    amount := ← fields.need "amount" Json.uint64?
    delay := ← fields.need "delay" Json.uint32? }

end Hop

namespace Route

def toJson (route : Route) : Json := .object [
  ("source", route.source.toJson),
  ("destination", route.destination.toJson),
  ("amount", .nat route.amount.toNat),
  ("final_delay", .nat route.finalDelay.toNat),
  ("hops", .array (route.hops.map Hop.toJson))]

/-- Decodes a route as it is; nothing in it is derived again. -/
def ofJson? (json : Json) : Option Route := do
  let fields ← json.fields? ["source", "destination", "amount", "final_delay", "hops"]
  return {
    source := ← fields.need "source" NodeId.ofJson?
    destination := ← fields.need "destination" NodeId.ofJson?
    amount := ← fields.need "amount" Json.uint64?
    finalDelay := ← fields.need "final_delay" Json.uint32?
    hops := ← fields.need "hops" (Json.list? Hop.ofJson?) }

end Route

end Rebalancing
