import Std.Data.ExtTreeMap
import Std.Data.ExtTreeSet
import Rebalancing.Channel.Listing

/-! # The peer table

The peers of the last listing, by id. A fresh listing is entered over what the table holds, and then
the peers that it does not name are let go. -/

namespace Rebalancing

open Std

abbrev PeerTable := ExtTreeMap NodeId ListedPeer

namespace PeerTable

/-- Enters a record, in place of one that its peer has already, and remembers the peer. -/
def enter : PeerTable × ExtTreeSet NodeId → ListedPeer → PeerTable × ExtTreeSet NodeId
  | (table, seen), peer => (table.insert peer.id peer, seen.insert peer.id)

/-- Visits an entry: lets go of a peer that is not to be kept, and counts it. -/
def visit (keep : NodeId → Bool) : PeerTable × Nat → NodeId → PeerTable × Nat
  | (table, dropped), id => if keep id then (table, dropped) else (table.erase id, dropped + 1)

/-- Visits all entries. -/
def retain (table : PeerTable) (keep : NodeId → Bool) : PeerTable × Nat :=
  table.foldl (fun state id _ => visit keep state id) (table, 0)

/-- Replaces the table by a fresh listing, and counts the peers that are no longer listed. -/
def replace (table : PeerTable) (listing : List ListedPeer) : PeerTable × Nat :=
  let (entered, seen) := listing.foldl enter (table, ∅)
  entered.retain seen.contains

def connected (table : PeerTable) : List ListedPeer := table.values.filter (·.connected)

end PeerTable

end Rebalancing
