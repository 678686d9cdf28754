import Std.Data.ExtTreeSet
import Rebalancing.Channel.Id

/-! # Adjacency

`links[a][b]` holds the short channel ids that connect `a` to `b`. No bucket is kept empty by `link`
and `unlink`. -/

namespace Rebalancing

open Std

/-- The short channel ids between two nodes. -/
abbrev Edge := ExtTreeSet ShortChannelId

abbrev Links := ExtTreeMap NodeId (ExtTreeMap NodeId Edge)

namespace Links

/-- The short channel ids from `a` to `b`. -/
def edge (links : Links) (a b : NodeId) : Edge := (links.getD a ∅).getD b ∅

def link (links : Links) (a b : NodeId) (scid : ShortChannelId) : Links :=
  links.alter a fun peers =>
    some ((peers.getD ∅).alter b fun edge => some ((edge.getD ∅).insert scid))

/-- An edge, unless it is empty. -/
def nonemptyEdge? (edge : Edge) : Option Edge := if edge.isEmpty then none else some edge

/-- The peers of a node, unless there are none. -/
def nonemptyPeers? (peers : ExtTreeMap NodeId Edge) : Option (ExtTreeMap NodeId Edge) :=
  if peers.isEmpty then none else some peers

/-- Takes `scid` out of the edge from `a` to `b`, and drops what becomes empty. -/
def unlink (links : Links) (a b : NodeId) (scid : ShortChannelId) : Links :=
  links.alter a fun peers =>
    peers.bind fun peers =>
      nonemptyPeers? (peers.alter b fun edge => edge.bind fun edge => nonemptyEdge? (edge.erase scid))

end Links

end Rebalancing
