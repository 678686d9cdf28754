import Rebalancing.Route.Basic
import Rebalancing.Text.Decimal

/-! # Routes for people

A route as text, with nodes shown by name: one line with the totals, or one line for each hop and a
line of totals. -/

namespace Rebalancing.Route

/-- The names of the nodes on the way. -/
def names (route : Route) (nameOf : NodeId → String) : List String :=
  match route.hops with
  | [] => []
  | first :: _ =>
    nameOf first.channel.source :: route.hops.map fun hop => nameOf hop.channel.destination

/-- `a -> b -> c | amount=… fee=… ppm=…` -/
def summary (route : Route) (nameOf : NodeId → String) : String :=
  " -> ".intercalate (route.names nameOf)
    ++ " | amount=" ++ Decimal.text route.amount.toNat
    ++ " fee=" ++ Decimal.text route.fee.toNat
    ++ " ppm=" ++ Decimal.text route.feePpm.toNat

/-- A number in at least two columns. -/
def ordinal (n : Nat) : String := if n < 10 then " " ++ Decimal.text n else Decimal.text n

def hopLine (route : Route) (nameOf : NodeId → String) (index : Nat) (hop : Hop) : String :=
  ordinal (index + 1) ++ ". " ++ nameOf hop.channel.source ++ " -> " ++ nameOf hop.channel.destination
    ++ " via " ++ hop.channel.scid.text
    ++ " amount=" ++ Decimal.text hop.amount.toNat
    ++ " fee=" ++ Decimal.text (route.hopFee index).toNat
    ++ " delay=" ++ Decimal.text hop.delay.toNat ++ "\n"

def totalLine (route : Route) : String :=
  "total: amount=" ++ Decimal.text route.amount.toNat
    ++ " fee=" ++ Decimal.text route.fee.toNat
    ++ " ppm=" ++ Decimal.text route.feePpm.toNat
    ++ " delay=" ++ Decimal.text route.totalDelay.toNat

/-- A line for each hop, then the totals. -/
def table (route : Route) (nameOf : NodeId → String) : String :=
  String.join (route.hops.mapIdx (route.hopLine nameOf)) ++ route.totalLine

end Rebalancing.Route
