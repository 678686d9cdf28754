import Rebalancing.Api.Body
import Rebalancing.Api.Status
import Rebalancing.Node.Basic
import Rebalancing.Route.Summary
import Rebalancing.Wire.Attempt

/-! # The interface of a node

The node's status and its peers can be read, routes can be asked for without paying, and rebalances
can be ordered. Responses name nodes as the graph does. -/

namespace Rebalancing

namespace Api

/-- The version of the interface. -/
def version : String := "0.1.0"

inductive Endpoint where
  | status
  | peers
  | route
  | rebalance
deriving DecidableEq

namespace Endpoint

def path : Endpoint → String
  | .status => "/api/v1/status"
  | .peers => "/api/v1/peers"
  | .route => "/api/v1/route"
  | .rebalance => "/api/v1/rebalance"

def method : Endpoint → String
  | .status | .peers => "GET"
  | .route | .rebalance => "POST"

def ofPath? (path : String) : Option Endpoint :=
  [Endpoint.status, .peers, .route, .rebalance].find? (·.path = path)

end Endpoint

def statusMembers (status : NodeStatus) : List (String × Json) := [
  ("node_id", status.node.toJson),
  ("alias", .ofOption (status.name.map .string)),
  ("graph", status.graph.toJson),
  ("peers", .nat status.peers),
  ("connected_peers", .nat status.connected)]

def statusBody (node : Node) : Json :=
  .object (("version", .string version) :: statusMembers node.status)

def peerBody (node : Node) (peer : ListedPeer) : Json := .object [
  ("id", peer.id.toJson),
  ("alias", .string (node.graph.nameOf peer.id)),
  ("connected", .bool peer.connected),
  ("num_channels", .nat peer.channels.toNat)]

def peersBody (node : Node) : Json := .object [
  ("peers", .array (node.peers.values.map (peerBody node))),
  ("count", .nat node.peers.size)]

/-- What is told of a route whatever it is for. -/
def routeMembers (node : Node) (route : Route) : List (String × Json) := [
  ("summary", .string (route.summary node.graph.nameOf)),
  ("fee", .nat route.fee.toNat),
  ("fee_ppm", .nat route.feePpm.toNat),
  ("route", route.toJson)]

def routeBody (node : Node) (route : Route) : Json :=
  .object (routeMembers node route ++ [("total_delay", .nat route.totalDelay.toNat)])

def rebalanceBody (node : Node) (outcome : RebalanceOutcome) : Json :=
  .object (routeMembers node outcome.route ++ [
    ("attempts", .nat outcome.attempts),
    ("preimage", outcome.preimage.toJson)])

/-- Answers the question for a route. -/
def answerRoute (node : Node) (request : Request) : Response :=
  match request.read RouteQuestion.reader with
  | .error response => response
  | .ok question =>
    match node.route question.source question.destination question.amount question.maxHops with
    | .ok route => { status := 200, body := some (routeBody node route) }
    | .error error => .failure error.status error.message

/-- Carries out the order to rebalance, and tells the payments that it led to. -/
def answerRebalance (node : Node) (payer : Payer) (secret : PaymentSecret) (elapsed : Nat → Nat)
    (request : Request) : Response × List Payment :=
  match request.read RebalanceOrder.reader with
  | .error response => (response, [])
  | .ok order =>
    let (result, progress) :=
      node.engine.run (order.request node.settings.rebalance) payer secret elapsed
    match result with
    | .ok outcome => ({ status := 200, body := some (rebalanceBody node outcome) }, progress.payments)
    | .error error => (.failure error.status error.message, progress.payments)

/-- Answers a request. Where something can be read its head alone can be asked for. -/
def answer (node : Node) (payer : Payer) (secret : PaymentSecret) (elapsed : Nat → Nat)
    (request : Request) : Response × List Payment :=
  match Endpoint.ofPath? request.path with
  | none => ({ status := 404 }, [])
  | some endpoint =>
    let head := request.method = "HEAD" ∧ endpoint.method = "GET"
    if request.method ≠ endpoint.method ∧ ¬ head then ({ status := 405 }, [])
    else
      let (response, payments) : Response × List Payment := match endpoint with
        | .status => ({ status := 200, body := some (statusBody node) }, [])
        | .peers => ({ status := 200, body := some (peersBody node) }, [])
        | .route => (answerRoute node request, [])
        | .rebalance => answerRebalance node payer secret elapsed request
      (if head then response.bare else response, payments)

end Api

end Rebalancing
