/-! # The states of an attempt

An attempt to rebalance asks for a route, checks its fee, pays along it and learns the outcome. Each
event fits a few states only; one that does not fit is refused. -/

namespace Rebalancing

inductive AttemptState where
  | idle
  | routeRequested
  | routeFound
  /-- Nothing was found within the hop limit; a wider one may be tried. -/
  | noRouteFound
  | feeAcceptable
  | feeTooHigh
  | paymentSent
  | paymentSucceeded
  | paymentFailed
deriving DecidableEq, Repr

inductive AttemptEvent where
  | requestRoute
  | routeFound
  | routeNotFound
  | feeAccepted
  | feeRejected
  | paymentDispatched
  | paymentSucceeded
  | paymentFailed
deriving DecidableEq, Repr

/-- The state that an event leads to where it fits. -/
def AttemptEvent.target : AttemptEvent → AttemptState
  | .requestRoute => .routeRequested
  | .routeFound => .routeFound
  | .routeNotFound => .noRouteFound
  | .feeAccepted => .feeAcceptable
  | .feeRejected => .feeTooHigh
  | .paymentDispatched => .paymentSent
  | .paymentSucceeded => .paymentSucceeded
  | .paymentFailed => .paymentFailed

namespace AttemptEvent

def name : AttemptEvent → String
  | .requestRoute => "RequestRoute"
  | .routeFound => "RouteFound"
  | .routeNotFound => "RouteNotFound"
  | .feeAccepted => "FeeAccepted"
  | .feeRejected => "FeeRejected"
  | .paymentDispatched => "PaymentDispatched"
  | .paymentSucceeded => "PaymentSucceeded"
  | .paymentFailed => "PaymentFailed"

def all : List AttemptEvent :=
  [.requestRoute, .routeFound, .routeNotFound, .feeAccepted, .feeRejected, .paymentDispatched,
    .paymentSucceeded, .paymentFailed]

def ofName? (name : String) : Option AttemptEvent := all.find? (·.name = name)

end AttemptEvent

namespace AttemptState

/-- Whether an event fits a state. -/
def allows : AttemptState → AttemptEvent → Bool
  | .idle, .requestRoute => true
  | .noRouteFound, .requestRoute => true
  | .routeRequested, .routeFound => true
  | .routeRequested, .routeNotFound => true
  | .routeFound, .feeAccepted => true
  | .routeFound, .feeRejected => true
  | .feeAcceptable, .paymentDispatched => true
  | .paymentSent, .paymentSucceeded => true
  | .paymentSent, .paymentFailed => true
  | _, _ => false

/-- The state after an event, or the state it would have led to if it does not fit. -/
def after (state : AttemptState) (event : AttemptEvent) : Except AttemptState AttemptState :=
  if state.allows event then .ok event.target else .error event.target

/-- No event fits a final state. -/
def isFinal : AttemptState → Bool
  | .feeTooHigh | .paymentSucceeded | .paymentFailed => true
  | _ => false

def name : AttemptState → String
  | .idle => "Idle"
  | .routeRequested => "RouteRequested"
  | .routeFound => "RouteFound"
  | .noRouteFound => "NoRouteFound"
  | .feeAcceptable => "FeeAcceptable"
  | .feeTooHigh => "FeeTooHigh"
  | .paymentSent => "PaymentSent"
  | .paymentSucceeded => "PaymentSucceeded"
  | .paymentFailed => "PaymentFailed"

def all : List AttemptState :=
  [.idle, .routeRequested, .routeFound, .noRouteFound, .feeAcceptable, .feeTooHigh, .paymentSent,
    .paymentSucceeded, .paymentFailed]

def ofName? (name : String) : Option AttemptState := all.find? (·.name = name)

@[simp] theorem ofName?_name (state : AttemptState) : ofName? state.name = some state := by
  cases state <;> decide

end AttemptState

end Rebalancing
