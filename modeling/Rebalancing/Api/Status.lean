import Rebalancing.Attempt.Error

/-! # Status codes

The status with which the interface reports a failure. -/

namespace Rebalancing

def RoutingError.status : RoutingError → Nat
  | .noRoute _ _ => 422
  | .sameEndpoints _ | .zeroAmount => 400
  | .unknownChannel _ => 404

def RebalanceError.status : RebalanceError → Nat
  | .noRoute _ _ _ | .tooExpensive _ _ | .insufficientLiquidity _ _ => 422
  | .paymentTimeout | .deadlineExceeded _ => 504
  | .temporaryFailure => 502
  | .unknownChannel _ => 404
  | .invalidRequest _ => 400
  | .routing error => error.status
  | .model _ => 500

end Rebalancing
