import Rebalancing.Attempt.State
import Rebalancing.Path.Query

/-! # Failures

What a Lightning node can answer instead of a result, and why an attempt to rebalance did not
complete. -/

namespace Rebalancing

/-- Failures of the exchange with a Lightning node. A detail is absent where the operating system or
a reader words it. -/
inductive ClientError where
  /-- The outcome of a payment was not known in time. -/
  | timeout
  /-- The node answered with an error. -/
  | rpc (code : Int) (message : String)
  | transport (detail : Option String)
  | decode (detail : Option String)
deriving DecidableEq

def ClientError.message? : ClientError → Option String
  | .timeout => some "timed out waiting for the node"
  | .rpc code message => some ("rpc error " ++ Decimal.signed code ++ ": " ++ message)
  | .transport detail => detail.map ("transport error: " ++ ·)
  | .decode detail => detail.map ("decode error: " ++ ·)

/-- What breaks the rules of the domain: a name, a record, or an event out of order. -/
inductive ModelError where
  | id (error : IdError)
  | listing (error : ListingError)
  | transition (source target : AttemptState)
deriving DecidableEq

def ModelError.message : ModelError → String
  | .id error => error.message
  | .listing error => error.message
  | .transition source target =>
    "invalid rebalance state transition from " ++ source.name ++ " to " ++ target.name

/-- What makes a request senseless. -/
inductive RequestFault where
  | zeroAmount
  | sameChannel (scid : ShortChannelId)
  | other (text : String)
deriving DecidableEq

def RequestFault.message : RequestFault → String
  | .zeroAmount => "amount must be positive"
  | .sameChannel scid => "outgoing and incoming channel are both " ++ scid.text
  | .other text => text

/-- Why an attempt did not complete. -/
inductive RebalanceError where
  | noRoute (source destination : NodeId) (maxHops : UInt64)
  | tooExpensive (feePpm maxPpm : UInt64)
  /-- The outcome is unknown; the payment may still be pending. -/
  | paymentTimeout
  | temporaryFailure
  /-- The channel is not one of the payer's own in the wanted direction. -/
  | unknownChannel (scid : ShortChannelId)
  | insufficientLiquidity (needed available : Msat)
  | invalidRequest (fault : RequestFault)
  | deadlineExceeded (attempts : Nat)
  | routing (error : RoutingError)
  | model (error : ModelError)
deriving DecidableEq

def RebalanceError.message : RebalanceError → String
  | .noRoute source destination maxHops =>
    "no route found from " ++ source.text ++ " to " ++ destination.text ++ " within "
      ++ Decimal.text maxHops.toNat ++ " hops"
  | .tooExpensive feePpm maxPpm =>
    "route costs " ++ Decimal.text feePpm.toNat ++ " ppm, above the " ++ Decimal.text maxPpm.toNat
      ++ " ppm ceiling"
  | .paymentTimeout => "payment timed out"
  | .temporaryFailure => "payment failed temporarily"
  | .unknownChannel scid => "not one of our channels: " ++ scid.text
  | .insufficientLiquidity needed available =>
    "insufficient liquidity: need " ++ Decimal.text needed.toNat ++ " msat, have "
      ++ Decimal.text available.toNat ++ " msat"
  | .invalidRequest fault => "invalid rebalance request: " ++ fault.message
  | .deadlineExceeded attempts =>
    "rebalance deadline exceeded after " ++ Decimal.text attempts ++ " attempts"
  | .routing error => "routing error: " ++ error.message
  | .model error => error.message

end Rebalancing
