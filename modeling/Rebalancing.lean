import Rebalancing.Liquidity.ChaCha
import Rebalancing.Main
import Rebalancing.Rpc.Client
import Rebalancing.Proofs.Graph.Index
import Rebalancing.Proofs.Graph.Refresh
import Rebalancing.Proofs.Graph.Consistent
import Rebalancing.Proofs.Graph.Edits
import Rebalancing.Proofs.Graph.Traces
import Rebalancing.Proofs.Graph.Listing
import Rebalancing.Proofs.Graph.Order
import Rebalancing.Proofs.Graph.Prune
import Rebalancing.Proofs.Graph.Rearranged
import Rebalancing.Proofs.Route.Edits
import Rebalancing.Proofs.Path.Way
import Rebalancing.Proofs.Path.Explored
import Rebalancing.Proofs.Path.Coherent
import Rebalancing.Proofs.Path.Trace
import Rebalancing.Proofs.Path.Termination
import Rebalancing.Proofs.Path.Optimal
import Rebalancing.Proofs.Path.Sound
import Rebalancing.Proofs.Path.Complete
import Rebalancing.Proofs.Path.Loops
import Rebalancing.Proofs.Path.Agreement
import Rebalancing.Proofs.Path.Fee
import Rebalancing.Proofs.Path.Widening
import Rebalancing.Proofs.Path.Turns
import Rebalancing.Proofs.Attempt.Circle
import Rebalancing.Proofs.Attempt.Feasible
import Rebalancing.Proofs.Attempt.Limits
import Rebalancing.Proofs.Attempt.Course
import Rebalancing.Proofs.Liquidity.Conservation
import Rebalancing.Proofs.Liquidity.Pair
import Rebalancing.Proofs.Liquidity.Capacity
import Rebalancing.Proofs.Json.Leaves
import Rebalancing.Proofs.Json.RoundTrip
import Rebalancing.Proofs.Json.Numeral
import Rebalancing.Proofs.Json.Prefix
import Rebalancing.Proofs.Json.Reading
import Rebalancing.Proofs.Json.Cut
import Rebalancing.Proofs.Json.Fields
import Rebalancing.Proofs.Wire.Types
import Rebalancing.Proofs.Command.Init
import Rebalancing.Proofs.Node.Restart
import Rebalancing.Proofs.Node.Peers
import Rebalancing.Proofs.Channel.Id
import Rebalancing.Proofs.Payment.Preimage
import Rebalancing.Proofs.Rpc.Payment
import Rebalancing.Proofs.Rpc.Revelation
import Rebalancing.Proofs.Rpc.Pieces
import Rebalancing.Proofs.Rpc.Listing
