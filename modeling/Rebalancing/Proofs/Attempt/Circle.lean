import Rebalancing.Proofs.Attempt.Ending
import Rebalancing.Proofs.Path.Optimal

/-!
# Circles

The route of a payment leaves over the outgoing channel, passes the way between the
peers and arrives over the incoming one.  All its hops are derived again once it is
closed: the hops between the peers carry what the incoming channel charges on top of
what the search had them deliver.
-/

namespace Rebalancing

open Std

namespace Rebalancer

variable {engine : Rebalancer} {request : RebalanceRequest} {outgoing incoming : Channel}
  {interior : Route}

/-! ## The hops of a circle -/

/-- The hop over the incoming channel. -/
def arriving (engine : Rebalancer) (incoming : Channel) (interior : Route) : Hop :=
  ⟨incoming, interior.amount, engine.tuning.finalDelay⟩

/-- The hops between the peers. -/
def passing (engine : Rebalancer) (incoming : Channel) (interior : Route) : List Hop :=
  Route.chain (engine.arriving incoming interior).entering.1
    (engine.arriving incoming interior).entering.2 interior.channels

/-- The hop over the outgoing channel. -/
def leaving (engine : Rebalancer) (outgoing incoming : Channel) (interior : Route) : Hop :=
  let (amount, delay) := Route.entering (engine.arriving incoming interior).entering.1
    (engine.arriving incoming interior).entering.2 (engine.passing incoming interior)
  ⟨outgoing, amount, delay⟩

theorem hops_circle : (engine.circle outgoing incoming interior).hops =
    engine.leaving outgoing incoming interior ::
      (engine.passing incoming interior ++ [engine.arriving incoming interior]) := by
  show Route.chain interior.amount engine.tuning.finalDelay
    ((interior.prepend outgoing).append incoming).channels = _
  rw [Route.channels_append, Route.channels_prepend, Route.chain_append]
  rfl

theorem source_circle : (engine.circle outgoing incoming interior).source = outgoing.source := rfl

theorem destination_circle :
    (engine.circle outgoing incoming interior).destination = incoming.destination := rfl

theorem sent_circle : (engine.circle outgoing incoming interior).sent =
    (engine.leaving outgoing incoming interior).amount := by
  rw [Route.sent, hops_circle]
  rfl

@[simp] theorem map_channel_passing (engine : Rebalancer) (incoming : Channel) (interior : Route) :
    (engine.passing incoming interior).map (·.channel) = interior.channels :=
  Route.map_channel_chain _ _ _

@[simp] theorem length_passing :
    (engine.passing incoming interior).length = interior.channels.length := by
  rw [← List.length_map (f := (·.channel)), map_channel_passing]

/-- The nodes of a circle strictly between its ends are those that the way between the peers comes
by. -/
theorem nodes_circle : (engine.circle outgoing incoming interior).nodes.tail.dropLast =
    outgoing.destination :: (engine.passing incoming interior).map (·.channel.destination) := by
  rw [Route.nodes, hops_circle, List.tail_cons, List.map_cons, List.map_append, ← List.cons_append]
  exact List.dropLast_concat

/-- A way between the peers closes the circle. -/
theorem isContiguous_circle
    (connects : Route.connects incoming.source outgoing.destination
      (engine.passing incoming interior)) :
    (engine.circle outgoing incoming interior).isContiguous := by
  rw [Route.isContiguous, hops_circle, source_circle, destination_circle, Route.connects,
    Bool.and_eq_true, decide_eq_true_eq]
  refine ⟨rfl, Route.connects_append.mpr ⟨incoming.source, connects, ?_⟩⟩
  simp [Route.connects, arriving]

/-! ## The way between the peers -/

/-- What was found between the peers is a way, within the limits of the request, for the amount that
the request asks for. -/
theorem Seeks.isWay {source destination : NodeId} {elapsed : Nat → Nat} {attempts : Nat}
    {state : AttemptState} (indexed : engine.graph.IsIndexed) (positive : request.amount ≠ 0)
    (h : engine.Seeks request source destination elapsed (.ok (interior, attempts)) state) :
    interior.amount = request.amount ∧
    ∃ limit, (request.initialMaxHops ≠ 0 → limit ≠ 0 ∧ limit ≤ engine.ceiling request) ∧
      (engine.query request.amount source destination limit).IsWay engine.graph source
        interior.channels := by
  cases h with
  | direct ends =>
    subst ends
    refine ⟨rfl, request.initialMaxHops, ?_, ?_⟩
    · exact fun initial => ⟨initial, engine.initialMaxHops_le_ceiling request⟩
    · let query := engine.query request.amount source source request.initialMaxHops
      show query.IsWay engine.graph query.destination []
      exact Query.isWay_nil
  | @found limit _ _ ends tries hroute =>
    have hends : (engine.query request.amount source destination limit).source ≠
        (engine.query request.amount source destination limit).destination := ends
    have hpositive : 0 < request.amount := UInt64.pos_iff_ne_zero.mpr positive
    obtain ⟨_, _, _, _, hpath⟩ | ⟨_, _, _, _, channels, _, way, _, hpath⟩ :=
      Graph.findPath_cases indexed hends hpositive
    · rw [Graph.findRoute, hpath] at hroute
      cases hroute
    · rw [Graph.findRoute, hpath] at hroute
      cases hroute
      refine ⟨rfl, limit, tries.limited, ?_⟩
      rw [Query.channels_ofHops_hopsOver]
      exact way

end Rebalancer

end Rebalancing
