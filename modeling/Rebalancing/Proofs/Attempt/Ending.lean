import Mathlib.Logic.Basic
import Rebalancing.Attempt.Engine

/-!
# How attempts end

`Rebalancer.run` performs a handful of steps, any of which may be the last.  This file
says once how they can go: `Rebalancer.Tries` are the searches that widening comes to,
`Rebalancer.Seeks` what the search between the peers answers, and `Rebalancer.Ends` the
ways in which an attempt ends, each with the state it is left in and the payments that
were made.  Whatever holds at every end holds of every run.
-/

namespace Rebalancing

open Attempt (advance)

/-! ## Steps -/

namespace Step

variable {ε σ α β : Type} {x : ExceptT ε (StateM σ) α} {f : α → ExceptT ε (StateM σ) β}
  {handle : ε → ExceptT ε (StateM σ) α} {a : α} {error : ε} {before after : σ}

/-- A step that succeeds hands over to the next one. -/
theorem run_bind_ok (h : x.run.run before = (.ok a, after)) :
    (x >>= f).run.run before = (f a).run.run after := by
  rw [ExceptT.run_bind, StateT.run_bind, h]
  rfl

/-- A step that fails is the last one.  What was done so far stays on record. -/
theorem run_bind_error (h : x.run.run before = (.error error, after)) :
    (x >>= f).run.run before = (.error error, after) := by
  rw [ExceptT.run_bind, StateT.run_bind, h]
  rfl

@[simp] theorem run_throw :
    (throw error : ExceptT ε (StateM σ) α).run.run before = (.error error, before) := rfl

/-- A step that succeeds has nothing to handle. -/
theorem run_tryCatch_ok (h : x.run.run before = (.ok a, after)) :
    (tryCatch x handle).run.run before = (.ok a, after) := by
  rw [ExceptT.run_tryCatch, StateT.run_bind, h]
  rfl

/-- The failure of a step is handled where the step has left off. -/
theorem run_tryCatch_error (h : x.run.run before = (.error error, after)) :
    (tryCatch x handle).run.run before = (handle error).run.run after := by
  rw [ExceptT.run_tryCatch, StateT.run_bind, h]
  rfl

/-- A result that is only repackaged leaves things as they were. -/
theorem snd_run_bind_pure {g : α → β} :
    ((x >>= fun a => pure (g a)).run.run before).2 = (x.run.run before).2 := by
  rcases h : x.run.run before with ⟨_ | a, after⟩
  · rw [run_bind_error h]
  · rw [run_bind_ok h]
    rfl

end Step

namespace Attempt

variable {α : Type} {before : Progress}

@[simp] theorem run_modify {change : Progress → Progress} :
    (modify change : Attempt Progress Unit).run.run before = (.ok (), change before) := rfl

/-- The result of a step that does nothing else. -/
@[simp] theorem run_lift {result : Except RebalanceError α} :
    (liftM result : Attempt Progress α).run.run before = (result, before) := by
  cases result <;> rfl

/-- An event that fits moves the state along, and does nothing else. -/
theorem run_advance {event : AttemptEvent} (h : before.state.allows event) :
    (advance event).run.run before = (.ok (), { before with state := event.target }) := by
  have htake : Ledger.take event before = .ok { before with state := event.target } := by
    simp only [Ledger.take, AttemptState.after, if_pos h]
  have hget : (get : Attempt Progress Progress).run.run before = (.ok before, before) := rfl
  unfold advance
  rw [Step.run_bind_ok hget, htake]
  rfl

/-- An event that does not fit ends the attempt. -/
theorem run_advance_of_not_allows {event : AttemptEvent}
    (refused : ¬ before.state.allows event) : (advance event).run.run before =
      (.error (.model (.transition before.state event.target)), before) := by
  have htake : Ledger.take event before =
      .error (.model (.transition before.state event.target)) := by
    simp only [Ledger.take, AttemptState.after, if_neg refused]
  have hget : (get : Attempt Progress Progress).run.run before = (.ok before, before) := rfl
  unfold advance
  rw [Step.run_bind_ok hget, htake]
  rfl

end Attempt

/-- Between two nodes and for a positive amount, a search fails for want of a route only. -/
theorem Graph.findRoute_eq_ok_or_noRoute (graph : Graph) (query : Query)
    (ends : query.source ≠ query.destination) (positive : query.amount ≠ 0) :
    (∃ route, graph.findRoute query = .ok route) ∨
      graph.findRoute query = .error (.noRoute query.source query.destination) := by
  unfold findRoute findPath
  rw [if_neg ends, if_neg positive]
  simp only
  cases (Search.run graph query (Search.fuel graph query) (Search.start query)).bind
      (Search.Arrival.path? query) with
  | none => exact .inr rfl
  | some hops => exact .inl ⟨_, rfl⟩

namespace Rebalancer

variable {engine : Rebalancer} {request : RebalanceRequest} {source destination : NodeId}
  {elapsed : Nat → Nat} {limit : UInt64} {attempts : Nat} {before : Progress} {payer : Payer}
  {secret : PaymentSecret} {ending : Except RebalanceError RebalanceOutcome × Progress}

/-! ## Own channels -/

/-- A request is taken on if it asks for a positive amount and names an own channel on each side,
not the same one twice. -/
theorem ownChannels_eq_ok {outgoing incoming : Channel} :
    engine.ownChannels request = .ok (outgoing, incoming) ↔
      request.amount ≠ 0 ∧ request.outgoing ≠ request.incoming ∧
        engine.graph.outgoing? engine.self request.outgoing = some outgoing ∧
        engine.graph.incoming? engine.self request.incoming = some incoming := by
  unfold ownChannels
  by_cases hzero : request.amount = 0
  · rw [if_pos hzero]
    constructor
    · rintro ⟨⟩
    · rintro ⟨hamount, -⟩
      exact absurd hzero hamount
  rw [if_neg hzero]
  by_cases hsame : request.outgoing = request.incoming
  · rw [if_pos hsame]
    constructor
    · rintro ⟨⟩
    · rintro ⟨-, hdistinct, -⟩
      exact absurd hsame hdistinct
  rw [if_neg hsame]
  cases engine.graph.outgoing? engine.self request.outgoing with
  | none =>
    constructor
    · rintro ⟨⟩
    · rintro ⟨-, -, ⟨⟩, -⟩
  | some found =>
    cases engine.graph.incoming? engine.self request.incoming with
    | none =>
      constructor
      · rintro ⟨⟩
      · rintro ⟨-, -, -, ⟨⟩⟩
    | some found' =>
      constructor
      · rintro ⟨⟩
        exact ⟨hzero, hsame, rfl, rfl⟩
      · rintro ⟨-, -, ⟨⟩, ⟨⟩⟩
        rfl

/-- Otherwise it is invalid, or names a channel that is not known. -/
theorem ownChannels_eq_error {error : RebalanceError}
    (h : engine.ownChannels request = .error error) :
    (∃ fault, error = .invalidRequest fault) ∨ ∃ scid, error = .unknownChannel scid := by
  unfold ownChannels at h
  by_cases hzero : request.amount = 0
  · rw [if_pos hzero] at h
    cases h
    exact .inl ⟨_, rfl⟩
  rw [if_neg hzero] at h
  by_cases hsame : request.outgoing = request.incoming
  · rw [if_pos hsame] at h
    cases h
    exact .inl ⟨_, rfl⟩
  rw [if_neg hsame] at h
  cases hout : engine.graph.outgoing? engine.self request.outgoing with
  | none =>
    rw [hout] at h
    cases h
    exact .inr ⟨_, rfl⟩
  | some outgoing =>
    rw [hout] at h
    cases hin : engine.graph.incoming? engine.self request.incoming with
    | none =>
      rw [hin] at h
      cases h
      exact .inr ⟨_, rfl⟩
    | some incoming =>
      rw [hin] at h
      cases h

/-- Neither is how a payment fails. -/
theorem ownChannels_ne_payment_error {error : RebalanceError}
    (h : engine.ownChannels request = .error error) :
    error ≠ .paymentTimeout ∧ error ≠ .temporaryFailure := by
  obtain ⟨fault, rfl⟩ | ⟨scid, rfl⟩ := ownChannels_eq_error h
  · exact ⟨nofun, nofun⟩
  · exact ⟨nofun, nofun⟩

/-! ## Searches -/

/-- The searches that a request comes to: search number `attempts` has the hop limit `limit`.
Behind the first one, each follows a search in time and in vain whose limit could still grow. -/
inductive Tries (engine : Rebalancer) (request : RebalanceRequest) (source destination : NodeId)
    (elapsed : Nat → Nat) : UInt64 → Nat → Prop
  /-- The first search has the limit of the request. -/
  | first : Tries engine request source destination elapsed request.initialMaxHops 0
  /-- A search in vain is followed by a wider one. -/
  | wider {limit : UInt64} {attempts : Nat} :
      Tries engine request source destination elapsed limit attempts →
      elapsed attempts < engine.tuning.deadline.toNat →
      engine.graph.findRoute (engine.query request.amount source destination limit) =
        .error (.noRoute source destination) →
      limit ≠ 0 → limit < engine.ceiling request →
      Tries engine request source destination elapsed (engine.wider request limit) (attempts + 1)

/-- The ceiling is the greater one of the limit of the request and the ceiling of the engine. -/
theorem toNat_ceiling : (engine.ceiling request).toNat =
    max engine.tuning.maxHopsCeiling.toNat request.initialMaxHops.toNat := by
  by_cases h : engine.tuning.maxHopsCeiling ≤ request.initialMaxHops
  · have hceiling : engine.ceiling request = request.initialMaxHops := if_pos h
    rw [hceiling, Nat.max_eq_right (UInt64.le_iff_toNat_le.mp h)]
  · have hceiling : engine.ceiling request = engine.tuning.maxHopsCeiling := if_neg h
    have hle := UInt64.le_of_lt (UInt64.not_le.mp h)
    rw [hceiling, Nat.max_eq_left (UInt64.le_iff_toNat_le.mp hle)]

/-- It is not below the limit of the request. -/
theorem initialMaxHops_le_ceiling (engine : Rebalancer) (request : RebalanceRequest) :
    request.initialMaxHops ≤ engine.ceiling request := by
  rw [UInt64.le_iff_toNat_le, toNat_ceiling]
  exact Nat.le_max_right _ _

/-- Widening does not go above the ceiling. -/
theorem wider_le_ceiling (engine : Rebalancer) (request : RebalanceRequest) (limit : UInt64) :
    engine.wider request limit ≤ engine.ceiling request :=
  Std.min_le_right

/-- A request that sets a hop limit has one in every search, which is at most the ceiling. -/
theorem Tries.limited (h : Tries engine request source destination elapsed limit attempts)
    (initial : request.initialMaxHops ≠ 0) : limit ≠ 0 ∧ limit ≤ engine.ceiling request := by
  induction h with
  | first => exact ⟨initial, engine.initialMaxHops_le_ceiling request⟩
  | wider _ _ _ _ below =>
    refine ⟨?_, engine.wider_le_ceiling request _⟩
    intro hzero
    have hlt := engine.lt_wider request below
    rw [hzero] at hlt
    exact Nat.not_lt_zero _ hlt

/-- The state in which search number `attempts` begins. -/
def searching : Nat → AttemptState
  | 0 => .idle
  | _ + 1 => .noRouteFound

/-- Every search may begin. -/
theorem allows_searching (attempts : Nat) :
    (searching attempts).allows .requestRoute := by
  cases attempts with
  | zero => rfl
  | succ => rfl

/-- What the search for a way between the peers answers, and the state it is left in. -/
inductive Seeks (engine : Rebalancer) (request : RebalanceRequest) (source destination : NodeId)
    (elapsed : Nat → Nat) : Except RebalanceError (Route × Nat) → AttemptState → Prop
  /-- Two channels to one peer need no way. -/
  | direct : source = destination →
      Seeks engine request source destination elapsed
        (.ok (.ofHops source destination request.amount [], 1)) .routeFound
  /-- The first search that finds a route ends the widening. -/
  | found {limit : UInt64} {attempts : Nat} {route : Route} : source ≠ destination →
      Tries engine request source destination elapsed limit attempts →
      engine.graph.findRoute (engine.query request.amount source destination limit) = .ok route →
      Seeks engine request source destination elapsed (.ok (route, attempts + 1)) .routeFound
  /-- So does a search in vain whose limit cannot grow. -/
  | inVain {limit : UInt64} {attempts : Nat} : source ≠ destination →
      Tries engine request source destination elapsed limit attempts →
      limit = 0 ∨ engine.ceiling request ≤ limit →
      Seeks engine request source destination elapsed (.error (.noRoute source destination limit))
        .noRouteFound
  /-- So does the deadline. -/
  | late {limit : UInt64} {attempts : Nat} : source ≠ destination →
      Tries engine request source destination elapsed limit attempts →
      engine.tuning.deadline.toNat ≤ elapsed attempts →
      Seeks engine request source destination elapsed (.error (.deadlineExceeded attempts))
        (searching attempts)

/-- A way that was found leaves the attempt with a route. -/
theorem Seeks.state_eq {found : Route × Nat} {state : AttemptState}
    (h : Seeks engine request source destination elapsed (.ok found) state) :
    state = .routeFound := by
  cases h with
  | direct => rfl
  | found => rfl

/-- A search that is in time and finds a route is the last one. -/
theorem run_widen_found {route : Route} (start : before.state = searching attempts)
    (inTime : elapsed attempts < engine.tuning.deadline.toNat)
    (found : engine.graph.findRoute (engine.query request.amount source destination limit) =
      .ok route) :
    (engine.widen request source destination elapsed limit attempts).run.run before =
      (.ok (route, attempts + 1), { before with state := .routeFound }) := by
  have hrequest := Attempt.run_advance (start ▸ allows_searching attempts)
  rw [widen, if_neg (Nat.not_le.mpr inTime), Step.run_bind_ok hrequest, found]
  exact Step.run_bind_ok (Attempt.run_advance rfl)

/-- One that is in vain is followed by a wider one, unless its limit cannot grow. -/
theorem run_widen_inVain (start : before.state = searching attempts)
    (inTime : elapsed attempts < engine.tuning.deadline.toNat)
    (inVain : engine.graph.findRoute (engine.query request.amount source destination limit) =
      .error (.noRoute source destination)) :
    (engine.widen request source destination elapsed limit attempts).run.run before =
      if limit ≠ 0 ∧ limit < engine.ceiling request then
        (engine.widen request source destination elapsed (engine.wider request limit)
          (attempts + 1)).run.run { before with state := .noRouteFound }
      else (.error (.noRoute source destination limit), { before with state := .noRouteFound }) := by
  have hrequest := Attempt.run_advance (start ▸ allows_searching attempts)
  rw [widen, if_neg (Nat.not_le.mpr inTime), Step.run_bind_ok hrequest, inVain]
  simp only
  rw [Step.run_bind_ok (Attempt.run_advance rfl)]
  by_cases grows : limit ≠ 0 ∧ limit < engine.ceiling request
  · rw [dif_pos grows, if_pos grows]
    rfl
  · rw [dif_neg grows, if_neg grows]
    rfl

/-- Widening from a search that a request comes to. -/
theorem widen_seeks (ends : source ≠ destination) (positive : request.amount ≠ 0)
    (tries : Tries engine request source destination elapsed limit attempts)
    (start : before.state = searching attempts) :
    ∃ result state, Seeks engine request source destination elapsed result state ∧
      (engine.widen request source destination elapsed limit attempts).run.run before =
        (result, { before with state }) := by
  induction limit, attempts using @widen.induct Progress _ engine request source destination elapsed
    generalizing before with
  | case1 limit attempts late =>
    refine ⟨_, _, .late ends tries late, ?_⟩
    rw [widen, if_pos late, Step.run_bind_error Step.run_throw, ← start]
  | case2 limit attempts late ih =>
    have inTime := Nat.not_le.mp late
    obtain ⟨route, hroute⟩ | hroute := engine.graph.findRoute_eq_ok_or_noRoute
      (engine.query request.amount source destination limit) ends positive
    · exact ⟨_, _, .found ends tries hroute, run_widen_found start inTime hroute⟩
    · rw [run_widen_inVain start inTime hroute]
      by_cases grows : limit ≠ 0 ∧ limit < engine.ceiling request
      · rw [if_pos grows]
        exact ih grows (tries.wider inTime hroute grows.1 grows.2) rfl
      · rw [if_neg grows]
        refine ⟨_, _, .inVain ends tries ?_, rfl⟩
        rw [not_and_or, not_not, UInt64.not_lt] at grows
        exact grows

/-- The search for a way between the peers, from the state that every attempt begins in. -/
theorem interior_seeks (source destination : NodeId) (elapsed : Nat → Nat)
    (positive : request.amount ≠ 0) (start : before.state = .idle) :
    ∃ result state, Seeks engine request source destination elapsed result state ∧
      (engine.interior request source destination elapsed).run.run before =
        (result, { before with state }) := by
  unfold interior
  by_cases ends : source = destination
  · rw [if_pos ends]
    refine ⟨_, _, .direct ends, ?_⟩
    have hrequest : before.state.allows .requestRoute := start ▸ rfl
    rw [Step.run_bind_ok (Attempt.run_advance hrequest)]
    exact Step.run_bind_ok (Attempt.run_advance rfl)
  · rw [if_neg ends]
    exact widen_seeks ends positive .first start

/-! ## Whole attempts -/

/-- A request names two own channels, and a way between their peers has been found. -/
structure Composes (engine : Rebalancer) (request : RebalanceRequest) (elapsed : Nat → Nat)
    (outgoing incoming : Channel) (interior : Route) (attempts : Nat) : Prop where
  own : engine.ownChannels request = .ok (outgoing, incoming)
  sought : engine.Seeks request outgoing.destination incoming.source elapsed
    (.ok (interior, attempts)) .routeFound

/-- The circle over that way is cheap enough, and its first channel can bear what is sent. -/
structure Approves (engine : Rebalancer) (request : RebalanceRequest) (elapsed : Nat → Nat)
    (outgoing incoming : Channel) (interior : Route) (attempts : Nat) : Prop
    extends Composes engine request elapsed outgoing incoming interior attempts where
  cheap : (engine.circle outgoing incoming interior).feePpm ≤ request.maxPpm
  bearable : outgoing.canUse (engine.circle outgoing incoming interior).sent

/-- The payment over a circle. -/
def payment (engine : Rebalancer) (secret : PaymentSecret) (outgoing incoming : Channel)
    (interior : Route) : Payment where
  route := engine.circle outgoing incoming interior
  secret
  timeout := engine.tuning.paymentTimeout

/-- A route is refused for its price first, and then for want of liquidity. -/
theorem run_approve (request : RebalanceRequest) (outgoing : Channel) (route : Route)
    (start : before.state = .routeFound) :
    (approve request outgoing route).run.run before =
      if request.maxPpm < route.feePpm then
        (.error (.tooExpensive route.feePpm request.maxPpm), { before with state := .feeTooHigh })
      else if outgoing.canUse route.sent then (.ok (), { before with state := .feeAcceptable })
      else (.error (.insufficientLiquidity route.sent outgoing.liquidity), before) := by
  have hrejected : before.state.allows .feeRejected := start ▸ rfl
  have haccepted : before.state.allows .feeAccepted := start ▸ rfl
  unfold approve
  by_cases dear : request.maxPpm < route.feePpm
  · simp only [if_pos dear]
    rw [Step.run_bind_ok (Attempt.run_advance hrejected)]
    exact Step.run_bind_error Step.run_throw
  · simp only [if_neg dear]
    by_cases bearable : outgoing.canUse route.sent
    · simp only [bearable]
      exact Attempt.run_advance haccepted
    · simp only [bearable]
      exact Step.run_bind_error Step.run_throw

/-- A payment goes on record before it is answered. -/
theorem run_pay (payer : Payer) (payment : Payment) (start : before.state = .feeAcceptable) :
    (pay payer payment).run.run before = match payer payment with
      | .ok preimage => (.ok preimage,
          { state := .paymentSucceeded, payments := before.payments ++ [payment] })
      | .error error =>
        (.error (if error = .timeout then .paymentTimeout else .temporaryFailure),
          { state := .paymentFailed, payments := before.payments ++ [payment] }) := by
  have hdispatched : before.state.allows .paymentDispatched := start ▸ rfl
  unfold pay
  rw [Step.run_bind_ok (Attempt.run_advance hdispatched),
    Step.run_bind_ok Attempt.run_modify]
  cases payer payment with
  | ok preimage => exact Step.run_bind_ok (Attempt.run_advance rfl)
  | error error =>
    simp only
    rw [Step.run_bind_ok (Attempt.run_advance rfl)]
    exact Step.run_throw

/-- How an attempt ends, with what was done for it. -/
inductive Ends (engine : Rebalancer) (request : RebalanceRequest) (payer : Payer)
    (secret : PaymentSecret) (elapsed : Nat → Nat) :
    Except RebalanceError RebalanceOutcome × Progress → Prop
  /-- The request makes no sense, or names a channel that is not an own one. -/
  | refused {error : RebalanceError} : engine.ownChannels request = .error error →
      Ends engine request payer secret elapsed (.error error, {})
  /-- No way was found in time. -/
  | unrouted {outgoing incoming : Channel} {error : RebalanceError} {state : AttemptState} :
      engine.ownChannels request = .ok (outgoing, incoming) →
      engine.Seeks request outgoing.destination incoming.source elapsed (.error error) state →
      Ends engine request payer secret elapsed (.error error, { state })
  /-- The circle costs too much. -/
  | dear {outgoing incoming : Channel} {interior : Route} {attempts : Nat} :
      engine.Composes request elapsed outgoing incoming interior attempts →
      request.maxPpm < (engine.circle outgoing incoming interior).feePpm →
      Ends engine request payer secret elapsed
        (.error (.tooExpensive (engine.circle outgoing incoming interior).feePpm request.maxPpm),
          { state := .feeTooHigh })
  /-- The first channel cannot bear what is sent. -/
  | short {outgoing incoming : Channel} {interior : Route} {attempts : Nat} :
      engine.Composes request elapsed outgoing incoming interior attempts →
      (engine.circle outgoing incoming interior).feePpm ≤ request.maxPpm →
      ¬ outgoing.canUse (engine.circle outgoing incoming interior).sent →
      Ends engine request payer secret elapsed
        (.error (.insufficientLiquidity (engine.circle outgoing incoming interior).sent
          outgoing.liquidity), { state := .routeFound })
  /-- The payment was made and settled. -/
  | settled {outgoing incoming : Channel} {interior : Route} {attempts : Nat}
      {preimage : Preimage} :
      engine.Approves request elapsed outgoing incoming interior attempts →
      payer (engine.payment secret outgoing incoming interior) = .ok preimage →
      Ends engine request payer secret elapsed
        (.ok { route := engine.circle outgoing incoming interior, preimage, attempts },
          { state := .paymentSucceeded
            payments := [engine.payment secret outgoing incoming interior] })
  /-- The payment was made and did not settle, as far as is known. -/
  | unsettled {outgoing incoming : Channel} {interior : Route} {attempts : Nat}
      {error : ClientError} :
      engine.Approves request elapsed outgoing incoming interior attempts →
      payer (engine.payment secret outgoing incoming interior) = .error error →
      Ends engine request payer secret elapsed
        (.error (if error = .timeout then .paymentTimeout else .temporaryFailure),
          { state := .paymentFailed
            payments := [engine.payment secret outgoing incoming interior] })

/-- Every attempt ends in one of these ways. -/
theorem run_ends (engine : Rebalancer) (request : RebalanceRequest) (payer : Payer)
    (secret : PaymentSecret) (elapsed : Nat → Nat) :
    engine.Ends request payer secret elapsed (engine.run request payer secret elapsed) := by
  unfold run rebalance
  cases own : engine.ownChannels request with
  | error error =>
    rw [Step.run_bind_error Attempt.run_lift]
    exact .refused own
  | ok channels =>
    obtain ⟨outgoing, incoming⟩ := channels
    rw [Step.run_bind_ok Attempt.run_lift]
    have start : ({} : Progress).state = .idle := rfl
    obtain ⟨result, state, seeks, hinterior⟩ := interior_seeks outgoing.destination incoming.source
      elapsed (ownChannels_eq_ok.mp own).1 start
    cases result with
    | error error =>
      simp only
      rw [Step.run_bind_error hinterior]
      exact .unrouted own seeks
    | ok found =>
      obtain ⟨interior, attempts⟩ := found
      have hstate : state = .routeFound := seeks.state_eq
      subst hstate
      have composes : engine.Composes request elapsed outgoing incoming interior attempts :=
        ⟨own, seeks⟩
      have found : ({ state := .routeFound } : Progress).state = .routeFound := rfl
      have happrove := run_approve request outgoing (engine.circle outgoing incoming interior) found
      simp only
      rw [Step.run_bind_ok hinterior]
      simp only
      by_cases dear : request.maxPpm < (engine.circle outgoing incoming interior).feePpm
      · rw [if_pos dear] at happrove
        rw [Step.run_bind_error happrove]
        exact .dear composes dear
      have cheap := UInt64.not_lt.mp dear
      rw [if_neg dear] at happrove
      by_cases bearable : outgoing.canUse (engine.circle outgoing incoming interior).sent
      · have approves : engine.Approves request elapsed outgoing incoming interior attempts :=
          { composes with cheap, bearable }
        have acceptable : ({ state := .feeAcceptable } : Progress).state = .feeAcceptable := rfl
        have hpay := run_pay payer (engine.payment secret outgoing incoming interior) acceptable
        rw [if_pos bearable] at happrove
        rw [Step.run_bind_ok happrove]
        cases answer : payer (engine.payment secret outgoing incoming interior) with
        | ok preimage =>
          rw [answer] at hpay
          exact Step.run_bind_ok hpay ▸ .settled approves answer
        | error error =>
          rw [answer] at hpay
          exact Step.run_bind_error hpay ▸ .unsettled approves answer
      · rw [if_neg bearable] at happrove
        rw [Step.run_bind_error happrove]
        exact .short composes cheap bearable

/-! ## What is on record at the end -/

/-- At most one payment is made. -/
theorem Ends.length_payments_le_one (h : engine.Ends request payer secret elapsed ending) :
    ending.2.payments.length ≤ 1 := by
  cases h with
  | refused | unrouted | dear | short => exact Nat.zero_le _
  | settled | unsettled => exact Nat.le_refl _

/-- A payment is made over an approved circle. -/
theorem Ends.approves (h : engine.Ends request payer secret elapsed ending) {payment : Payment}
    (mem : payment ∈ ending.2.payments) :
    ∃ outgoing incoming interior attempts,
      engine.Approves request elapsed outgoing incoming interior attempts ∧
        payment = engine.payment secret outgoing incoming interior := by
  cases h with
  | refused | unrouted | dear | short => cases mem
  | settled approves | unsettled approves =>
    rw [List.mem_singleton] at mem
    exact ⟨_, _, _, _, approves, mem⟩

/-- The search for a way between the peers does not fail like a payment. -/
theorem Seeks.ne_payment_error {error : RebalanceError} {state : AttemptState}
    (h : engine.Seeks request source destination elapsed (.error error) state) :
    error ≠ .paymentTimeout ∧ error ≠ .temporaryFailure := by
  cases h with
  | inVain | late => exact ⟨nofun, nofun⟩

/-- A payment is made exactly if the attempt succeeds, or fails like a payment. -/
theorem Ends.payments_ne_nil_iff (h : engine.Ends request payer secret elapsed ending) :
    ending.2.payments ≠ [] ↔ (∃ outcome, ending.1 = .ok outcome) ∨
      ending.1 = .error .paymentTimeout ∨ ending.1 = .error .temporaryFailure := by
  cases h with
  | refused own =>
    obtain ⟨htimeout, hfailure⟩ := ownChannels_ne_payment_error own
    simp [htimeout, hfailure]
  | unrouted own seeks =>
    obtain ⟨htimeout, hfailure⟩ := seeks.ne_payment_error
    simp [htimeout, hfailure]
  | dear => simp
  | short => simp
  | settled => simp
  | @unsettled _ _ _ _ error =>
    by_cases htimeout : error = .timeout
    · simp [htimeout]
    · simp [htimeout]

/-- A temporary failure is reported for a payment that failed, whatever the cause. -/
theorem Ends.eq_temporaryFailure_iff (h : engine.Ends request payer secret elapsed ending) :
    ending.1 = .error .temporaryFailure ↔
      ∃ payment ∈ ending.2.payments, ∃ error, payer payment = .error error ∧ error ≠ .timeout := by
  cases h with
  | refused own => simp [(ownChannels_ne_payment_error own).2]
  | unrouted own seeks => simp [seeks.ne_payment_error.2]
  | dear => simp
  | short => simp
  | settled _ answer => simp [answer]
  | unsettled _ answer => simp [answer]

/-- A timeout is reported for a payment that timed out. -/
theorem Ends.eq_paymentTimeout_iff (h : engine.Ends request payer secret elapsed ending) :
    ending.1 = .error .paymentTimeout ↔
      ∃ payment ∈ ending.2.payments, payer payment = .error .timeout := by
  cases h with
  | refused own => simp [(ownChannels_ne_payment_error own).1]
  | unrouted own seeks => simp [seeks.ne_payment_error.1]
  | dear => simp
  | short => simp
  | settled _ answer => simp [answer]
  | unsettled _ answer => simp [answer]

/-- A payment goes on record whatever the answer is, if the attempt has got that far. -/
theorem payments_pay (payer : Payer) (payment : Payment) (before : Progress) :
    ((pay payer payment).run.run before).2.payments =
      if before.state.allows .paymentDispatched then before.payments ++ [payment]
      else before.payments := by
  unfold pay
  by_cases fits : before.state.allows .paymentDispatched
  · rw [if_pos fits, Step.run_bind_ok (Attempt.run_advance fits),
      Step.run_bind_ok Attempt.run_modify]
    cases payer payment with
    | ok preimage =>
      simp only
      rw [Step.run_bind_ok (Attempt.run_advance rfl)]
      rfl
    | error error =>
      simp only
      rw [Step.run_bind_ok (Attempt.run_advance rfl)]
      rfl
  · rw [if_neg fits, Step.run_bind_error (Attempt.run_advance_of_not_allows fits)]

/-- What is paid does not depend on what the payer answers. -/
theorem payments_run_congr (engine : Rebalancer) (request : RebalanceRequest)
    (payer payer' : Payer) (secret : PaymentSecret) (elapsed : Nat → Nat) :
    (engine.run request payer secret elapsed).2.payments =
      (engine.run request payer' secret elapsed).2.payments := by
  unfold run rebalance
  cases engine.ownChannels request with
  | error error => rw [Step.run_bind_error Attempt.run_lift, Step.run_bind_error Attempt.run_lift]
  | ok channels =>
    obtain ⟨outgoing, incoming⟩ := channels
    rw [Step.run_bind_ok Attempt.run_lift, Step.run_bind_ok Attempt.run_lift]
    rcases hinterior : (engine.interior request outgoing.destination incoming.source
      elapsed).run.run ({} : Progress) with ⟨error | ⟨interior, attempts⟩, before⟩
    · simp only
      rw [Step.run_bind_error hinterior, Step.run_bind_error hinterior]
    simp only
    rw [Step.run_bind_ok hinterior, Step.run_bind_ok hinterior]
    rcases happrove : (approve request outgoing
      (engine.circle outgoing incoming interior)).run.run before with ⟨error | approved, before'⟩
    · rw [Step.run_bind_error happrove, Step.run_bind_error happrove]
    · rw [Step.run_bind_ok happrove, Step.run_bind_ok happrove, Step.snd_run_bind_pure,
        Step.snd_run_bind_pure, payments_pay, payments_pay]

/-- A success reports the route that was paid for. -/
theorem Ends.map_route_payments (h : engine.Ends request payer secret elapsed ending)
    {outcome : RebalanceOutcome} (success : ending.1 = .ok outcome) :
    ending.2.payments.map (·.route) = [outcome.route] := by
  cases h with
  | refused | unrouted | dear | short | unsettled => cases success
  | settled =>
    cases success
    rfl

end Rebalancer

end Rebalancing
