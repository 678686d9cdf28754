import Rebalancing.Proofs.Attempt.Ending

/-!
# The course of an attempt

An attempt feeds events to its state, and an event that does not fit would end it.  None
ever does.  To say so, the engine is run with a notebook in place of the state: `Notes`
take in every event and refuse none.  Such a run answers and pays like the real one, and
what it has written down leads from `idle` through events that fit to the state that the
attempt is left in, which can be told from its result.
-/

namespace Rebalancing

open Attempt (advance)

/-- The events that an attempt has been fed, and its payments. -/
structure Notes where
  events : List AttemptEvent := []
  payments : List Payment := []

/-- Every event is noted, whether it fits or not. -/
instance : Ledger Notes where
  take event notes := .ok { notes with events := notes.events ++ [event] }
  record payment notes := { notes with payments := notes.payments ++ [payment] }

/-- The result of a request, and what has been noted on the way. -/
def Rebalancer.notedRun (engine : Rebalancer) (request : RebalanceRequest) (payer : Payer)
    (secret : PaymentSecret) (elapsed : Nat → Nat) :
    Except RebalanceError RebalanceOutcome × Notes :=
  (engine.rebalance request payer secret elapsed).run.run ({} : Notes)

/-! ## Steps that are noted -/

/-- The events noted lead to the state of an attempt, each of them fitting the state that it finds,
and the payments are those of the attempt. -/
structure Notes.Record (notes : Notes) (progress : Progress) : Prop where
  events : notes.events.foldlM AttemptState.after .idle = .ok progress.state
  payments : notes.payments = progress.payments

namespace Attempt

variable {α β : Type} {error : RebalanceError} {a : α}

/-- No event out of order has ended a step. -/
def IsOrderly (result : Except RebalanceError α) : Prop :=
  ∀ error, result ≠ .error (.model error)

/-- As long as no event is out of order, a step that is noted goes like the step itself. -/
def Follows (noted : Attempt Notes α) (step : Attempt Progress α) : Prop :=
  ∀ (before : Progress) (notes : Notes), notes.Record before →
    IsOrderly (step.run.run before).1 →
    ∃ notes' : Notes, noted.run.run notes = ((step.run.run before).1, notes') ∧
      notes'.Record (step.run.run before).2

variable {noted : Attempt Notes α} {step : Attempt Progress α} {noted' : α → Attempt Notes β}
  {step' : α → Attempt Progress β}

theorem follows_pure : Follows (pure a) (pure a) :=
  fun _ notes record _ => ⟨notes, rfl, record⟩

theorem follows_throw : Follows (throw error : Attempt Notes α) (throw error) :=
  fun _ notes record _ => ⟨notes, rfl, record⟩

/-- Nothing comes behind a failure. -/
theorem follows_throw_bind : Follows (throw error >>= noted') (throw error >>= step') :=
  fun _ notes record _ => ⟨notes, rfl, record⟩

theorem follows_lift (result : Except RebalanceError α) :
    Follows (liftM result) (liftM result) := by
  intro before notes record _
  cases result with
  | error error => exact ⟨notes, rfl, record⟩
  | ok a => exact ⟨notes, rfl, record⟩

/-- An event is noted, and fits. -/
theorem follows_advance (event : AttemptEvent) : Follows (advance event) (advance event) := by
  intro before notes record orderly
  by_cases fits : before.state.allows event
  · rw [run_advance fits]
    refine ⟨{ notes with events := notes.events ++ [event] }, rfl, ?_, record.payments⟩
    have hafter : before.state.after event = .ok event.target := by
      rw [AttemptState.after, if_pos fits]
    rw [List.foldlM_append, record.events]
    show (before.state.after event >>= pure) = _
    rw [hafter]
    rfl
  · rw [run_advance_of_not_allows fits] at orderly
    exact absurd rfl (orderly _)

/-- So is a payment. -/
theorem follows_record (payment : Payment) :
    Follows (modify (Ledger.record payment)) (modify (Ledger.record payment)) :=
  fun _ notes record _ =>
    ⟨Ledger.record payment notes, rfl, record.events, congrArg (· ++ [payment]) record.payments⟩

theorem Follows.bind (h : Follows noted step) (h' : ∀ a, Follows (noted' a) (step' a)) :
    Follows (noted >>= noted') (step >>= step') := by
  intro before notes record orderly
  have first := h before notes record
  rcases hstep : step.run.run before with ⟨_ | a, after⟩
  · rw [Step.run_bind_error hstep] at orderly ⊢
    rw [hstep] at first
    obtain ⟨notes', hnoted, record'⟩ := first fun error h => orderly error (by cases h; rfl)
    exact ⟨notes', Step.run_bind_error hnoted, record'⟩
  · rw [Step.run_bind_ok hstep] at orderly ⊢
    rw [hstep] at first
    obtain ⟨notes', hnoted, record'⟩ := first nofun
    rw [Step.run_bind_ok hnoted]
    exact h' a after notes' record' orderly

end Attempt

namespace Rebalancer

open Attempt

variable {engine : Rebalancer} {request : RebalanceRequest} {source destination : NodeId}
  {elapsed : Nat → Nat} {payer : Payer} {secret : PaymentSecret}

theorem widen_follows (limit : UInt64) (attempts : Nat) :
    Follows (engine.widen request source destination elapsed limit attempts)
      (engine.widen request source destination elapsed limit attempts) := by
  induction limit, attempts using @widen.induct Progress _ engine request source destination
    elapsed with
  | case1 limit attempts late =>
    unfold widen
    rw [if_pos late, if_pos late]
    exact follows_throw_bind
  | case2 limit attempts late ih =>
    unfold widen
    rw [if_neg late, if_neg late]
    refine (follows_advance _).bind fun _ => ?_
    cases engine.graph.findRoute (engine.query request.amount source destination limit) with
    | ok route => exact (follows_advance _).bind fun _ => follows_pure
    | error error =>
      cases error with
      | noRoute =>
        refine (follows_advance _).bind fun _ => ?_
        by_cases grows : limit ≠ 0 ∧ limit < engine.ceiling request
        · rw [dif_pos grows, dif_pos grows]
          exact ih grows
        · rw [dif_neg grows, dif_neg grows]
          exact follows_throw
      | _ => exact follows_throw

theorem interior_follows : Follows (engine.interior request source destination elapsed)
    (engine.interior request source destination elapsed) := by
  unfold interior
  by_cases ends : source = destination
  · rw [if_pos ends, if_pos ends]
    exact (follows_advance _).bind fun _ => (follows_advance _).bind fun _ => follows_pure
  · rw [if_neg ends, if_neg ends]
    exact widen_follows _ _

theorem approve_follows (outgoing : Channel) (route : Route) :
    Follows (approve request outgoing route) (approve request outgoing route) := by
  unfold approve
  by_cases dear : request.maxPpm < route.feePpm
  · simp only [if_pos dear]
    exact (follows_advance _).bind fun _ => follows_throw_bind
  simp only [if_neg dear]
  cases outgoing.canUse route.sent with
  | false => exact follows_throw_bind
  | true => exact follows_advance _

theorem pay_follows (payment : Payment) : Follows (pay payer payment) (pay payer payment) := by
  unfold pay
  refine (follows_advance _).bind fun _ => (follows_record _).bind fun _ => ?_
  cases payer payment with
  | ok preimage => exact (follows_advance _).bind fun _ => follows_pure
  | error error => exact (follows_advance _).bind fun _ => follows_throw

theorem rebalance_follows : Follows (engine.rebalance request payer secret elapsed)
    (engine.rebalance request payer secret elapsed) := by
  unfold rebalance
  refine (follows_lift _).bind fun _ => interior_follows.bind fun _ => ?_
  exact (approve_follows _ _).bind fun _ => (pay_follows _).bind fun _ => follows_pure

/-! ## The state at the end -/

/-- The state that a result leaves an attempt in, if an attempt can have it. -/
def stateOf : Except RebalanceError RebalanceOutcome → Option AttemptState
  | .ok _ => some .paymentSucceeded
  | .error (.noRoute _ _ _) => some .noRouteFound
  | .error (.tooExpensive _ _) => some .feeTooHigh
  | .error .paymentTimeout => some .paymentFailed
  | .error .temporaryFailure => some .paymentFailed
  | .error (.unknownChannel _) => some .idle
  | .error (.insufficientLiquidity _ _) => some .routeFound
  | .error (.invalidRequest _) => some .idle
  | .error (.deadlineExceeded attempts) => some (searching attempts)
  | .error (.routing _) => none
  | .error (.model _) => none

/-- Every attempt ends in the state that its result tells. -/
theorem Ends.stateOf_eq {ending : Except RebalanceError RebalanceOutcome × Progress}
    (h : engine.Ends request payer secret elapsed ending) :
    stateOf ending.1 = some ending.2.state := by
  cases h with
  | refused own =>
    obtain ⟨fault, rfl⟩ | ⟨scid, rfl⟩ := ownChannels_eq_error own
    · rfl
    · rfl
  | unrouted own seeks =>
    cases seeks with
    | inVain => rfl
    | late => rfl
  | dear => rfl
  | short => rfl
  | settled => rfl
  | @unsettled _ _ _ _ error =>
    by_cases htimeout : error = .timeout
    · simp [stateOf, htimeout]
    · simp [stateOf, htimeout]

/-- **The course of an attempt.**  Whatever the graph, the request and the answers are, an attempt
never fails for an event out of order, nor for what a search answers other than that there is no
route.  The events that it feeds to its state fit one after the other, from `idle` on, since an
engine that notes them without checking any goes the same way; they lead to the state in which the
attempt ends; and that is the one that its result tells.  Every search between two peers comes to a
route, or to there being none. -/
theorem run_course (engine : Rebalancer) (request : RebalanceRequest) (payer : Payer)
    (secret : PaymentSecret) (elapsed : Nat → Nat) :
    let ending := engine.run request payer secret elapsed
    let noted := engine.notedRun request payer secret elapsed
    (∀ error, ending.1 ≠ .error (.model error)) ∧
    (∀ error, ending.1 ≠ .error (.routing error)) ∧
    noted.1 = ending.1 ∧ noted.2.payments = ending.2.payments ∧
    noted.2.events.foldlM AttemptState.after .idle = .ok ending.2.state ∧
    stateOf ending.1 = some ending.2.state ∧
    ∀ outgoing incoming limit, engine.ownChannels request = .ok (outgoing, incoming) →
      outgoing.destination ≠ incoming.source →
      let query := engine.query request.amount outgoing.destination incoming.source limit
      (∃ route, engine.graph.findRoute query = .ok route) ∨
        engine.graph.findRoute query = .error (.noRoute query.source query.destination) := by
  have hstate := (engine.run_ends request payer secret elapsed).stateOf_eq
  have orderly : Attempt.IsOrderly (engine.run request payer secret elapsed).1 := by
    intro error h
    rw [h] at hstate
    cases hstate
  have routed : ∀ error, (engine.run request payer secret elapsed).1 ≠ .error (.routing error) := by
    intro error h
    rw [h] at hstate
    cases hstate
  have start : Notes.Record {} {} := ⟨rfl, rfl⟩
  obtain ⟨notes, hnoted, record⟩ := rebalance_follows {} {} start orderly
  refine ⟨orderly, routed, ?_, ?_, ?_, hstate, ?_⟩
  · exact congrArg Prod.fst hnoted
  · exact (congrArg (·.2.payments) hnoted).trans record.payments
  · exact (congrArg (·.2.events.foldlM AttemptState.after .idle) hnoted).trans record.events
  · intro outgoing incoming limit own ends
    exact engine.graph.findRoute_eq_ok_or_noRoute _ ends (ownChannels_eq_ok.mp own).1

end Rebalancer

end Rebalancing
