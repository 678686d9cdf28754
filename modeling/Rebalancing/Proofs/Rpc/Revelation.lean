import Rebalancing.Proofs.Rpc.Payment

/-!
# What a success reveals

An attempt succeeds exactly if its one payment is answered with a preimage, and that is the
preimage it reports.  Nobody holds it against the hash that the payment is locked to: the
engine takes what the payer answers, and the client takes what the node answers in time, as
long as it is a preimage at all.  So a success proves as much as the payer's word does.
-/

namespace Rebalancing

/-- A preimage unlocks what is locked to it. -/
theorem PaymentSecret.unlockedBy_ofPreimage (preimage : Preimage) :
    (PaymentSecret.ofPreimage preimage).unlockedBy preimage :=
  decide_eq_true rfl

namespace Rebalancer

variable {engine : Rebalancer} {request : RebalanceRequest} {payer : Payer}
  {secret : PaymentSecret} {elapsed : Nat → Nat} {outcome : RebalanceOutcome}
  {ending : Except RebalanceError RebalanceOutcome × Progress}

/-- A success reports the payment that was made, and the answer to it. -/
theorem Ends.exists_payment (h : engine.Ends request payer secret elapsed ending)
    (success : ending.1 = .ok outcome) :
    ∃ payment, ending.2.payments = [payment] ∧ payment.secret = secret ∧
      payment.route = outcome.route ∧ payer payment = .ok outcome.preimage := by
  cases h with
  | refused | unrouted | dear | short | unsettled => cases success
  | settled _ answer =>
    cases success
    exact ⟨_, rfl, rfl, rfl, answer⟩

/-- A preimage is reported exactly if the payer answers the payment with it. -/
theorem Ends.reports_iff (h : engine.Ends request payer secret elapsed ending)
    (preimage : Preimage) :
    (∃ outcome, ending.1 = .ok outcome ∧ outcome.preimage = preimage) ↔
      ∃ payment ∈ ending.2.payments, payer payment = .ok preimage := by
  cases h with
  | refused | unrouted | dear | short => simp
  | settled _ answer => simp [answer]
  | unsettled _ answer => simp [answer]

/-- A payer that answers the payments of a secret with nothing but preimages that unlock them. -/
def IsHonest (payer : Payer) (secret : PaymentSecret) : Prop :=
  ∀ payment preimage, payment.secret = secret → payer payment = .ok preimage →
    secret.unlockedBy preimage

end Rebalancer

namespace Rpc

open Rebalancer (IsHonest)

variable {label : String} {socket : Socket} {payment : Payment} {preimage : Preimage}

/-- The client answers with a preimage exactly if the node has taken the payment on and reveals it
before the client gives up. -/
theorem client_eq_ok_iff : client label socket payment = some (.ok preimage) ↔
    TakesOn label socket payment (.settled preimage) := by
  constructor
  · intro h
    by_cases taken : ∃ known, TakesOn label socket payment known
    · obtain ⟨known, taken⟩ := taken
      obtain rfl := (taken.client_cases.2.2.2 preimage).mp h
      exact taken
    · rcases client_of_not_takesOn (not_exists.mp taken) with hnone | ⟨error, herror, -⟩
      · cases hnone.symm.trans h
      · cases herror.symm.trans h
  · intro settled
    exact (settled.client_cases.2.2.2 preimage).mpr rfl

/-- **Revelation.**  An attempt that succeeds has made one payment, locked to its secret, and reports
the preimage that the payer has answered with.  So that preimage unlocks the payment if the payer is
honest.  Over the client it is what the node reveals when it is asked to wait for the payment, and
whatever preimage the node reveals before the client gives up is reported. -/
theorem run_reveals (engine : Rebalancer) (request : RebalanceRequest) (secret : PaymentSecret)
    (elapsed : Nat → Nat) :
    (∀ payer outcome, (engine.run request payer secret elapsed).1 = .ok outcome →
      ∃ payment, (engine.run request payer secret elapsed).2.payments = [payment] ∧
        payment.secret = secret ∧ payment.route = outcome.route ∧
        payer payment = .ok outcome.preimage) ∧
    (∀ payer, IsHonest payer secret → ∀ outcome,
      (engine.run request payer secret elapsed).1 = .ok outcome →
        secret.unlockedBy outcome.preimage) ∧
    (∀ payer preimage,
      (∃ outcome, (engine.run request payer secret elapsed).1 = .ok outcome ∧
        outcome.preimage = preimage) ↔
      ∃ payment ∈ (engine.run request payer secret elapsed).2.payments,
        payer payment = .ok preimage) ∧
    ∀ label socket payer preimage,
      Relays label socket payer (engine.run request payer secret elapsed).2.payments →
      ((∃ outcome, (engine.run request payer secret elapsed).1 = .ok outcome ∧
        outcome.preimage = preimage) ↔
      ∃ payment ∈ (engine.run request payer secret elapsed).2.payments,
        TakesOn label socket payment (.settled preimage)) := by
  have ends := fun payer => engine.run_ends request payer secret elapsed
  refine ⟨fun payer outcome => (ends payer).exists_payment, ?_,
    fun payer => (ends payer).reports_iff, ?_⟩
  · intro payer honest outcome success
    obtain ⟨payment, -, hsecret, -, answer⟩ := (ends payer).exists_payment success
    exact honest payment _ hsecret answer
  · intro label socket payer preimage relays
    rw [(ends payer).reports_iff]
    refine exists_congr fun payment => and_congr_right fun mem => ?_
    rw [← client_eq_ok_iff, relays payment mem, Option.some.injEq]

/-- The node takes the payment around the triangle on, and then reveals this preimage. -/
def revealing (preimage : Preimage) : Socket :=
  taking (answering (.object [("payment_preimage", .string preimage.toHex)]))

/-- A preimage that does not unlock the payment around the triangle. -/
def otherPreimage : Preimage := ⟨.replicate 32 1⟩

/-- Either preimage is read back. -/
theorem revealing_takesOn {preimage : Preimage}
    (mem : preimage ∈ [Rebalancer.triangleSecret.preimage, otherPreimage]) :
    TakesOn "circular" (revealing preimage) trianglePayment (.settled preimage) := by
  have read : ∀ preimage ∈ [Rebalancer.triangleSecret.preimage, otherPreimage],
      verdict trianglePayment.timeout
        (answering (.object [("payment_preimage", .string preimage.toHex)])) =
      .settled preimage := by decide +kernel
  exact taking_takesOn (read preimage mem)

/-- Whoever pays for the triangle and reveals the secret is honest, and its preimage is reported; so
does the client of a node that reveals it. -/
theorem run_triangle_reveals :
    let ending := Rebalancer.triangle.run Rebalancer.triangleRequest Rebalancer.reveal
      Rebalancer.triangleSecret fun _ => 0
    IsHonest Rebalancer.reveal Rebalancer.triangleSecret ∧
    Relays "circular" (revealing Rebalancer.triangleSecret.preimage) Rebalancer.reveal
      ending.2.payments ∧
    ∃ outcome, ending.1 = .ok outcome ∧ Rebalancer.triangleSecret.unlockedBy outcome.preimage ∧
      outcome.preimage = Rebalancer.triangleSecret.preimage := by
  intro ending
  have honest : IsHonest Rebalancer.reveal Rebalancer.triangleSecret := by
    rintro payment preimage hsecret answer
    cases answer
    rw [hsecret]
    exact PaymentSecret.unlockedBy_ofPreimage _
  have taken : TakesOn "circular" (revealing Rebalancer.triangleSecret.preimage) trianglePayment
      (.settled Rebalancer.triangleSecret.preimage) := revealing_takesOn List.mem_cons_self
  have relays : Relays "circular" (revealing Rebalancer.triangleSecret.preimage) Rebalancer.reveal
      ending.2.payments := taken.relays_triangle rfl
  have mem : trianglePayment ∈ ending.2.payments :=
    triangle_payments Rebalancer.reveal ▸ List.mem_singleton_self trianglePayment
  obtain ⟨-, unlocks, -, reveals⟩ := run_reveals Rebalancer.triangle Rebalancer.triangleRequest
    Rebalancer.triangleSecret fun _ => 0
  obtain ⟨outcome, success, hpreimage⟩ :=
    (reveals "circular" _ _ _ relays).mpr ⟨trianglePayment, mem, taken⟩
  exact ⟨honest, relays, outcome, success, unlocks _ honest outcome success, hpreimage⟩

/-! ### Another preimage -/

/-- A success does not prove that the payment was settled: neither the engine nor the client refuses a
preimage that does not unlock it. -/
theorem triangle_not_unlocked :
    (¬ ∀ (engine : Rebalancer) request payer preimage elapsed outcome,
      (engine.run request payer (.ofPreimage preimage) elapsed).1 = .ok outcome →
        (PaymentSecret.ofPreimage preimage).unlockedBy outcome.preimage) ∧
    ¬ ∀ (engine : Rebalancer) request preimage elapsed label socket payer outcome,
      Relays label socket payer
          (engine.run request payer (.ofPreimage preimage) elapsed).2.payments →
      (engine.run request payer (.ofPreimage preimage) elapsed).1 = .ok outcome →
        (PaymentSecret.ofPreimage preimage).unlockedBy outcome.preimage := by
  have locked : Rebalancer.triangleSecret.unlockedBy otherPreimage = false := by decide +kernel
  let payer : Payer := fun _ => .ok otherPreimage
  have relays : Relays "circular" (revealing otherPreimage) payer (Rebalancer.triangle.run
      Rebalancer.triangleRequest payer Rebalancer.triangleSecret fun _ => 0).2.payments :=
    (revealing_takesOn (List.mem_cons_of_mem _ List.mem_cons_self)).relays_triangle rfl
  obtain ⟨outcome, success, hpreimage⟩ :
      ∃ outcome, (Rebalancer.triangle.run Rebalancer.triangleRequest payer
        Rebalancer.triangleSecret fun _ => 0).1 = .ok outcome ∧ outcome.preimage = otherPreimage :=
    ((Rebalancer.run_ends ..).reports_iff otherPreimage).mpr ⟨trianglePayment,
      triangle_payments payer ▸ List.mem_singleton_self trianglePayment, rfl⟩
  rw [← hpreimage] at locked
  obtain ⟨preimage, hsecret⟩ : ∃ preimage, Rebalancer.triangleSecret = .ofPreimage preimage :=
    ⟨_, rfl⟩
  rw [hsecret] at locked success relays
  constructor
  · intro claim
    have unlocked := claim _ _ _ _ _ _ success
    exact Bool.false_ne_true (locked.symm.trans unlocked)
  · intro claim
    have unlocked := claim _ _ _ _ _ _ _ _ relays success
    exact Bool.false_ne_true (locked.symm.trans unlocked)

end Rpc

end Rebalancing
