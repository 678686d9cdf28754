import Rebalancing.Json.Printer
import Rebalancing.Proofs.Attempt.Safety
import Rebalancing.Rpc.Client

/-!
# Payments over the client

A payment takes three calls: the node writes an invoice, takes the payment on, and is then
asked to wait for its outcome.  Once the second call has been answered with a result, what
becomes of the payment is known only from the answer to the third, and `Rpc.Fate` lists
what that can tell.  The client keeps a payment that the node says is pending, or says
nothing about until the client gives up, apart from one that it says has failed.  A
connection that ends without an answer, and an answer that cannot be read, tell as little,
but are reported like a failure.
-/

namespace Rebalancing

namespace Rpc

variable {α β : Type} {method label : String} {params : Json} {decode : Json → Option α}
  {route : Route} {secret : PaymentSecret} {timeout : UInt64} {limit passed : Nat}
  {socket waiting after : Socket}

/-! ## Single calls -/

/-- The connection for the next request. -/
def next (socket : Socket) : Connection := socket.connection socket.nextId

/-- How a call that takes so many nanoseconds leaves the socket. -/
structure Precedes (socket after : Socket) (passed : Nat) : Prop where
  connection : after.connection = socket.connection
  nextId : after.nextId = socket.nextId + 1
  clock : after.clock = socket.clock + passed

theorem Precedes.next_eq (h : Precedes socket after passed) :
    next after = socket.connection (socket.nextId + 1) := by
  rw [next, h.connection, h.nextId]

/-- Nothing comes of a call whose connection falls silent. -/
theorem run_call_silence (h : answer? method (next socket) = none) :
    ∃ after, (call method params).run.run socket = (.error .silence, after) := by
  have hget : (get : Rpc Socket).run.run socket = (.ok socket, socket) := rfl
  unfold next at h
  unfold call
  rw [Step.run_bind_ok hget]
  simp only [h]
  exact ⟨_, rfl⟩

/-- Any other call comes to what its connection answers. -/
theorem run_call {answer : Except ClientError Json}
    (h : answer? method (next socket) = some (passed, answer)) :
    ∃ after, (call method params).run.run socket = (answer.mapError .failure, after) ∧
      Precedes socket after passed := by
  have hget : (get : Rpc Socket).run.run socket = (.ok socket, socket) := rfl
  unfold next at h
  unfold call
  rw [Step.run_bind_ok hget]
  simp only [h]
  cases answer with
  | ok result => exact ⟨_, rfl, rfl, rfl, rfl⟩
  | error error => exact ⟨_, rfl, rfl, rfl, rfl⟩

/-- A call that comes to a result was answered with it. -/
theorem answer?_of_run_call {json : Json}
    (h : (call method params).run.run socket = (.ok json, after)) :
    ∃ passed, answer? method (next socket) = some (passed, .ok json) ∧
      Precedes socket after passed := by
  cases hanswer : answer? method (next socket) with
  | none =>
    obtain ⟨after', hcall⟩ := @run_call_silence method params _ hanswer
    cases h.symm.trans hcall
  | some answered =>
    obtain ⟨passed, answer⟩ := answered
    obtain ⟨after', hcall, precedes⟩ := @run_call method params _ _ _ hanswer
    cases answer with
    | error error => cases h.symm.trans hcall
    | ok result =>
      cases h.symm.trans hcall
      exact ⟨passed, rfl, precedes⟩

/-- The result of a call is decoded where the call has left off. -/
theorem run_ask_ok {json : Json} (h : (call method params).run.run socket = (.ok json, after)) :
    (ask method params decode).run.run socket =
      ((decode json).elim (.error (.failure (.decode none))) .ok, after) := by
  unfold ask
  rw [Step.run_bind_ok h]
  cases decode json with
  | none => rfl
  | some value => rfl

theorem run_ask_error {interruption : Interruption}
    (h : (call method params).run.run socket = (.error interruption, after)) :
    (ask method params decode).run.run socket = (.error interruption, after) :=
  Step.run_bind_error h

/-- What is decoded is a result that was answered. -/
theorem answer?_of_run_ask {a : α}
    (h : (ask method params decode).run.run socket = (.ok a, after)) :
    ∃ passed json, answer? method (next socket) = some (passed, .ok json) ∧
      decode json = some a ∧ Precedes socket after passed := by
  rcases hcall : (call method params).run.run socket with ⟨_ | json, after'⟩
  · cases h.symm.trans (run_ask_error hcall)
  · have hask := h.symm.trans (run_ask_ok hcall)
    obtain ⟨passed, hanswer, precedes⟩ := answer?_of_run_call hcall
    cases hdecode : decode json with
    | none =>
      rw [hdecode] at hask
      cases hask
    | some value =>
      rw [hdecode] at hask
      cases hask
      exact ⟨passed, json, hanswer, hdecode, precedes⟩

/-! ## The calls that have a payment taken on -/

/-- The calls up to the one that has a payment taken on. -/
def dispatch (label : String) (route : Route) (secret : PaymentSecret) : Rpc Unit := do
  let paymentSecret ← invoice label route.amount secret
  sendpay route secret paymentSecret

/-- The result that a connection brings, if it does. -/
def result? (method : String) (connection : Connection) : Option Json :=
  (answer? method connection).bind (·.2.toOption)

theorem result?_eq_some_iff {connection : Connection} {json : Json} :
    result? method connection = some json ↔
      ∃ passed, answer? method connection = some (passed, .ok json) := by
  unfold result?
  rcases answer? method connection with _ | ⟨passed, error | result⟩
  · simp
  · simp [Except.toOption]
  · simp [Except.toOption]

/-- The node writes an invoice for a secret, and then answers the payment with a result. -/
structure Accepts (socket : Socket) (secret : PaymentSecret) : Prop where
  invoices : ∃ paymentSecret,
    (result? "invoice" (next socket)).bind invoice? = some (secret.hashHex, paymentSecret)
  sends : (result? "sendpay" (socket.connection (socket.nextId + 1))).isSome

theorem run_invoice {amount : Msat} {json : Json} {paymentSecret : String}
    (h : answer? "invoice" (next socket) = some (passed, .ok json))
    (hjson : invoice? json = some (secret.hashHex, paymentSecret)) :
    ∃ after, (invoice label amount secret).run.run socket = (.ok paymentSecret, after) ∧
      Precedes socket after passed := by
  unfold invoice
  obtain ⟨after, hcall, precedes⟩ := run_call h
  have hask : (ask "invoice" _ invoice?).run.run socket = _ := run_ask_ok hcall
  rw [hjson] at hask
  refine ⟨after, ?_, precedes⟩
  rw [Step.run_bind_ok hask]
  simp only [ne_eq, not_true_eq_false, if_false]
  rfl

/-- An invoice that comes back is one for the secret. -/
theorem answer?_of_run_invoice {amount : Msat} {paymentSecret : String}
    (h : (invoice label amount secret).run.run socket = (.ok paymentSecret, after)) :
    ∃ passed json, answer? "invoice" (next socket) = some (passed, .ok json) ∧
      invoice? json = some (secret.hashHex, paymentSecret) ∧ Precedes socket after passed := by
  unfold invoice at h
  generalize Json.object _ = params at h
  rcases hask : (ask "invoice" params invoice?).run.run socket with ⟨_ | ⟨hash, found⟩, after'⟩
  · cases h.symm.trans (Step.run_bind_error hask)
  · obtain ⟨passed, json, hanswer, hjson, precedes⟩ := answer?_of_run_ask hask
    rw [Step.run_bind_ok hask] at h
    by_cases hhash : hash ≠ secret.hashHex
    · simp only [if_pos hhash] at h
      cases h
    · simp only [if_neg hhash] at h
      cases h
      rw [not_not] at hhash
      exact ⟨passed, json, hanswer, hhash ▸ hjson, precedes⟩

theorem run_dispatch (accepts : Accepts socket secret) :
    ∃ waiting, (dispatch label route secret).run.run socket = (.ok (), waiting) := by
  obtain ⟨paymentSecret, hinvoice⟩ := accepts.invoices
  obtain ⟨json, hresult, hjson⟩ := Option.bind_eq_some_iff.mp hinvoice
  obtain ⟨passed, hinvoice⟩ := result?_eq_some_iff.mp hresult
  obtain ⟨json', hresult'⟩ := Option.isSome_iff_exists.mp accepts.sends
  obtain ⟨passed', hsend⟩ := result?_eq_some_iff.mp hresult'
  obtain ⟨after, hrun, precedes⟩ := run_invoice hinvoice hjson
  rw [← precedes.next_eq] at hsend
  obtain ⟨waiting, hcall, -⟩ := run_call hsend
  refine ⟨waiting, ?_⟩
  rw [dispatch, Step.run_bind_ok hrun, sendpay, Step.run_bind_ok hcall]
  rfl

/-- Both calls have been answered if a payment is taken on, and the third is up. -/
theorem accepts_of_run_dispatch
    (h : (dispatch label route secret).run.run socket = (.ok (), waiting)) :
    Accepts socket secret ∧ next waiting = socket.connection (socket.nextId + 2) := by
  unfold dispatch at h
  rcases hinvoice : (invoice label route.amount secret).run.run socket with
    ⟨_ | paymentSecret, after⟩
  · cases h.symm.trans (Step.run_bind_error hinvoice)
  rw [Step.run_bind_ok hinvoice] at h
  obtain ⟨passed, json, hanswer, hjson, precedes⟩ := answer?_of_run_invoice hinvoice
  unfold sendpay at h
  generalize Json.object _ = params at h
  rcases hcall : (call "sendpay" params).run.run after with ⟨_ | json', after'⟩
  · cases h.symm.trans (Step.run_bind_error hcall)
  rw [Step.run_bind_ok hcall] at h
  cases h
  obtain ⟨passed', hanswer', precedes'⟩ := answer?_of_run_call hcall
  rw [precedes.next_eq] at hanswer'
  have hresult := result?_eq_some_iff.mpr ⟨passed, hanswer⟩
  have hresult' := result?_eq_some_iff.mpr ⟨passed', hanswer'⟩
  refine ⟨⟨⟨paymentSecret, ?_⟩, Option.isSome_of_eq_some hresult'⟩, ?_⟩
  · rw [hresult, Option.bind_some, hjson]
  · rw [precedes'.next_eq, precedes.connection, precedes.nextId]

/-! ## The outcome of a payment -/

/-- What is known of a payment that was taken on. -/
inductive Fate where
  | settled (preimage : Preimage)
  /-- The node says that it is still under way. -/
  | pending
  /-- The node says that it has failed, or that it knows of no such payment. -/
  | failed (code : Int) (message : String)
  /-- The connection ends without an answer, or the answer cannot be read. -/
  | unknown (error : ClientError)
  /-- There is no answer until the client gives up. -/
  | overdue
  /-- The client breaks down before it asks. -/
  | unasked
deriving DecidableEq

/-- What an answer to the call that waits tells. -/
def fate : Except ClientError Json → Fate
  | .ok json => (revealed? json).elim (.unknown (.decode none)) .settled
  | .error (.rpc code message) => if code = stillPending then .pending else .failed code message
  | .error error => .unknown error

/-- What a connection for that call comes to while the client waits. -/
def fateOver (limit : Nat) (connection : Connection) : Fate :=
  match answer? "waitsendpay" connection with
  | none => .overdue
  | some (passed, answer) => if passed < limit then fate answer else .overdue

/-- What becomes known of a payment over the connection that is to tell its outcome. -/
def verdict (timeout : UInt64) (connection : Connection) : Fate :=
  if isTellable timeout then fateOver (patience timeout) connection else .unasked

/-- What the client reports of a payment. -/
def Fate.report : Fate → Except Interruption Preimage
  | .settled preimage => .ok preimage
  | .pending | .overdue => .error (.failure .timeout)
  | .failed code message => .error (.failure (.rpc code message))
  | .unknown error => .error (.failure error)
  | .unasked => .error .overflow

theorem Fate.report_ne_silence (known : Fate) : known.report ≠ .error .silence := by
  cases known with
  | settled _ | pending | failed _ _ | unknown _ | overdue | unasked => nofun

/-- Once the call that waits is answered, the client reports what the answer tells. -/
theorem run_waitsendpay_of_answer {answer : Except ClientError Json}
    (h : answer? "waitsendpay" (next waiting) = some (passed, answer)) :
    ∃ after, (waitsendpay secret timeout).run.run waiting = ((fate answer).report, after) ∧
      after.clock = waiting.clock + passed := by
  unfold waitsendpay
  generalize Json.object [("payment_hash", .string secret.hashHex),
    ("timeout", .nat timeout.toNat)] = params
  obtain ⟨after, hcall, precedes⟩ := @run_call "waitsendpay" params _ _ _ h
  refine ⟨after, ?_, precedes.clock⟩
  cases answer with
  | error error =>
    simp only
    rw [Step.run_tryCatch_error (run_ask_error hcall)]
    cases error with
    | rpc code message =>
      simp only [Step.run_throw, fate]
      by_cases hcode : code = stillPending
      · rw [if_pos hcode, if_pos hcode]
        rfl
      · rw [if_neg hcode, if_neg hcode]
        rfl
    | timeout | transport _ | decode _ => rfl
  | ok json =>
    have hask : (ask _ _ revealed?).run.run waiting = _ := run_ask_ok hcall
    simp only [fate]
    cases hjson : revealed? json with
    | some preimage =>
      rw [hjson] at hask
      exact Step.run_tryCatch_ok hask
    | none =>
      rw [hjson] at hask
      exact Step.run_tryCatch_error hask

theorem run_waitsendpay_silence (h : answer? "waitsendpay" (next waiting) = none) :
    ∃ after, (waitsendpay secret timeout).run.run waiting = (.error .silence, after) := by
  unfold waitsendpay
  obtain ⟨after, hcall⟩ := run_call_silence h
  exact ⟨after, Step.run_tryCatch_error (run_ask_error hcall)⟩

theorem isOverBefore_iff {deadline : Nat} {result : Except Interruption α}
    (heard : result ≠ .error .silence) :
    isOverBefore deadline (result, after) ↔ after.clock < deadline := by
  unfold isOverBefore
  split
  next heq => exact absurd (congrArg Prod.fst heq) heard
  next heq =>
    cases heq
    exact decide_eq_true_iff

/-- An exchange that is over before the deadline comes to what it does anyway; any other one is given
up. -/
theorem run_within {exchange : Rpc α} {ending : Except Interruption α × Socket}
    (h : exchange.run.run socket = ending) : ((within limit exchange).run.run socket).1 =
      if isOverBefore (socket.clock + limit) ending then ending.1
      else .error (.failure .timeout) := by
  subst h
  exact apply_ite Prod.fst _ _ _

/-- What follows once a payment is taken on. -/
def follow (secret : PaymentSecret) (timeout : UInt64) : Rpc Preimage := do
  if !isTellable timeout then throw .overflow
  within (patience timeout) (waitsendpay secret timeout)

/-- The client reports what becomes known of a payment that was taken on. -/
theorem run_follow :
    ((follow secret timeout).run.run waiting).1 = (verdict timeout (next waiting)).report := by
  unfold follow verdict
  cases isTellable timeout with
  | false => rfl
  | true =>
    show ((within (patience timeout) (waitsendpay secret timeout)).run.run waiting).1 = _
    simp only [if_true, fateOver]
    cases hanswer : answer? "waitsendpay" (next waiting) with
    | none =>
      obtain ⟨after, hwait⟩ := @run_waitsendpay_silence secret timeout _ hanswer
      rw [run_within hwait]
      rfl
    | some answered =>
      obtain ⟨passed, answer⟩ := answered
      obtain ⟨after, hwait, hclock⟩ := @run_waitsendpay_of_answer secret timeout _ _ _ hanswer
      have hover : isOverBefore (waiting.clock + patience timeout) ((fate answer).report, after) ↔
          passed < patience timeout := by
        rw [isOverBefore_iff (fate answer).report_ne_silence, hclock, Nat.add_lt_add_iff_left]
      rw [run_within hwait]
      by_cases early : passed < patience timeout
      · simp only [if_pos early, if_pos (hover.mpr early)]
      · simp only [if_neg early, if_neg (mt hover.mp early)]
        rfl

/-! ## Timeouts -/

/-- A step that does not report a timeout, however the socket stands. -/
def InTime (x : Rpc α) : Prop :=
  ∀ socket, (x.run.run socket).1 ≠ .error (.failure .timeout)

theorem InTime.bind {x : Rpc α} {f : α → Rpc β} (hx : InTime x) (hf : ∀ a, InTime (f a)) :
    InTime (x >>= f) := by
  intro socket
  cases h : x.run.run socket with
  | mk result after =>
    cases result with
    | ok a =>
      rw [Step.run_bind_ok h]
      exact hf a after
    | error interruption =>
      rw [Step.run_bind_error h]
      have := hx socket
      rw [h] at this
      simpa using this

theorem inTime_pure (a : α) : InTime (pure a) := nofun

theorem inTime_throw {interruption : Interruption} (h : interruption ≠ .failure .timeout) :
    InTime (throw interruption : Rpc α) := by
  intro socket
  rw [Step.run_throw]
  simpa using h

/-- However a reply is cut, it is none that says that time is up. -/
theorem await_ne_timeout (method : String) (lexer : Json.Lexer) (delivery : Delivery) :
    Reply.await method lexer delivery ≠ some (passed, .error .timeout) := by
  induction delivery generalizing lexer passed with
  | piece bytes rest ih =>
    simp only [Reply.await]
    split
    · nofun
    · exact ih _
    · nofun
  | pause duration rest ih =>
    intro h
    obtain ⟨⟨passed', result⟩, hrest, heq⟩ := Option.map_eq_some_iff.mp h
    cases heq
    exact ih lexer hrest
  | closed | broken | silent => nofun

theorem answer_ne_timeout (method : String) (connection : Connection) :
    answer? method connection ≠ some (passed, .error .timeout) := by
  cases connection with
  | refused => nofun
  | accepted delivery =>
    intro h
    obtain ⟨⟨passed', result⟩, hawait, heq⟩ := Option.map_eq_some_iff.mp h
    cases result with
    | error error =>
      cases heq
      exact await_ne_timeout method {} _ hawait
    | ok reply =>
      obtain ⟨result, error⟩ := reply
      cases error with
      | none => cases heq
      | some error => cases heq

/-- No call reports a timeout by itself. -/
theorem inTime_call (method : String) (params : Json) : InTime (call method params) := by
  intro socket
  cases h : answer? method (next socket) with
  | none =>
    obtain ⟨after, hcall⟩ := @run_call_silence method params _ h
    rw [hcall]
    nofun
  | some answered =>
    obtain ⟨passed, answer⟩ := answered
    obtain ⟨after, hcall, -⟩ := @run_call method params _ _ _ h
    rw [hcall]
    cases answer with
    | ok result => nofun
    | error error =>
      rintro ⟨⟩
      exact answer_ne_timeout method _ h

theorem inTime_ask (method : String) (params : Json) (decode : Json → Option α) :
    InTime (ask method params decode) := by
  refine (inTime_call method params).bind fun json => ?_
  cases decode json with
  | none => exact inTime_throw nofun
  | some value => exact inTime_pure value

/-- Until a payment is taken on, no timeout is reported. -/
theorem inTime_dispatch (label : String) (route : Route) (secret : PaymentSecret) :
    InTime (dispatch label route secret) := by
  have invoiced : InTime (invoice label route.amount secret) := by
    refine (inTime_ask _ _ _).bind fun reply => ?_
    obtain ⟨hash, paymentSecret⟩ := reply
    by_cases hhash : hash ≠ secret.hashHex
    · simp only [if_pos hhash]
      have refused : InTime (throw (.failure (.decode none)) : Rpc PUnit) := inTime_throw nofun
      exact refused.bind fun _ => inTime_pure _
    · simp only [if_neg hhash]
      exact inTime_pure _
  refine invoiced.bind fun paymentSecret => ?_
  exact (inTime_call _ _).bind fun _ => inTime_pure ()

theorem verdict_of_answer {connection : Connection} {answer : Except ClientError Json}
    (tellable : isTellable timeout) (h : answer? "waitsendpay" connection = some (passed, answer))
    (early : passed < patience timeout) : verdict timeout connection = fate answer := by
  rw [verdict, if_pos tellable, fateOver, h]
  exact if_pos early

theorem fate_ne_unknown_timeout {answer : Except ClientError Json} (h : answer ≠ .error .timeout) :
    fate answer ≠ .unknown .timeout := by
  cases answer with
  | ok json =>
    simp only [fate]
    cases revealed? json with
    | none => nofun
    | some preimage => nofun
  | error error =>
    cases error with
    | timeout => exact absurd rfl h
    | rpc code message =>
      simp only [fate]
      split
      · nofun
      · nofun
    | transport _ | decode _ => nofun

/-- What is unknown is so for another reason. -/
theorem verdict_ne_unknown_timeout (connection : Connection) :
    verdict timeout connection ≠ .unknown .timeout := by
  unfold verdict fateOver
  split
  · split
    · nofun
    next passed answer hanswer =>
      split
      · exact fate_ne_unknown_timeout fun h => answer_ne_timeout _ _ (h ▸ hanswer)
      · nofun
  · nofun

/-! ## What becomes of a payment -/

/-- A payment is dispatched, and then followed. -/
theorem sendPay_eq (label : String) (route : Route) (secret : PaymentSecret) (timeout : UInt64) :
    sendPay label route secret timeout =
      dispatch label route secret >>= fun _ => follow secret timeout := by
  rw [dispatch, bind_assoc]
  rfl

/-- What a caller gets to see of an exchange: nothing, if it does not come back. -/
def reported : Except Interruption α → Option (Except ClientError α)
  | .ok result => some (.ok result)
  | .error (.failure error) => some (.error error)
  | .error .silence | .error .overflow => none

/-- The client of a node whose socket stands as `socket`. -/
def client (label : String) (socket : Socket) (payment : Payment) :
    Option (Except ClientError Preimage) :=
  reported ((sendPay label payment.route payment.secret payment.timeout).run.run socket).1

/-- The node takes a payment on, and this is what becomes known of it afterwards. -/
def TakesOn (label : String) (socket : Socket) (payment : Payment) (known : Fate) : Prop :=
  ∃ waiting, (dispatch label payment.route payment.secret).run.run socket = (.ok (), waiting) ∧
    verdict payment.timeout (next waiting) = known

variable {payment : Payment} {known known' : Fate}

/-- It depends on the connections for the three calls alone: the first two have to be answered, and
the third tells the outcome. -/
theorem takesOn_iff : TakesOn label socket payment known ↔
    Accepts socket payment.secret ∧
      verdict payment.timeout (socket.connection (socket.nextId + 2)) = known := by
  constructor
  · rintro ⟨waiting, taken, h⟩
    obtain ⟨accepts, hthird⟩ := accepts_of_run_dispatch taken
    exact ⟨accepts, hthird ▸ h⟩
  · rintro ⟨accepts, h⟩
    obtain ⟨waiting, taken⟩ := run_dispatch accepts
    exact ⟨waiting, taken, (accepts_of_run_dispatch taken).2 ▸ h⟩

theorem TakesOn.unique (h : TakesOn label socket payment known)
    (h' : TakesOn label socket payment known') : known = known' := by
  obtain ⟨waiting, taken, rfl⟩ := h
  obtain ⟨waiting', taken', rfl⟩ := h'
  rw [taken, Prod.mk.injEq] at taken'
  rw [taken'.2]

/-- The client reports what becomes known of a payment that was taken on. -/
theorem TakesOn.client_eq (h : TakesOn label socket payment known) :
    client label socket payment = reported known.report := by
  obtain ⟨waiting, taken, rfl⟩ := h
  rw [client, sendPay_eq, Step.run_bind_ok taken, run_follow]

/-- A payment that is not taken on fails, if the client comes back. -/
theorem client_of_not_takesOn (h : ∀ known, ¬ TakesOn label socket payment known) :
    client label socket payment = none ∨
      ∃ error, client label socket payment = some (.error error) ∧ error ≠ .timeout := by
  have intime := inTime_dispatch label payment.route payment.secret socket
  rw [client, sendPay_eq]
  cases hrun : (dispatch label payment.route payment.secret).run.run socket with
  | mk result after =>
    cases result with
    | ok taken => exact absurd ⟨after, hrun, rfl⟩ (h _)
    | error interruption =>
      rw [hrun] at intime
      rw [Step.run_bind_error hrun]
      cases interruption with
      | silence | overflow => exact .inl rfl
      | failure error => exact .inr ⟨error, rfl, by simpa using intime⟩

/-- Not knowing is not a timeout. -/
theorem TakesOn.ne_timeout {error : ClientError}
    (h : TakesOn label socket payment (.unknown error)) : error ≠ .timeout := by
  rintro rfl
  obtain ⟨waiting, -, h⟩ := h
  exact verdict_ne_unknown_timeout _ h

/-- What the client reports of a payment that was taken on, by what becomes known of it. -/
theorem TakesOn.client_cases (h : TakesOn label socket payment known) :
    (client label socket payment = none ↔ known = .unasked) ∧
    (client label socket payment = some (.error .timeout) ↔ known = .pending ∨ known = .overdue) ∧
    ((∃ error, client label socket payment = some (.error error) ∧ error ≠ .timeout) ↔
      (∃ code message, known = .failed code message) ∨ ∃ error, known = .unknown error) ∧
    ∀ preimage, client label socket payment = some (.ok preimage) ↔ known = .settled preimage := by
  rw [h.client_eq]
  cases known with
  | unknown error => simp [Fate.report, reported, h.ne_timeout]
  | settled | pending | overdue | failed | unasked => simp [Fate.report, reported]

/-- The client reports a timeout exactly if the node says that the payment is pending, or says nothing
until the client gives up. -/
theorem client_eq_timeout_iff : client label socket payment = some (.error .timeout) ↔
    TakesOn label socket payment .pending ∨ TakesOn label socket payment .overdue := by
  constructor
  · intro h
    by_cases taken : ∃ known, TakesOn label socket payment known
    · obtain ⟨known, taken⟩ := taken
      rcases taken.client_cases.2.1.mp h with rfl | rfl
      · exact .inl taken
      · exact .inr taken
    · rcases client_of_not_takesOn (not_exists.mp taken) with hnone | ⟨error, herror, hne⟩
      · cases hnone.symm.trans h
      · cases herror.symm.trans h
        exact absurd rfl hne
  · rintro (pending | overdue)
    · exact pending.client_cases.2.1.mpr (.inl rfl)
    · exact overdue.client_cases.2.1.mpr (.inr rfl)

/-- If the client comes back, it reports the failure of a payment that was not taken on, that has
failed, or of which nothing is known. -/
theorem client_fails_iff (back : client label socket payment ≠ none) :
    (∃ error, client label socket payment = some (.error error) ∧ error ≠ .timeout) ↔
      (∀ known, ¬ TakesOn label socket payment known) ∨
      (∃ code message, TakesOn label socket payment (.failed code message)) ∨
      ∃ error, TakesOn label socket payment (.unknown error) := by
  constructor
  · intro h
    by_cases taken : ∃ known, TakesOn label socket payment known
    · obtain ⟨known, taken⟩ := taken
      rcases taken.client_cases.2.2.1.mp h with ⟨code, message, rfl⟩ | ⟨error, rfl⟩
      · exact .inr (.inl ⟨code, message, taken⟩)
      · exact .inr (.inr ⟨error, taken⟩)
    · exact .inl (not_exists.mp taken)
  · rintro (none | ⟨code, message, failed⟩ | ⟨error, unknown⟩)
    · exact (client_of_not_takesOn none).resolve_left back
    · exact failed.client_cases.2.2.1.mpr (.inl ⟨code, message, rfl⟩)
    · exact unknown.client_cases.2.2.1.mpr (.inr ⟨error, rfl⟩)

/-! ## Attempts over the client -/

/-- The client comes back from all these payments, and a payer relays what it reports.  An attempt that
makes a payment from which the client does not come back does not end. -/
def Relays (label : String) (socket : Socket) (payer : Payer) (payments : List Payment) : Prop :=
  ∀ payment ∈ payments, client label socket payment = some (payer payment)

/-- **Failures.**  Of a payment that a node has taken on, the client reports an error other than a
timeout exactly if the node says that the payment has failed, or if its answer is lost or cannot be
read, and a timeout exactly if the node says that the payment is pending or says nothing before the
client gives up; it always comes back, unless the time to wait is too long to be told.  An engine
over the client reports a timeout exactly if the node says that the payment is pending or says
nothing; a temporary failure stands for a payment that was not taken on, for one that has failed,
and for one of which nothing is known. -/
theorem run_classifies_payments (engine : Rebalancer) (request : RebalanceRequest)
    (secret : PaymentSecret) (elapsed : Nat → Nat) (label : String) (socket : Socket) :
    (∀ payment known, TakesOn label socket payment known →
      ((∃ error, client label socket payment = some (.error error) ∧ error ≠ .timeout) ↔
        (∃ code message, known = .failed code message) ∨ ∃ error, known = .unknown error) ∧
      (client label socket payment = some (.error .timeout) ↔
        known = .pending ∨ known = .overdue) ∧
      (client label socket payment = none ↔ known = .unasked)) ∧
    ∀ payer, Relays label socket payer (engine.run request payer secret elapsed).2.payments →
      ((engine.run request payer secret elapsed).1 = .error .paymentTimeout ↔
        ∃ payment ∈ (engine.run request payer secret elapsed).2.payments,
          TakesOn label socket payment .pending ∨ TakesOn label socket payment .overdue) ∧
      ((engine.run request payer secret elapsed).1 = .error .temporaryFailure ↔
        ∃ payment ∈ (engine.run request payer secret elapsed).2.payments,
          (∀ known, ¬ TakesOn label socket payment known) ∨
          (∃ code message, TakesOn label socket payment (.failed code message)) ∨
          ∃ error, TakesOn label socket payment (.unknown error)) := by
  constructor
  · intro payment known taken
    obtain ⟨hnone, htimeout, hfails, -⟩ := taken.client_cases
    exact ⟨hfails, htimeout, hnone⟩
  intro payer relays
  have ends := engine.run_ends request payer secret elapsed
  constructor
  · rw [ends.eq_paymentTimeout_iff]
    refine exists_congr fun payment => and_congr_right fun mem => ?_
    rw [← client_eq_timeout_iff, relays payment mem, Option.some.injEq]
  · rw [ends.eq_temporaryFailure_iff]
    refine exists_congr fun payment => and_congr_right fun mem => ?_
    have back : client label socket payment ≠ none := by
      rw [relays payment mem]
      nofun
    simp only [← client_fails_iff back, relays payment mem, Option.some.injEq]

/-! ### A node that says no more -/

/-- A connection over which a reply with a result comes at once. -/
def answering (result : Json) : Connection :=
  .accepted (.ofPieces [Json.print (.object [("result", result)])])

/-- An invoice for the triangle's secret. -/
def triangleInvoice : Json := .object [
  ("payment_hash", .string Rebalancer.triangleSecret.hashHex),
  ("payment_secret", .string "s3cret")]

/-- The node writes that invoice and takes a payment on.  What becomes of the connection for the third
call is left open. -/
def taking (third : Connection) : Socket where
  connection
    | 1 => answering triangleInvoice
    | 2 => answering (.object [("status", .string "pending")])
    | _ => third

/-- The payment around the triangle. -/
def trianglePayment : Payment :=
  Rebalancer.triangle.payment Rebalancer.triangleSecret
    (Rebalancer.triangleChannel 1 "S" "X" 50000000 0) (Rebalancer.triangleChannel 3 "Y" "S" 0 1000)
    (Route.ofHops ⟨"X"⟩ ⟨"Y"⟩ 1000000 [⟨Rebalancer.triangleChannel 2 "X" "Y" 1000000 500, 1000000, 0⟩])

/-- Whoever pays, that payment is made and no other. -/
theorem triangle_payments (payer : Payer) : (Rebalancer.triangle.run Rebalancer.triangleRequest
    payer Rebalancer.triangleSecret fun _ => 0).2.payments = [trianglePayment] := by
  rw [Rebalancer.payments_run_congr _ _ payer Rebalancer.reveal]
  decide +kernel

theorem taking_accepts (third : Connection) :
    Accepts (taking third) Rebalancer.triangleSecret := by
  have invoices : (result? "invoice" (answering triangleInvoice)).bind invoice? =
      some (Rebalancer.triangleSecret.hashHex, "s3cret") := by decide +kernel
  have sends : (result? "sendpay" (answering (.object [("status", .string "pending")]))).isSome := by
    decide +kernel
  exact ⟨⟨_, invoices⟩, sends⟩

/-- The third connection tells the outcome. -/
theorem taking_takesOn {third : Connection} {known : Fate}
    (h : verdict trianglePayment.timeout third = known) :
    TakesOn "circular" (taking third) trianglePayment known :=
  takesOn_iff.mpr ⟨taking_accepts third, h⟩

/-- A payer relays what the client reports of the payment around the triangle. -/
theorem TakesOn.relays_triangle {payer : Payer} (h : TakesOn label socket trianglePayment known)
    (answer : reported known.report = some (payer trianglePayment)) :
    Relays label socket payer (Rebalancer.triangle.run Rebalancer.triangleRequest payer
      Rebalancer.triangleSecret fun _ => 0).2.payments := by
  rw [triangle_payments]
  exact List.forall_mem_singleton.mpr (h.client_eq.trans answer)

/-- If the node falls silent then, the attempt times out. -/
theorem run_silent_triangle :
    let payer : Payer := fun _ => .error .timeout
    let ending := Rebalancer.triangle.run Rebalancer.triangleRequest payer
      Rebalancer.triangleSecret fun _ => 0
    Relays "circular" (taking (.accepted .silent)) payer ending.2.payments ∧
      ending.1 = .error .paymentTimeout := by
  intro payer ending
  have overdue : TakesOn "circular" (taking (.accepted .silent)) trianglePayment .overdue :=
    taking_takesOn rfl
  have relays : Relays "circular" (taking (.accepted .silent)) payer ending.2.payments :=
    overdue.relays_triangle rfl
  have classified := (run_classifies_payments Rebalancer.triangle Rebalancer.triangleRequest
    Rebalancer.triangleSecret (fun _ => 0) "circular" (taking (.accepted .silent))).2 payer relays
  refine ⟨relays, classified.1.mpr ⟨trianglePayment, ?_, .inr overdue⟩⟩
  exact triangle_payments payer ▸ List.mem_singleton_self trianglePayment

/-- The connection is closed then without an answer. -/
def lapse : ClientError :=
  .transport (some ("waitsendpay" ++ ": connection closed before a complete response"))

theorem lapse_takesOn :
    TakesOn "circular" (taking (.accepted .closed)) trianglePayment (.unknown lapse) := by
  have answered : answer? "waitsendpay" (.accepted .closed) = some (0, .error lapse) := rfl
  have early : 0 < patience trianglePayment.timeout := by decide
  exact taking_takesOn (verdict_of_answer rfl answered early)

/-- A payment that was taken on and whose outcome is unknown is reported as a failure, by the client
and by an engine over it. -/
theorem lapse_not_timeout :
    (¬ ∀ label socket payment known error, TakesOn label socket payment known →
      client label socket payment = some (.error error) → error ≠ .timeout →
        ∃ code message, known = .failed code message) ∧
    ¬ ∀ (engine : Rebalancer) request secret elapsed label socket payer,
      Relays label socket payer (engine.run request payer secret elapsed).2.payments →
      (engine.run request payer secret elapsed).1 = .error .temporaryFailure →
      ∀ payment ∈ (engine.run request payer secret elapsed).2.payments,
        (∀ known, ¬ TakesOn label socket payment known) ∨
        ∃ code message, TakesOn label socket payment (.failed code message) := by
  constructor
  · intro claim
    obtain ⟨code, message, heq⟩ :=
      claim "circular" _ trianglePayment _ _ lapse_takesOn lapse_takesOn.client_eq nofun
    cases heq
  · intro claim
    let payer : Payer := fun _ => .error lapse
    let ending := Rebalancer.triangle.run Rebalancer.triangleRequest payer
      Rebalancer.triangleSecret fun _ => 0
    have mem : trianglePayment ∈ ending.2.payments :=
      triangle_payments payer ▸ List.mem_singleton_self trianglePayment
    have failure : ending.1 = .error .temporaryFailure :=
      (Rebalancer.run_ends ..).eq_temporaryFailure_iff.mpr ⟨_, mem, _, rfl, nofun⟩
    rcases claim _ _ _ _ _ _ _ (lapse_takesOn.relays_triangle rfl) failure _ mem with
      none | ⟨code, message, failed⟩
    · exact none _ lapse_takesOn
    · cases failed.unique lapse_takesOn

end Rpc

end Rebalancing
