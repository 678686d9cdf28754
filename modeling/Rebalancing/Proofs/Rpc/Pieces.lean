import Rebalancing.Proofs.Json.Cut
import Rebalancing.Proofs.Json.Records
import Rebalancing.Proofs.Rpc.Payment

/-!
# Replies in pieces

A reply is read as the whole of it would be, however it is cut into reads and whatever the
pauses between them, unless a read ends in a numeral that cannot stand as it is.  What is there
is looked at after each read, and such a numeral is not always told from an error: it counts as
one in a member that is skimmed, and where the digits so far are too large for a double.
-/

namespace Rebalancing

namespace Delivery

variable {delivery : Delivery}

/-- The pieces that come, without the pauses. -/
def pieces : Delivery → List (List UInt8)
  | .piece bytes rest => bytes :: rest.pieces
  | .pause _ rest => rest.pieces
  | .closed | .broken | .silent => []

/-- What a client that reads on behind the last piece comes to. -/
def interruption (method : String) : Delivery → Interruption
  | .piece _ rest | .pause _ rest => rest.interruption method
  | .closed =>
    .failure (.transport (some (method ++ ": connection closed before a complete response")))
  | .broken => .failure (.transport none)
  | .silent => .silence

/-- The reads that take in the given pieces. -/
def readsOf (pieces : List (List UInt8)) : List (List UInt8) :=
  pieces.flatMap fun piece => chunks readSize piece.length piece

theorem flatten_chunks {size fuel : Nat} {bytes : List UInt8} (hsize : 0 < size)
    (h : bytes.length ≤ fuel) : (chunks size fuel bytes).flatten = bytes := by
  induction fuel generalizing bytes with
  | zero => exact (List.eq_nil_of_length_eq_zero (Nat.le_zero.mp h)).symm
  | succ fuel ih =>
    unfold chunks
    split
    case isTrue empty => exact empty.symm
    case isFalse nonempty =>
      have hlength := List.length_pos_iff.mpr nonempty
      rw [List.flatten_cons, ih (by rw [List.length_drop]; omega), List.take_append_drop]

/-- Nothing is lost between pieces and reads. -/
theorem flatten_readsOf (pieces : List (List UInt8)) : (readsOf pieces).flatten = pieces.flatten := by
  unfold readsOf
  induction pieces with
  | nil => rfl
  | cons piece rest ih =>
    rw [List.flatMap_cons, List.flatten_append, ih, flatten_chunks (by decide) (Nat.le_refl _),
      List.flatten_cons]

theorem pieces_foldr (parts : List (List UInt8)) (rest : Delivery) :
    (parts.foldr .piece rest).pieces = parts ++ rest.pieces := by
  induction parts with
  | nil => rfl
  | cons part parts ih => exact congrArg (part :: ·) ih

theorem interruption_foldr (method : String) (parts : List (List UInt8)) (rest : Delivery) :
    (parts.foldr .piece rest).interruption method = rest.interruption method := by
  induction parts with
  | nil => rfl
  | cons part parts ih => exact ih

/-- Pieces that come at once are what comes. -/
@[simp] theorem pieces_ofPieces (parts : List (List UInt8)) : (ofPieces parts).pieces = parts := by
  rw [ofPieces, pieces_foldr]
  exact List.append_nil parts

theorem pieces_inReads : delivery.inReads.pieces = readsOf delivery.pieces := by
  induction delivery with
  | piece bytes rest ih =>
    rw [inReads, pieces_foldr, ih, pieces]
    rfl
  | pause duration rest ih => exact ih
  | closed | broken | silent => rfl

theorem interruption_inReads (method : String) :
    delivery.inReads.interruption method = delivery.interruption method := by
  induction delivery with
  | piece bytes rest ih => rw [inReads, interruption_foldr, ih, interruption]
  | pause duration rest ih => exact ih
  | closed | broken | silent => rfl

end Delivery

namespace Reply

open Json (Reader Lexer IsDocument IsUnfinished)
open Json.Reader (Reads AllRead reads_tree reads_text reads_integer reads_record)

/-! ## The record -/

theorem allRead_errorFields : AllRead errorFields := by
  unfold errorFields AllRead
  simp only [List.forall_mem_cons, List.not_mem_nil, false_implies, implies_true, and_true]
  constructor
  · intro body
    have reads : Reads true .read (Reader.integer Int64.minValue.toInt Int64.maxValue.toInt) :=
      reads_integer (by decide) (by decide)
    exact reads.map fun code => { body with code := some code }
  · intro body
    exact reads_text.map fun message => { body with message }

theorem reads_error (outer : Nat) : Reads false .read (error? outer) :=
  (reads_record allRead_errorFields outer {}).optional

theorem allRead_fields : AllRead fields := by
  unfold fields AllRead
  simp only [List.forall_mem_cons, List.not_mem_nil, false_implies, implies_true, and_true]
  constructor
  · intro reply
    exact (reads_tree .read 1).map fun result => { reply with result }
  · intro reply
    exact (reads_error 1).weaken.map fun error => { reply with error }

theorem reads_reader : Reads false .read reader := reads_record allRead_fields 0 {}

/-! ## One read after the other -/

/-- Whether a read ends in a numeral that cannot stand as it is. -/
def Dangles (lexer : Lexer) : List (List UInt8) → Prop
  | [] => False
  | read :: rest => (lexer.feed read).mode.IsDangling ∨ Dangles (lexer.feed read) rest

def decidableDangles (lexer : Lexer) : (reads : List (List UInt8)) → Decidable (Dangles lexer reads)
  | [] => instDecidableFalse
  | read :: rest => @instDecidableOr _ _ _ (decidableDangles (lexer.feed read) rest)

instance (lexer : Lexer) : DecidablePred (Dangles lexer) := decidableDangles lexer

/-- What a whole text comes to. -/
def ofText (text : List UInt8) : Except ClientError Reply :=
  (ofLexer (Lexer.feed {} text)).mapError fun _ => .decode none

/-- What comes of reading, whenever it does. -/
def outcome {α : Type} : Option (Nat × Except ClientError α) → Except Interruption α
  | none => .error .silence
  | some (_, result) => result.mapError .failure

section Await

variable {method : String} {lexer : Lexer} {before bytes : List UInt8} {delivery rest : Delivery}

theorem outcome_map {α β : Type} (heard : Option (Nat × Except ClientError α))
    (f : α → Except ClientError β) :
    outcome (heard.map fun (passed, result) => (passed, result >>= f)) =
      outcome heard >>= fun a => (f a).mapError .failure := by
  rcases heard with _ | ⟨passed, _ | a⟩
  · rfl
  · rfl
  · rfl

theorem await_of_ok {reply : Reply} (h : ofLexer (lexer.feed bytes) = .ok reply) :
    outcome (await method lexer (.piece bytes rest)) = .ok reply := by
  unfold await
  simp only [h]
  rfl

theorem await_of_cut (h : ofLexer (lexer.feed bytes) = .error .cut) :
    await method lexer (.piece bytes rest) = await method (lexer.feed bytes) rest := by
  conv_lhs => unfold await
  simp only [h]

theorem await_of_error {fault : Json.Fault} (h : ofLexer (lexer.feed bytes) = .error fault)
    (ne : fault ≠ .cut) :
    outcome (await method lexer (.piece bytes rest)) = .error (.failure (.decode none)) := by
  unfold await
  cases fault with
  | cut => exact absurd rfl ne
  | malformed | mismatch =>
    simp only [h]
    rfl

/-- A pause makes no difference but to the time. -/
theorem await_pause (duration : Nat) : outcome (await method lexer (.pause duration rest)) =
    outcome (await method lexer rest) := by
  conv_lhs => unfold await
  cases await method lexer rest with
  | none => rfl
  | some heard => rfl

/-- However a text is cut, its reply is the one of the whole text, or a read ends in a numeral that
cannot stand as it is. -/
theorem await_of_isDocument (document : IsDocument (before ++ delivery.pieces.flatten))
    (cut : ofLexer (Lexer.feed {} before) = .error .cut) :
    outcome (await method (Lexer.feed {} before) delivery) =
        (ofText (before ++ delivery.pieces.flatten)).mapError .failure ∨
      outcome (await method (Lexer.feed {} before) delivery) = .error (.failure (.decode none)) ∧
        Dangles (Lexer.feed {} before) delivery.pieces := by
  induction delivery generalizing before with
  | closed | broken | silent =>
    rw [Delivery.pieces, List.flatten_nil, List.append_nil] at document
    exact absurd cut (Json.whole_ne_cut reads_reader document)
  | pause duration rest ih =>
    rw [await_pause]
    exact ih document cut
  | piece bytes rest ih =>
    rw [Delivery.pieces, List.flatten_cons, ← List.append_assoc] at document ⊢
    cases hread : ofLexer (Lexer.feed {} (before ++ bytes)) with
    | ok reply =>
      have whole : ofLexer (Lexer.feed {} (before ++ bytes ++ rest.pieces.flatten)) = .ok reply :=
        Json.whole_append reads_reader document hread
      rw [Lexer.feed_append] at hread
      rw [await_of_ok hread, ofText, whole]
      exact .inl rfl
    | error fault =>
      have hread' := hread
      rw [Lexer.feed_append] at hread'
      by_cases hcut : fault = .cut
      · subst hcut
        rw [await_of_cut hread', ← Lexer.feed_append]
        exact (ih document hread).imp_right fun ⟨heq, dangles⟩ =>
          ⟨heq, .inr (by rwa [← Lexer.feed_append])⟩
      rw [await_of_error hread' hcut]
      by_cases dangling : (Lexer.feed {} (before ++ bytes)).mode.IsDangling
      · rw [Lexer.feed_append] at dangling
        exact .inr ⟨rfl, .inl dangling⟩
      -- what part of the text is refused for, the whole text is refused for
      refine .inl ?_
      cases htext : ofLexer (Lexer.feed {} (before ++ bytes ++ rest.pieces.flatten)) with
      | error fault =>
        simp only [ofText, htext, Except.mapError]
      | ok reply =>
        rcases Json.whole_of_append reads_reader htext dangling with ok | cut
        · cases hread.symm.trans ok
        · exact absurd (Except.error.inj (hread.symm.trans cut)) hcut

/-- Nothing is read from a text that is unfinished. -/
theorem await_of_isUnfinished (unfinished : IsUnfinished (before ++ delivery.pieces.flatten)) :
    outcome (await method (Lexer.feed {} before) delivery) = .error (.failure (.decode none)) ∨
      outcome (await method (Lexer.feed {} before) delivery) =
        .error (delivery.interruption method) := by
  induction delivery generalizing before with
  | closed | broken | silent => exact .inr rfl
  | pause duration rest ih =>
    rw [await_pause]
    exact ih unfinished
  | piece bytes rest ih =>
    rw [Delivery.pieces, List.flatten_cons, ← List.append_assoc] at unfinished
    cases hread : ofLexer (Lexer.feed {} (before ++ bytes)) with
    | ok reply => exact absurd hread (Json.whole_ne_ok reads_reader unfinished)
    | error fault =>
      rw [Lexer.feed_append] at hread
      by_cases hcut : fault = .cut
      · subst hcut
        rw [await_of_cut hread, ← Lexer.feed_append]
        exact ih unfinished
      · exact .inl (await_of_error hread hcut)

end Await

end Reply

namespace Rpc

open Json (IsDocument IsUnfinished)
open Reply (Dangles outcome)
open Delivery (readsOf)

variable {α : Type}

/-- A result as the caller wants it. -/
def decoded (decode : Json → Option α) (json : Json) : Except ClientError α :=
  (decode json).elim (.error (.decode none)) .ok

/-- What a text says as a whole. -/
def told (decode : Json → Option α) (text : List UInt8) : Except Interruption α :=
  (Reply.ofText text >>= Reply.answer >>= decoded decode).mapError .failure

/-- What a call comes to if the node accepts it, and this comes back. -/
def heard (method : String) (params : Json) (decode : Json → Option α) (socket : Socket)
    (delivery : Delivery) : Except Interruption α :=
  ((ask method params decode).run.run
    { socket with connection := fun _ => .accepted delivery }).1

/-- What follows on a reply. -/
def andThen (decode : Json → Option α) (read : Except Interruption Reply) : Except Interruption α :=
  read >>= fun reply => (Reply.answer reply >>= decoded decode).mapError .failure

theorem told_eq (decode : Json → Option α) (text : List UInt8) :
    told decode text = andThen decode ((Reply.ofText text).mapError .failure) := by
  unfold told
  cases Reply.ofText text with
  | error error => rfl
  | ok reply => rfl

theorem run_ask (method : String) (params : Json) (decode : Json → Option α) (socket : Socket) :
    ((ask method params decode).run.run socket).1 =
      outcome (answer? method (next socket)) >>= fun json =>
        (decoded decode json).mapError Interruption.failure := by
  cases hanswer : answer? method (next socket) with
  | none =>
    obtain ⟨after, hcall⟩ := @run_call_silence method params _ hanswer
    rw [run_ask_error hcall]
    rfl
  | some answered =>
    obtain ⟨passed, answer⟩ := answered
    obtain ⟨after, hcall, -⟩ := @run_call method params _ _ _ hanswer
    cases answer with
    | error error =>
      rw [run_ask_error hcall]
      rfl
    | ok json =>
      rw [run_ask_ok hcall]
      show _ = (decoded decode json).mapError Interruption.failure
      unfold decoded
      cases decode json with
      | none => rfl
      | some value => rfl

theorem heard_eq (method : String) (params : Json) (decode : Json → Option α) (socket : Socket)
    (delivery : Delivery) : heard method params decode socket delivery =
      andThen decode (outcome (Reply.await method {} delivery.inReads)) := by
  have hanswer : answer? method (next { socket with connection := fun _ => .accepted delivery }) =
      Reply.ofDelivery method delivery := rfl
  rw [heard, run_ask, hanswer, Reply.ofDelivery, Reply.outcome_map]
  unfold andThen
  cases outcome (Reply.await method {} delivery.inReads) with
  | error interruption => rfl
  | ok reply =>
    show ((Reply.answer reply).mapError Interruption.failure >>= _) =
      (Reply.answer reply >>= decoded decode).mapError Interruption.failure
    cases Reply.answer reply with
    | error error => rfl
    | ok json => rfl

/-- What is heard of a text is what it says, however it is cut, or a read ends in a numeral that cannot
stand as it is. -/
theorem heard_of_isDocument {text : List UInt8} {delivery : Delivery} (method : String)
    (params : Json) (decode : Json → Option α) (socket : Socket) (document : IsDocument text)
    (hcut : delivery.pieces.flatten = text) :
    heard method params decode socket delivery = told decode text ∨
      heard method params decode socket delivery = .error (.failure (.decode none)) ∧
        Dangles {} (readsOf delivery.pieces) := by
  have hreads : delivery.inReads.pieces.flatten = text := by
    rw [Delivery.pieces_inReads, Delivery.flatten_readsOf, hcut]
  rw [heard_eq, told_eq, ← hreads, ← Delivery.pieces_inReads]
  rw [← hreads] at document
  rcases @Reply.await_of_isDocument method [] delivery.inReads document rfl with h | ⟨h, dangles⟩
  · exact .inl (congrArg (andThen decode) h)
  · exact .inr ⟨congrArg (andThen decode) h, dangles⟩

/-- **Pieces.**  A call comes to what the whole text of the node's answer says, however the text is cut
and whatever comes behind it, unless a read ends in a numeral that cannot stand as it is; then it may
come to an answer that cannot be read.  So two ways to bring a text in which no read ends so come to
the same.  A text that is unfinished comes to neither a result nor an error of the node, but to an
answer that cannot be read or to what the end of the connection means. -/
theorem heard_in_pieces (method : String) (params : Json) (decode : Json → Option α)
    (socket : Socket) :
    (∀ text delivery, IsDocument text → delivery.pieces.flatten = text →
      heard method params decode socket delivery = told decode text ∨
      heard method params decode socket delivery = .error (.failure (.decode none)) ∧
        Dangles {} (readsOf delivery.pieces)) ∧
    (∀ text delivery delivery', IsDocument text →
      delivery.pieces.flatten = text → delivery'.pieces.flatten = text →
      ¬ Dangles {} (readsOf delivery.pieces) → ¬ Dangles {} (readsOf delivery'.pieces) →
      heard method params decode socket delivery = heard method params decode socket delivery') ∧
    ∀ delivery, IsUnfinished delivery.pieces.flatten →
      heard method params decode socket delivery = .error (.failure (.decode none)) ∨
      heard method params decode socket delivery = .error (delivery.interruption method) := by
  have whole (text delivery) := @heard_of_isDocument α text delivery method params decode socket
  refine ⟨whole, fun text delivery delivery' document hcut hcut' steady steady' => ?_,
    fun delivery unfinished => ?_⟩
  · have h := (whole text delivery document hcut).resolve_right fun h => steady h.2
    have h' := (whole text delivery' document hcut').resolve_right fun h => steady' h.2
    exact h.trans h'.symm
  · rw [← Delivery.flatten_readsOf, ← Delivery.pieces_inReads] at unfinished
    rw [heard_eq, ← Delivery.interruption_inReads]
    exact (@Reply.await_of_isUnfinished method [] delivery.inReads unfinished).imp
      (congrArg (andThen decode)) (congrArg (andThen decode))

/-- A reply in pieces that end in the name of a member, in a literal and in a number. -/
def pieces : List (List UInt8) :=
  [Json.ascii "\x7b\"resu", Json.ascii "lt\":[tr", Json.ascii "ue,1", Json.ascii "2]\x7d\n"]

/-- They come to the same after a pause each, in one, and if nothing is said behind them. -/
theorem heard_in_four_pieces :
    heard "getinfo" (.object []) some {} (.ofPieces pieces) = told some pieces.flatten ∧
    heard "getinfo" (.object []) some {} (.ofPieces pieces) =
      heard "getinfo" (.object []) some {} (.pause 60 (.piece pieces.flatten .silent)) ∧
    (heard "getinfo" (.object []) some {} (.ofPieces (pieces.take 3)) =
        .error (.failure (.decode none)) ∨
      heard "getinfo" (.object []) some {} (.ofPieces (pieces.take 3)) = .error (.failure
        (.transport (some ("getinfo" ++ ": connection closed before a complete response"))))) := by
  have document : IsDocument pieces.flatten := by decide +kernel
  have steady : ¬ Dangles {} (readsOf (Delivery.ofPieces pieces).pieces) := by decide +kernel
  have steady' : ¬ Dangles {} (readsOf [pieces.flatten]) := by decide +kernel
  have unfinished : Json.IsUnfinished (Delivery.ofPieces (pieces.take 3)).pieces.flatten :=
    ⟨by decide +kernel, (pieces.drop 3).flatten, by decide +kernel⟩
  obtain ⟨whole, same, incomplete⟩ := heard_in_pieces "getinfo" (.object []) some {}
  exact ⟨(whole _ _ document rfl).resolve_right fun h => steady h.2,
    same _ _ _ document rfl (List.append_nil _) steady steady', incomplete _ unfinished⟩

/-! ### A number that nobody reads -/

/-- A reply with a negative number in a member that is not known, cut behind its sign. -/
def signed : List (List UInt8) :=
  [Json.ascii "\x7b\"result\":1,\"offset\":-", Json.ascii "1\x7d"]

/-- The cut makes a difference: the text is not refused as a whole. -/
theorem signed_not_heard :
    ¬ ∀ (method : String) (params : Json) (decode : Json → Option Json) (socket : Socket)
      (text : List UInt8) (pieces pieces' : List (List UInt8)),
      IsDocument text → pieces.flatten = text → pieces'.flatten = text →
      heard method params decode socket (.ofPieces pieces) =
        heard method params decode socket (.ofPieces pieces') := by
  intro claim
  have document : IsDocument signed.flatten := by decide +kernel
  have refused : (heard "getinfo" (.object []) some {} (.ofPieces signed)).isOk = false := by
    decide +kernel
  have accepted : (heard "getinfo" (.object []) some {} (.ofPieces [signed.flatten])).isOk = true := by
    decide +kernel
  rw [claim _ _ _ _ _ _ [signed.flatten] document rfl (List.append_nil _), accepted] at refused
  cases refused

end Rpc

end Rebalancing
