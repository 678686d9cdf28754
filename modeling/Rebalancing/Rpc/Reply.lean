import Rebalancing.Attempt.Error
import Rebalancing.Json.Record

/-! # Replies of the Lightning node

A reply is a JSON object with a result or an error. It arrives in pieces, sooner or later, and reading
stops as soon as what has arrived is a whole reply. -/

namespace Rebalancing

/-- What a connection brings to the client, in this order. -/
inductive Delivery where
  | piece (bytes : List UInt8) (rest : Delivery)
  /-- Nothing comes for so many nanoseconds. -/
  | pause (duration : Nat) (rest : Delivery)
  /-- The node closes the connection. -/
  | closed
  /-- The connection breaks off. -/
  | broken
  /-- Nothing comes any more, and the connection stays open. -/
  | silent

namespace Delivery

/-- The given pieces at once. Then the connection is closed. -/
def ofPieces (pieces : List (List UInt8)) : Delivery := pieces.foldr .piece .closed

/-- The most bytes that are taken off a connection at once. -/
def readSize : Nat := 8192

/-- Cuts bytes into parts of at most `size`; `fuel` bounds their number. -/
def chunks (size : Nat) : Nat → List UInt8 → List (List UInt8)
  | 0, _ => []
  | fuel + 1, bytes => if bytes = [] then [] else bytes.take size :: chunks size fuel (bytes.drop size)

/-- The same delivery as it is read, with the parts of each piece in its place. -/
def inReads : Delivery → Delivery
  | .piece bytes rest => (chunks readSize bytes.length bytes).foldr .piece rest.inReads
  | .pause duration rest => .pause duration rest.inReads
  | ending => ending

end Delivery

structure Reply where
  /-- Null if there is none. -/
  result : Json := .null
  /-- The code and the message of an error. -/
  error : Option (Int × String) := none

namespace Reply

open Json (Reader)

structure ErrorBody where
  code : Option Int := none
  message : String := ""

def errorFields : List (Reader.Field ErrorBody) := [
  ⟨"code", fun body => do
    let code ← Reader.integer Int64.minValue.toInt Int64.maxValue.toInt
    return { body with code := some code }⟩,
  ⟨"message", fun body => do return { body with message := ← Reader.text }⟩]

/-- An error needs a code; its message may be left out. -/
def error? (outer : Nat) : Reader (Option (Int × String)) :=
  Reader.optional <| Reader.record errorFields outer {} fun body => body.code.map (·, body.message)

def fields : List (Reader.Field Reply) := [
  ⟨"result", fun reply => do return { reply with result := ← Reader.tree .read 1 }⟩,
  ⟨"error", fun reply => do return { reply with error := ← error? 1 }⟩]

def reader : Reader Reply := Reader.record fields 0 {} some

/-- What the text so far comes to. -/
def ofLexer (lexer : Json.Lexer) : Except Json.Fault Reply := Reader.whole reader lexer

/-- Reads until there is a whole reply, and tells how long it takes. Nothing comes of it if the
connection falls silent before. -/
def await (method : String) (lexer : Json.Lexer) : Delivery → Option (Nat × Except ClientError Reply)
  | .piece bytes rest =>
    let lexer := lexer.feed bytes
    match ofLexer lexer with
    | .ok reply => some (0, .ok reply)
    | .error .cut => await method lexer rest
    | .error _ => some (0, .error (.decode none))
  | .pause duration rest =>
    (await method lexer rest).map fun (passed, result) => (duration + passed, result)
  | .closed =>
    some (0, .error (.transport (some (method ++ ": connection closed before a complete response"))))
  | .broken => some (0, .error (.transport none))
  | .silent => none

/-- What a reply answers. -/
def answer (reply : Reply) : Except ClientError Json :=
  match reply.error with
  | some (code, message) => .error (.rpc code message)
  | none => .ok reply.result.distinct

/-- What the reply that is read off a connection answers, and how long it takes. -/
def ofDelivery (method : String) (delivery : Delivery) : Option (Nat × Except ClientError Json) :=
  (await method {} delivery.inReads).map fun (passed, result) => (passed, result >>= answer)

end Reply

end Rebalancing
