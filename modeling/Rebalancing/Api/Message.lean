import Rebalancing.Api.MediaType
import Rebalancing.Json.Value

/-! # Requests and responses

What goes to and fro over the interface of a node. -/

namespace Rebalancing

namespace Api

structure Request where
  method : String
  /-- What is asked for, up to a question mark or a number sign. -/
  target : String
  contentType : Option String := none
  body : List UInt8 := []
deriving DecidableEq

/-- The path in the target of a request. -/
def Request.path (request : Request) : String :=
  String.ofList (request.target.toList.takeWhile fun c => c ≠ '?' ∧ c ≠ '#')

/-- Whether a request says that its body is JSON. -/
def Request.isJson (request : Request) : Bool :=
  ((request.contentType.bind fun text => MediaType.ofChars? text.toList).map MediaType.isJson).getD false

structure Response where
  status : Nat
  /-- The JSON of the body, unless it is empty or a remark. -/
  body : Option Json := none

/-- A failure with its text. -/
def Response.failure (status : Nat) (message : String) : Response where
  status
  body := some (.object [("error", .string message)])

/-- A response without its body. -/
def Response.bare (response : Response) : Response := { response with body := none }

end Api

end Rebalancing
