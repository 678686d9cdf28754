import Rebalancing.Command.Report

/-! # Exchanges

Calls and answers as they go over a connection. A connection serves one exchange: whoever answers
closes it at the end of the body. -/

namespace Rebalancing

namespace Command

/-- Where a URL leads. -/
structure Place where
  host : String
  portNumber : UInt16
  path : String
deriving DecidableEq

/-- The place of a plain URL. Without a number behind the host it is the usual one. -/
def placeOf? (url : String) : Option Place :=
  match Text.splitOnce ':' url.toList with
  | some (_, '/' :: '/' :: rest) =>
    let authority := rest.takeWhile fun c => c ≠ '/' ∧ c ≠ '?'
    let path := String.ofList (rest.dropWhile fun c => c ≠ '/' ∧ c ≠ '?')
    if scheme? url ≠ some "http" then none
    else match Text.splitOnce ':' authority with
      | none => some { host := String.ofList authority, portNumber := 80, path }
      | some (host, number) => (Decimal.parse? 0xffff number).map fun number =>
          { host := String.ofList host, portNumber := .ofNat number, path }
  | _ => none

/-- The lines of a call, and its body. -/
def callBytes (place : Place) (call : Call) : List UInt8 :=
  let body := (call.body.map Json.print).getD []
  let described := if call.body.isSome then
      ["Content-Type: application/json", "Content-Length: " ++ Decimal.text body.length]
    else []
  let head := [call.method ++ " " ++ place.path ++ " HTTP/1.0", "Host: " ++ place.host] ++ described
  (String.join (head.map (· ++ "\r\n")) ++ "\r\n").toUTF8.toList ++ body

/-- What follows the blank line after the head. -/
def bodyOf : List UInt8 → Option (List UInt8)
  | 0x0d :: 0x0a :: 0x0d :: 0x0a :: body => some body
  | _ :: rest => bodyOf rest
  | [] => none

/-- The answer in all the bytes that came. The status is the second word. -/
def answerOf? (bytes : List UInt8) : Option Answer := do
  let digits := ((bytes.dropWhile (· ≠ 0x20)).drop 1).takeWhile (· ≠ 0x20)
  let status ← Decimal.parse? 999 (digits.map fun byte => Char.ofNat byte.toNat)
  return { status, body := ← bodyOf bytes }

end Command

end Rebalancing
