import Std.Async.DNS
import Std.Async.TCP
import Rebalancing.Command.Exchange
import Rebalancing.Command.Launch
import Rebalancing.Command.Run

/-! # The programs

This is the operator's program, or the node's program if the first argument is `node`. -/

namespace Rebalancing.Program

open Std.Async

def pathOf : Location → String
  | [] => "."
  | "/" :: names => "/" ++ "/".intercalate names
  | names => "/".intercalate names

def didWork (action : IO Unit) : IO Bool := do
  try
    action
    return true
  catch _ => return false

/-- The files of the machine. -/
def machineFiles : Files IO where
  contains location := do
    try
      let _ ← IO.FS.Handle.mk (pathOf location) .read
      return true
    catch
      | .permissionDenied .. => return true
      | _ => return false
  read? location := do
    try
      return some (← IO.FS.readBinFile (pathOf location)).toList
    catch _ => return none
  perform
    | .createDirectories location => didWork (IO.FS.createDirAll (pathOf location))
    | .write location content =>
      didWork (IO.FS.writeBinFile (pathOf location) ⟨content.toArray⟩)
    | .rename source target => didWork (IO.FS.rename (pathOf source) (pathOf target))

def socketAddress (address : Std.Net.IPAddr) (portNumber : UInt16) : Std.Net.SocketAddress :=
  match address with
  | .v4 address => .v4 ⟨address, portNumber⟩
  | .v6 address => .v6 ⟨address, portNumber⟩

/-- Everything that comes until the other side closes the connection. -/
partial def receiveAll (client : TCP.Socket.Client) (received : ByteArray) : Async ByteArray := do
  match ← client.recv? 65536 with
  | some piece => receiveAll client (received ++ piece)
  | none => return received

def exchange (address : Std.Net.SocketAddress) (request : List UInt8) : Async ByteArray := do
  let client ← TCP.Socket.Client.mk
  client.connect address
  client.send ⟨request.toArray⟩
  receiveAll client .empty

/-- Sends a call, and waits for the answer. -/
def sendCall (call : Command.Call) : IO (Option Command.Answer) := do
  let some place := Command.placeOf? call.url | return none
  try
    let addresses ← (DNS.getAddrInfo place.host "").block
    let some address := addresses[0]? | return none
    let target := socketAddress address place.portNumber
    let bytes ← (exchange target (Command.callBytes place call)).block
    return Command.answerOf? bytes.toList
  catch _ => return none

/-- A node needs a local socket, which cannot be opened from here. -/
def serveNode (settings : Settings) : IO Command.Outcome :=
  return .failed "" (.message ("no connection to the Lightning node at " ++ settings.rpcPath))

end Rebalancing.Program

open Rebalancing Program in
def main (arguments : List String) : IO UInt32 := do
  let outcome ← match arguments with
    | "node" :: rest => Command.runNode machineFiles serveNode rest
    | arguments => Command.run machineFiles sendCall arguments
  IO.print outcome.output
  match outcome.failure with
  | some (.message text) => IO.eprintln ("Error: " ++ text)
  | some .unworded => IO.eprintln "Error"
  | none => pure ()
  return .ofNat outcome.code
