import Rebalancing.Command.Init
import Rebalancing.Command.Report

/-! # Running commands -/

namespace Rebalancing

namespace Command

/-- Carries a command out. Calls go out through `send`, which answers nothing if there is no answer. -/
def execute {m : Type → Type} [Monad m] (files : Files m) (send : Call → m (Option Answer)) :
    Command → m Outcome
  | .init directory rpcPath => runInit files directory rpcPath
  | .ask inquiry endpoint => do
    let call := callOf inquiry endpoint
    let answer ← if isReachable call.url then send call else pure none
    return report inquiry endpoint answer

/-- Runs the operator's program. -/
def run {m : Type → Type} [Monad m] (files : Files m) (send : Call → m (Option Answer))
    (arguments : List String) : m Outcome :=
  match ofArguments arguments with
  | .error halt => return .ofHalt ("circular " ++ Api.version) halt
  | .ok command => command.execute files send

end Command

end Rebalancing
