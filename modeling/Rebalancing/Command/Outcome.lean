import Rebalancing.Command.Line

/-! # Outcomes

What a program run from a command line leaves: what it prints, and whether it fails. -/

namespace Rebalancing

namespace Command

/-- Why a program fails. -/
inductive Failure where
  | message (text : String)
  /-- The system or a reader words it. -/
  | unworded
deriving DecidableEq

structure Outcome where
  output : String := ""
  failure : Option Failure := none
  /-- Zero if all went well. -/
  code : Nat := if failure.isSome then 1 else 0
deriving DecidableEq

namespace Outcome

def failed (output : String) (failure : Failure) : Outcome := { output, failure := some failure }

/-- A run that carries nothing out. -/
def ofHalt (banner : String) : Halt → Outcome
  | .misuse => { code := 2 }
  | .help => {}
  | .version => { output := banner ++ "\n" }

end Outcome

end Command

end Rebalancing
