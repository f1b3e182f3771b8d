import RegisterMachine.Command.Report
import RegisterMachine.Proofs.PrintedTraces

namespace RegisterMachine

namespace Command

/-- What is said of a run that failed. -/
def failure (quiet : Bool) (fault : Fault) (memory : Memory) : String :=
  "\n=== RUNTIME ERROR ===\n\n" ++ fault.summary ++ "\n" ++
    if quiet then "" else "\n--- Memory ---\n" ++ printed (dump memory)

end Command

end RegisterMachine
