import BatchAuction.Simulation

/-!
# The command line

Prints the guided tour. The clock of its last scenario begins at zero.
-/

/-- Prints the lines of the tour; a failure is told on the error channel. -/
def main : IO UInt32 := do
  match BatchAuction.Simulation.report .zero with
  | .ok lines =>
    for line in lines do
      IO.println line
    return 0
  | .error e =>
    IO.eprintln e.message
    return 1
