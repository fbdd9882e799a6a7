import TypedQuery.Demo

/-!
# The command line

Prints the tour of the builder.
-/

def main : IO UInt32 := do
  match TypedQuery.Demo.report with
  | .ok text =>
    IO.print text
    return 0
  | .error e =>
    IO.eprintln e.message
    return 1
