import PathMeter.Command
import PathMeter.Names.Local

/-!
# The program

Reads the arguments and reports how far it gets.  Opening a raw socket is left
to the system this runs on; without one a measurement ends as it would where
the socket cannot be opened.
-/

open PathMeter in
/-- The command line program. -/
def main (arguments : List String) : IO UInt32 := do
  let command := Command.ofArguments Local.host arguments
  IO.print command.output
  IO.eprint command.complaint
  match command with
  | .ready _ _ =>
    IO.eprintln (Fault.socket "raw sockets are not available").message
    pure 1
  | _ => pure (UInt32.ofNat command.exitCode)
