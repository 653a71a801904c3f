import PathMeter.Engine.Run

/-!
# Histories

One engine may be run again and again.  Each visit to it is a time of rest and
a run with a signal of its own; the ledger, the queue and the clock carry over
from one visit to the next.
-/

namespace PathMeter.Engine

/-- A time of rest, then a run. -/
structure Visit where
  rest : Duration
  /-- What tells this run to stop. -/
  stop : Stop
  patience : Nat
  deriving DecidableEq, Repr

/-- What a visit makes of a state. -/
def visit (e : Engine) (s : State) (v : Visit) : State :=
  (e.runCollecting v.stop v.patience (s.wait v.rest)).state

/-- The state of a new engine after a number of visits. -/
def history (e : Engine) (waiting : List Arrival) (asked : List String) (visits : List Visit) :
    State :=
  visits.foldl e.visit (e.start waiting asked)

end PathMeter.Engine
