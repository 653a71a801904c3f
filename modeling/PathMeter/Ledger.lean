import PathMeter.Snapshot

/-!
# The ledger of a run

The ledger gathers what a measurement finds out: one account per hop, the
number of completed cycles and the time they took.  Hops are numbered from one
without gaps, and every entry changes at most the hop it names.
-/

namespace PathMeter

/-- What a measurement has found out so far. -/
structure Ledger where
  target : String
  destination : IPv4
  hops : List Hop
  cycles : Nat
  startedAt : Time.Timestamp
  duration : Duration

namespace Ledger

/-- A ledger with nothing in it for the hops `1` to `maxHops`. -/
def new (target : String) (destination : IPv4) (maxHops : Nat) (startedAt : Time.Timestamp) :
    Ledger where
  target := target
  destination := destination
  hops := (List.range' 1 maxHops).map Hop.new
  cycles := 0
  startedAt := startedAt
  duration := 0

/-- The account of the hop at a position, counted from one. -/
def hop? (l : Ledger) (position : Nat) : Option Hop :=
  if position = 0 then none else l.hops[position - 1]?

/-- Changes the account of the hop at a position; there may be none. -/
def updateHop (l : Ledger) (position : Nat) (f : Hop → Hop) : Ledger :=
  if position = 0 then l else { l with hops := l.hops.modify (position - 1) f }

/-- Changes every account. -/
def updateAll (l : Ledger) (f : Hop → Hop) : Ledger :=
  { l with hops := l.hops.map f }

/-- Brings losses and figures of every hop up to date. -/
def finalize (l : Ledger) : Ledger :=
  l.updateAll Hop.finalize

/-- Restarts the clock of the run. -/
def markStarted (l : Ledger) (startedAt : Time.Timestamp) : Ledger :=
  { l with startedAt := startedAt, duration := 0 }

/-- Counts a completed cycle and the time since the one before. -/
def completeCycle (l : Ledger) (elapsed : Duration) : Ledger :=
  { l with cycles := l.cycles + 1, duration := l.duration + elapsed }

/-- The same, as long as the total can be told as a duration. -/
def completeCycle? (l : Ledger) (elapsed : Duration) : Option Ledger :=
  if l.duration + elapsed ≤ Duration.limit then some (l.completeCycle elapsed) else none

/-- A copy of the ledger without the single round trips. -/
def snapshot (l : Ledger) : Snapshot where
  target := l.target
  destination := l.destination
  hops := l.hops.map Hop.view
  cycles := l.cycles
  startedAt := l.startedAt
  duration := l.duration

/-- Such a copy that takes the hops one after the other, the one at each position
from the ledger as it is at its turn.  It has the same positions at every
turn. -/
def copy (l : Ledger) (turn : Nat → Ledger) : Snapshot where
  target := l.target
  destination := l.destination
  hops := l.hops.mapIdx fun i h => (((turn (i + 1)).hop? (i + 1)).getD h).view
  cycles := l.cycles
  startedAt := l.startedAt
  duration := l.duration

/-- Where nothing changes between the turns, the copy is a snapshot. -/
theorem copy_self (l : Ledger) : (l.copy fun _ => l) = l.snapshot := by
  have hhops : (l.copy fun _ => l).hops = l.snapshot.hops := by
    apply List.ext_getElem?
    intro i
    show (l.hops.mapIdx _)[i]? = (l.hops.map Hop.view)[i]?
    rw [List.getElem?_mapIdx, List.getElem?_map]
    cases hi : l.hops[i]? with
    | none => rfl
    | some h => simp [hop?, hi]
  exact congrArg (fun hops => { l.snapshot with hops := hops }) hhops

end Ledger

end PathMeter
