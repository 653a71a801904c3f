import PathMeter.Config
import PathMeter.Engine.CycleReport
import PathMeter.Ledger

/-!
# The state of a measurement

The engine's state is the clock, the deliveries that wait to be read, and the
ledger.  Beside these it keeps what an onlooker could have written down: the
attempts to send, the questions asked, the reports of the cycles, and the
ledger after each change, with the instant of the change.  All four are kept
newest first.

Computation takes no time.  The clock moves only where the engine waits, and
it never moves back.
-/

namespace PathMeter.Engine

/-- The ledger from an instant on. -/
structure Moment where
  instant : Duration
  ledger : Ledger

/-- The state of a measurement. -/
structure State where
  clock : Duration
  queue : List Arrival
  ledger : Ledger
  attempts : List Sending
  questions : List Asked
  reports : List CycleReport
  timeline : List Moment

namespace State

/-- Enters a new ledger. -/
def record (s : State) (l : Ledger) : State :=
  { s with ledger := l, timeline := ⟨s.clock, l⟩ :: s.timeline }

/-- Waits for a time. -/
def wait (s : State) (d : Duration) : State :=
  { s with clock := s.clock + d }

/-- Waits until an instant, unless it is past. -/
def waitUntil (s : State) (t : Duration) : State :=
  { s with clock := max s.clock t }

/-- Brings losses and figures of every hop up to date. -/
def finalize (s : State) : State :=
  s.record s.ledger.finalize

/-- Files the report of a cycle. -/
def file (s : State) (r : CycleReport) : State :=
  { s with reports := r :: s.reports }

/-- The reports of all send passes so far, in order. -/
def passes (s : State) : List CycleReport :=
  s.reports.reverse

/-- The attempts made after an earlier state, in order. -/
def sendingsSince (s earlier : State) : List Sending :=
  (s.attempts.take (s.attempts.length - earlier.attempts.length)).reverse

/-- What a reader of the results sees now. -/
def snapshot (s : State) : Snapshot :=
  s.ledger.snapshot

end State

/-- When the engine is told to stop.  Each part is a way of its own to tell
it. -/
structure Stop where
  /-- At this instant. -/
  instant : Option Duration := none
  /-- While this attempt is made, counted from the first. -/
  attempt : Option Nat := none
  /-- When this many cycles are completed and made known. -/
  cycle : Option Nat := none
  deriving DecidableEq, Repr

namespace Stop

/-- Never. -/
def never : Stop := {}

/-- Whether the engine has been told to stop. -/
def raised (stop : Stop) (s : State) : Bool :=
  stop.instant.any (fun t => decide (t ≤ s.clock)) ||
    stop.attempt.any (fun n => decide (n ≤ s.attempts.length)) ||
    stop.cycle.any (fun n => decide (n ≤ s.ledger.cycles))

/-- The same counted from a state on: after a time, while the n-th attempt from
there is made, when n cycles from there are completed. -/
def since (s : State) (after : Option Duration) (attempt cycle : Option Nat) : Stop where
  instant := after.map (s.clock + ·)
  attempt := attempt.map (s.attempts.length + ·)
  cycle := cycle.map (s.ledger.cycles + ·)

end Stop

end PathMeter.Engine

namespace PathMeter

/-- What stays the same through all runs of one engine. -/
structure Engine where
  config : Config
  /-- The identifier that every probe carries. -/
  identifier : UInt16
  /-- The address that is probed. -/
  destination : IPv4
  network : Engine.Network
  names : Engine.NameService
  /-- What the wall clock shows at an instant. -/
  wallClock : Duration → Time.Timestamp

namespace Engine

/-- The positions that are probed in every cycle, in this order. -/
def hops (e : Engine) : List Nat :=
  List.range' 1 e.config.maxHops.toNat

/-- The state before the first run: nothing is known, and some deliveries may
wait already. -/
def start (e : Engine) (waiting : List Arrival) (asked : List String) : State :=
  let ledger := Ledger.new e.config.target e.destination e.config.maxHops.toNat (e.wallClock 0)
  { clock := 0
    queue := waiting.foldl enqueue []
    ledger := ledger
    attempts := []
    questions := (asked.map fun name => ⟨0, .host name⟩).reverse
    reports := []
    timeline := [⟨0, ledger⟩] }

/-- Builds an engine: the configuration must be of use, and its target must
lead to an address. -/
def build (config : Config) (identifier : UInt16) (network : Network) (names : NameService)
    (wallClock : Duration → Time.Timestamp) : Except Fault Engine :=
  ((Inquiry.ofConfig config).result names.host).map fun destination =>
    ⟨config, identifier, destination, network, names, wallClock⟩

end Engine

end PathMeter
