import PathMeter.Engine.Listening
import PathMeter.Engine.Lookup

/-!
# Runs

A run repeats cycles: a send pass, listening, names for the hops with a new
responder, and figures brought up to date.  A pass cut short while sending is
closed at once; it counts as no cycle, and nothing is read.  Either way a
report is filed.  After each completed cycle the ledger is made known, then
the engine pauses.

A run ends when its count of cycles is reached or when the engine is told to
stop.  A run without a count may go on for ever, so it is given a number of
turns, and `Ending.unfinished` says that they did not suffice.

What is made known goes to an onlooker, who keeps whatever state it likes and
has no way to act on the run.
-/

namespace PathMeter.Engine

/-- A cycle: the state at its end, and whether it was completed. -/
structure Cycle where
  state : State
  isComplete : Bool

/-- Gives names to hops with a new responder, if names are wanted. -/
def nameHops (e : Engine) (stop : Stop) (l : Listening) : State :=
  if e.config.resolveNames then e.lookUp stop l.renamed l.state else l.state

/-- The report of a send pass that nothing was read after. -/
def SendPass.report (pass : SendPass) (cycle : Nat) (before : State) : CycleReport where
  cycle := cycle
  began := before.clock
  sendings := pass.state.sendingsSince before
  isComplete := pass.isComplete
  reads := []
  accepted := 0
  discarded := 0
  reached := false

/-- Adds to the report of a send pass what was heard after it. -/
def Listening.addTo (l : Listening) (r : CycleReport) : CycleReport :=
  { r with
    reads := l.reads
    accepted := l.accepted
    discarded := l.discarded
    reached := l.lowest.isSome }

/-- Runs the cycle that follows the completed ones. -/
def cycle (e : Engine) (stop : Stop) (s : State) : Cycle :=
  let number := s.ledger.cycles
  let pass := e.sendPass stop number e.hops s []
  let report := pass.report number s
  if pass.isComplete then
    let l := e.receive number pass.state pass.awaited
    ⟨((e.nameHops stop l).file (l.addTo report)).finalize, true⟩
  else ⟨(pass.state.file report).finalize, false⟩

/-- Whether a number of cycles is all that a run was asked for. -/
def isEnough (e : Engine) (completed : Nat) : Bool :=
  !e.config.isUnbounded && decide (e.config.count ≤ completed)

/-- Pauses between cycles: the state after the pause, and whether the engine
was told to stop by then. -/
def pause (e : Engine) (stop : Stop) (s : State) : State × Bool :=
  if stop.raised s then (s, true)
  else
    match stop.instant with
    | some t =>
      if t ≤ s.clock + e.config.interval then (s.waitUntil t, true)
      else (s.wait e.config.interval, false)
    | none => (s.wait e.config.interval, false)

/-- How a run ends. -/
inductive Ending where
  | finished
  /-- The turns did not suffice. -/
  | unfinished
  deriving DecidableEq, Repr

/-- The end of a run, with what the onlooker kept. -/
structure RunEnd (σ : Type) where
  state : State
  seen : σ
  ending : Ending

/-- Runs cycles, where `completed` of this run are behind and the last of them
ended at `mark`. -/
def cycles {σ : Type} (e : Engine) (stop : Stop) (onCycle : σ → Snapshot → σ) :
    Nat → Duration → Nat → State → σ → RunEnd σ
  | 0, _, _, s, seen => ⟨s, seen, .unfinished⟩
  | turns + 1, mark, completed, s, seen =>
    if stop.raised s || e.isEnough completed then ⟨s, seen, .finished⟩
    else
      let c := e.cycle stop s
      if c.isComplete then
        let now := c.state.clock
        let s := c.state.record (c.state.ledger.completeCycle (now - mark))
        let seen := onCycle seen s.snapshot
        if e.isEnough (completed + 1) then ⟨s, seen, .finished⟩
        else
          let (s, stopped) := e.pause stop s
          if stopped then ⟨s, seen, .finished⟩
          else cycles e stop onCycle turns now (completed + 1) s seen
      else ⟨c.state, seen, .finished⟩

/-- The clock of the measurement starts with its first run, and again as long
as no cycle is completed. -/
def markStart (e : Engine) (s : State) : State :=
  if s.ledger.cycles = 0 then s.record (s.ledger.markStarted (e.wallClock s.clock)) else s

/-- What holds with the start entered as long as no cycle is completed, and
without it from then on, holds once the start is marked. -/
@[elab_as_elim]
theorem markStart_cases {P : State → Prop} {e : Engine} {s : State}
    (hmark : s.ledger.cycles = 0 → P (s.record (s.ledger.markStarted (e.wallClock s.clock))))
    (hsame : s.ledger.cycles ≠ 0 → P s) : P (e.markStart s) := by
  unfold markStart
  split
  · next hcycles => exact hmark hcycles
  · next hcycles => exact hsame hcycles

/-- The number of turns that a run is given: its count, or without a count as
many as the caller has patience for. -/
def turns (e : Engine) (patience : Nat) : Nat :=
  if e.config.isUnbounded then patience else e.config.count

/-- Runs the engine and shows every completed cycle to an onlooker. -/
def run {σ : Type} (e : Engine) (stop : Stop) (patience : Nat) (onCycle : σ → Snapshot → σ)
    (s : State) (seen : σ) : RunEnd σ :=
  cycles e stop onCycle (e.turns patience) s.clock 0 (e.markStart s) seen

/-- The snapshots of the completed cycles, in order, and the end of a run. -/
def runCollecting (e : Engine) (stop : Stop) (patience : Nat) (s : State) :
    RunEnd (List Snapshot) :=
  e.run stop patience (fun seen snapshot => seen ++ [snapshot]) s []

/-- The ledger that a reader finds at an instant of a run, before the engine
acts at that instant; nothing is read of a run that has ended. -/
def ledgerDuring (before after : State) (t : Duration) : Option Ledger :=
  if t ≤ after.clock then
    let during := after.timeline.take (after.timeline.length - before.timeline.length)
    some ((during.find? fun m => decide (m.instant < t)).elim before.ledger (·.ledger))
  else none

end PathMeter.Engine
