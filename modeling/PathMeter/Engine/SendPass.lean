import PathMeter.Engine.State
import PathMeter.Wire.Echo

/-!
# The send pass

A cycle begins by sending one probe to every position in turn, with a pause
after each.  Before each probe the engine looks whether it was told to stop;
if so the pass is cut short there.  A probe that could not be sent is counted
as sent all the same, and never awaited.
-/

namespace PathMeter.Engine

/-- A probe that waits for its answer. -/
structure Awaited where
  hop : Nat
  sentAt : Duration
  deriving DecidableEq, Repr

/-- The attempt that aims the probe of a cycle at a hop. -/
def attempt (e : Engine) (cycle hop : Nat) (instant : Duration) : Attempt where
  instant := instant
  ttl := hop
  packet := Wire.echoRequest e.identifier (ProbeId.ofCycle cycle (UInt8.ofNat hop))
    e.config.payloadSize
  destination := e.destination

/-- What becomes of the next probe of a cycle. -/
def outcome (e : Engine) (cycle hop : Nat) (s : State) : Outcome :=
  e.network.respond s.attempts (e.attempt cycle hop s.clock)

/-- Sends the probe of a cycle to a hop. -/
def probe (e : Engine) (cycle hop : Nat) (s : State) : State :=
  let outcome := e.outcome cycle hop s
  { s with
    attempts := ⟨e.attempt cycle hop s.clock, outcome⟩ :: s.attempts
    queue := outcome.arrivals.foldl enqueue s.queue }.record
      (s.ledger.updateHop hop Hop.recordSent)

/-- The end of a send pass. -/
structure SendPass where
  state : State
  /-- The probes that were sent, in the order of sending. -/
  awaited : List Awaited
  /-- Whether every position had its turn. -/
  isComplete : Bool

/-- Sends the probes of a cycle to the given hops. -/
def sendPass (e : Engine) (stop : Stop) (cycle : Nat) :
    List Nat → State → List Awaited → SendPass
  | [], s, awaited => ⟨s, awaited, true⟩
  | hop :: rest, s, awaited =>
    if stop.raised s then ⟨s, awaited, false⟩
    else
      sendPass e stop cycle rest ((e.probe cycle hop s).wait e.config.sendDelay)
        (if (e.outcome cycle hop s).isSent then awaited ++ [⟨hop, s.clock⟩] else awaited)

end PathMeter.Engine
