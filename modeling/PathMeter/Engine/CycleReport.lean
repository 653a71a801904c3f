import PathMeter.Engine.Network
import PathMeter.Wire.Reply

/-!
# Reports of cycles

Every cycle leaves a report: which probes it sent, which datagrams it read,
and what became of each.  A reader sees the results only; the reports are for
those who want to know how the results came about.
-/

namespace PathMeter.Engine

/-- What a datagram turns out to be. -/
inductive Verdict where
  /-- No reply to a probe of this run. -/
  | foreign
  /-- A reply to a probe of another cycle. -/
  | stale (reply : Reply)
  /-- A reply of a hop that is not awaited, or not any more. -/
  | unexpected (reply : Reply)
  /-- The reply to an awaited probe after a round trip. -/
  | accepted (reply : Reply) (roundTrip : Duration)
  deriving DecidableEq, Repr

/-- Whether a datagram was accepted. -/
def Verdict.isAccepted : Verdict → Bool
  | accepted _ _ => true
  | _ => false

/-- A datagram that was read. -/
structure Read where
  /-- When it was read. -/
  instant : Duration
  /-- From when on it could be read. -/
  due : Duration
  packet : List UInt8
  verdict : Verdict
  deriving DecidableEq, Repr

/-- What happened during one cycle. -/
structure CycleReport where
  /-- The number that the probes of the cycle carry. -/
  cycle : Nat
  /-- When the send pass began. -/
  began : Duration
  /-- The attempts of the send pass, in order. -/
  sendings : List Sending
  /-- Whether every position had its turn; if not, nothing was read. -/
  isComplete : Bool
  /-- The datagrams read, in order. -/
  reads : List Read
  /-- How many of them were entered. -/
  accepted : Nat
  /-- How many of them were dropped. -/
  discarded : Nat
  /-- Whether the target answered. -/
  reached : Bool
  deriving DecidableEq, Repr

end PathMeter.Engine
