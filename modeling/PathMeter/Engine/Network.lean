import PathMeter.Duration
import PathMeter.Names.Target

/-!
# What the engine meets outside

The engine hands probes to a network and asks a name service.  Both may do
whatever they like: what a network delivers, when, and whether at all, may
depend on everything handed to it before.

What the network delivers lies in a queue until it is read.  The queue is kept
in the order of reading: by the instant at which a delivery is due, and among
deliveries due at one instant by the order they were queued in.
-/

namespace PathMeter.Engine

/-- One attempt to send a probe. -/
structure Attempt where
  instant : Duration
  /-- The time to live that the probe is sent with. -/
  ttl : Nat
  packet : List UInt8
  destination : IPv4
  deriving DecidableEq, Repr

/-- What one reading of the socket yields. -/
inductive Delivery where
  | datagram (bytes : List UInt8)
  /-- The reading fails. -/
  | failure
  deriving DecidableEq, Repr

/-- A delivery and the instant from which it can be read. -/
structure Arrival where
  due : Duration
  delivery : Delivery
  deriving DecidableEq, Repr

/-- What becomes of an attempt. -/
inductive Outcome where
  /-- The time to live could not be set, and nothing was handed over. -/
  | refused
  /-- The probe was handed over and not sent. -/
  | failed
  /-- The probe was sent, and these deliveries follow from it. -/
  | sent (arrivals : List Arrival)
  deriving DecidableEq, Repr

namespace Outcome

/-- The deliveries that follow from an attempt. -/
def arrivals : Outcome → List Arrival
  | sent as => as
  | _ => []

/-- Whether the probe was sent. -/
def isSent : Outcome → Bool
  | sent _ => true
  | _ => false

end Outcome

/-- An attempt with what became of it. -/
structure Sending where
  attempt : Attempt
  outcome : Outcome
  deriving DecidableEq, Repr

/-- A network: what becomes of an attempt after the earlier ones, newest
first. -/
structure Network where
  respond : List Sending → Attempt → Outcome

/-- A question to the name service. -/
inductive Question where
  | host (name : String)
  | name (address : IPv4)
  deriving DecidableEq, Repr

/-- A question and the instant at which it was asked. -/
structure Asked where
  instant : Duration
  question : Question
  deriving DecidableEq, Repr

/-- The answer to a question for a name. -/
structure NameAnswer where
  /-- How long the answer takes, unless it never comes. -/
  delay : Option Duration
  name : Option String
  deriving DecidableEq, Repr

/-- A name service: its answer for a host, and its answer for an address after
the earlier questions, newest first, at an instant. -/
structure NameService where
  host : String → HostAnswer
  name : List Asked → Duration → IPv4 → NameAnswer

/-- Queues a delivery behind all that are due no later. -/
def enqueue (queue : List Arrival) (a : Arrival) : List Arrival :=
  match queue with
  | [] => [a]
  | b :: rest => if a.due < b.due then a :: b :: rest else b :: enqueue rest a

end PathMeter.Engine
