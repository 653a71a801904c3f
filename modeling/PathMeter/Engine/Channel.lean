import PathMeter.Engine.Run

/-!
# Snapshots over a channel

A run can publish its snapshots on a channel instead of showing them to an
onlooker.  The channel holds a limited number of snapshots; one that finds it
full, or closed, is dropped, so the consumer's pace never matters to the run.

A consumer is described by what it does between one publication and the next.
-/

namespace PathMeter.Engine

/-- A channel between a run and its consumer. -/
structure Channel where
  capacity : Nat
  /-- Published and not yet received, oldest first. -/
  waiting : List Snapshot
  /-- Received, in order. -/
  received : List Snapshot
  isClosed : Bool

/-- What a consumer does. -/
inductive ConsumerAct where
  /-- Receives a snapshot, if one waits. -/
  | receive
  /-- Closes the channel; what waits can still be received. -/
  | close
  deriving DecidableEq, Repr

namespace Channel

/-- A channel that nothing was published on. -/
def empty (capacity : Nat) : Channel :=
  ⟨capacity, [], [], false⟩

/-- Whether a publication would be dropped. -/
def refuses (ch : Channel) : Bool :=
  ch.isClosed || decide (ch.capacity ≤ ch.waiting.length)

/-- Publishes a snapshot, or drops it. -/
def publish (ch : Channel) (s : Snapshot) : Channel :=
  if ch.refuses then ch else { ch with waiting := ch.waiting ++ [s] }

/-- What a consumer's act does to the channel. -/
def act (ch : Channel) : ConsumerAct → Channel
  | .close => { ch with isClosed := true }
  | .receive =>
    match ch.waiting with
    | s :: rest => { ch with waiting := rest, received := ch.received ++ [s] }
    | [] => ch

/-- Everything that the consumer obtains if it goes on receiving. -/
def obtained (ch : Channel) : List Snapshot :=
  ch.received ++ ch.waiting

end Channel

/-- A consumer: what it does before the n-th publication of a run, counted from
zero. -/
abbrev Consumer := Nat → List ConsumerAct

/-- The channel and the number of publications so far. -/
structure Publishing where
  channel : Channel
  count : Nat

/-- Lets the consumer act, then publishes. -/
def Publishing.next (consumer : Consumer) (p : Publishing) (s : Snapshot) : Publishing :=
  ⟨((consumer p.count).foldl Channel.act p.channel).publish s, p.count + 1⟩

/-- Runs the engine and publishes every completed cycle on a channel. -/
def runWithChannel (e : Engine) (stop : Stop) (patience : Nat) (consumer : Consumer)
    (channel : Channel) (s : State) : RunEnd Publishing :=
  e.run stop patience (Publishing.next consumer) s ⟨channel, 0⟩

end PathMeter.Engine
