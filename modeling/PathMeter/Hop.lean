import PathMeter.Address.V4
import PathMeter.Hop.Sample

/-!
# Hops

A hop is one position on the path.  Sends and replies are counted as they
happen; losses and the figures over the round trips are brought up to date by
`finalize`, once a cycle.  `HopView` is what a reader of the results sees;
`Hop` adds the round trips themselves.

A reply that would make more replies than sends is ignored, so `received` never
passes `sent` (`received_le_sent_reply`).
-/

namespace PathMeter

/-- What is known about one hop. -/
structure HopView where
  /-- The position on the path, counted from one. -/
  number : Nat
  /-- Who answered last. -/
  address : Option IPv4
  /-- The name of that address. -/
  hostname : Option String
  sent : Nat
  received : Nat
  lost : Nat
  /-- Lost probes in percent of those sent. -/
  loss : Float
  last : Duration
  mean : Duration
  shortest : Duration
  longest : Duration
  spread : Duration
  deriving DecidableEq

namespace HopView

/-- A hop that nothing was sent to. -/
def new (number : Nat) : HopView where
  number := number
  address := none
  hostname := none
  sent := 0
  received := 0
  lost := 0
  loss := 0
  last := 0
  mean := 0
  shortest := Duration.limit
  longest := 0
  spread := 0

/-- Whether the hop has ever answered. -/
def isActive (h : HopView) : Bool :=
  h.address.isSome

/-- How the hop is called: its name, else its address, else question marks. -/
def displayHost (h : HopView) : String :=
  match h.hostname, h.address with
  | some name, _ => name
  | none, some ip => toString ip
  | none, none => "???"

end HopView

/-- A hop together with its round trips, in the order they were accepted. -/
structure Hop extends HopView where
  samples : List Duration

namespace Hop

/-- A hop that nothing was sent to. -/
def new (number : Nat) : Hop :=
  { HopView.new number with samples := [] }

/-- What a reader sees of the hop. -/
def view (h : Hop) : HopView :=
  h.toHopView

/-- A probe was sent. -/
def recordSent (h : Hop) : Hop :=
  { h with sent := h.sent + 1 }

/-- Whether one more reply can be told apart from a stray one. -/
def expectsReply (h : Hop) : Bool :=
  h.received < h.sent

/-- A reply came in after a round trip: a new responder takes the old one's
place and leaves the name behind. -/
def recordReply (h : Hop) (responder : IPv4) (roundTrip : Duration) : Hop :=
  if h.expectsReply then
    { h with
      received := h.received + 1
      last := roundTrip
      samples := h.samples ++ [roundTrip]
      address := some responder
      hostname := if h.address = some responder then h.hostname else none }
  else h

/-- Whether such a reply brings in a new responder. -/
def changedBy (h : Hop) (responder : IPv4) : Bool :=
  h.expectsReply && decide (h.address ≠ some responder)

/-- Lost probes in percent of those sent. -/
def lossOf (sent lost : Nat) : Float :=
  if sent = 0 then 0 else Float.ofNat lost * 100 / Float.ofNat sent

/-- Brings losses and figures up to date. -/
def finalize (h : Hop) : Hop :=
  let figures := Sample.of h.samples
  { h with
    lost := h.sent - h.received
    loss := lossOf h.sent (h.sent - h.received)
    shortest := figures.shortest
    longest := figures.longest
    mean := figures.mean
    spread := figures.spread }

/-- Gives the hop a name. -/
def rename (h : Hop) (name : Option String) : Hop :=
  { h with hostname := name }

/-- A reply leaves the sends alone. -/
@[simp]
theorem sent_recordReply (h : Hop) (ip : IPv4) (d : Duration) :
    (h.recordReply ip d).sent = h.sent := by
  unfold recordReply
  split <;> rfl

/-- A reply leaves the hop in its place. -/
@[simp]
theorem number_recordReply (h : Hop) (ip : IPv4) (d : Duration) :
    (h.recordReply ip d).number = h.number := by
  unfold recordReply
  split <;> rfl

/-- No reply makes more replies than sends. -/
theorem received_le_sent_reply (h : Hop) (ip : IPv4) (d : Duration)
    (hle : h.received ≤ h.sent) :
    (h.recordReply ip d).received ≤ (h.recordReply ip d).sent := by
  unfold recordReply expectsReply
  split
  · next hlt => exact Nat.succ_le_of_lt (by simpa using hlt)
  · exact hle

end Hop

end PathMeter
