import PathMeter.Engine.SendPass

/-!
# Listening for replies

After the send pass the engine reads the socket until nothing worth waiting
for is left, a reading fails, or the time is up.  Each datagram gets a verdict:
it is foreign, or a reply of another cycle, or the reply of a hop that is not
awaited any more, or it is accepted and entered into the ledger.

Once the target has answered for a hop, the hops behind that one are not worth
waiting for.  `listenUntil` leaves open when to stop, so the loop that does
without this shortcut is `listenUntil Listening.isAnswered` where the engine
uses `listenUntil Listening.isSettled`.
-/

namespace PathMeter.Engine

/-- What is read of a datagram: its first bytes. -/
def readLimit : Nat := 1500

/-- How listening stands. -/
structure Listening where
  state : State
  /-- The probes without an answer. -/
  awaited : List Awaited
  /-- The lowest hop that the target answered for. -/
  lowest : Option Nat
  /-- The hops with a new responder, in the order of the change. -/
  renamed : List Nat
  /-- The datagrams read so far, in the order of reading. -/
  reads : List Read
  /-- How many of them were entered. -/
  accepted : Nat
  /-- How many of them were dropped. -/
  discarded : Nat
  /-- Whether a reading failed. -/
  isBroken : Bool

namespace Listening

/-- The start of listening. -/
def start (s : State) (awaited : List Awaited) : Listening where
  state := s
  awaited := awaited
  lowest := none
  renamed := []
  reads := []
  accepted := 0
  discarded := 0
  isBroken := false

/-- Nothing is awaited any more. -/
def isAnswered (l : Listening) : Bool :=
  l.awaited.isEmpty

/-- Nothing is awaited any more but hops behind one that the target answered
for. -/
def isSettled (l : Listening) : Bool :=
  l.isAnswered ||
    match l.lowest with
    | some d => l.awaited.all fun a => decide (d < a.hop)
    | none => false

/-- The lower of a hop and the lowest so far. -/
def lower (lowest : Option Nat) (hop : Nat) : Option Nat :=
  match lowest with
  | some d => some (min d hop)
  | none => some hop

/-- Whether a reply brings a hop a new responder. -/
def changes (l : Listening) (hop : Nat) (responder : IPv4) : Bool :=
  (l.state.ledger.hop? hop).any fun h => h.changedBy responder

/-- Enters an accepted reply. -/
def accept (l : Listening) (destination : IPv4) (reply : Reply) (roundTrip : Duration) :
    Listening :=
  let hop := reply.id.hop.toNat
  { l with
    state := l.state.record
      (l.state.ledger.updateHop hop fun h => h.recordReply reply.responder roundTrip)
    awaited := l.awaited.filter fun a => a.hop ≠ hop
    lowest := if reply.responder = destination then lower l.lowest hop else l.lowest
    renamed := if l.changes hop reply.responder then l.renamed ++ [hop] else l.renamed
    accepted := l.accepted + 1 }

/-- Drops a datagram. -/
def discard (l : Listening) : Listening :=
  { l with discarded := l.discarded + 1 }

/-- Notes a datagram that was read. -/
def note (l : Listening) (due : Duration) (packet : List UInt8) (verdict : Verdict) :
    Listening :=
  { l with reads := l.reads ++ [⟨l.state.clock, due, packet, verdict⟩] }

end Listening

/-- What a datagram read now turns out to be. -/
def judge (e : Engine) (cycle : Nat) (l : Listening) (packet : List UInt8) : Verdict :=
  match Reply.ofDatagram? e.identifier e.config.maxHops packet with
  | none => .foreign
  | some reply =>
    if reply.id.matchesCycle cycle then
      match l.awaited.find? fun a => a.hop = reply.id.hop.toNat with
      | some a => .accepted reply (l.state.clock - a.sentAt)
      | none => .unexpected reply
    else .stale reply

/-- Takes in a datagram read now, which was due from an instant on. -/
def take (e : Engine) (cycle : Nat) (l : Listening) (due : Duration) (packet : List UInt8) :
    Listening :=
  let verdict := e.judge cycle l packet
  let noted := l.note due packet verdict
  match verdict with
  | .accepted reply roundTrip => noted.accept e.destination reply roundTrip
  | _ => noted.discard

/-- Reads a queue until `enough` is known, a reading fails, or nothing more is
due by the deadline.  A delivery that is due already is read even when the
deadline is past.  The result is what is left of the queue, and how listening
ended. -/
def listenUntil (enough : Listening → Bool) (e : Engine) (cycle : Nat) (deadline : Duration) :
    List Arrival → Listening → List Arrival × Listening
  | [], l =>
    if enough l then ([], l)
    else ([], { l with state := l.state.waitUntil deadline })
  | a :: queue, l =>
    if enough l then (a :: queue, l)
    else if a.due ≤ max l.state.clock deadline then
      let l := { l with state := l.state.waitUntil a.due }
      match a.delivery with
      | .failure => (queue, { l with isBroken := true })
      | .datagram bytes =>
        listenUntil enough e cycle deadline queue
          (e.take cycle l a.due (bytes.take readLimit))
    else (a :: queue, { l with state := l.state.waitUntil deadline })

/-- Listens after a send pass, reading until `enough` is known. -/
def receiveUntil (enough : Listening → Bool) (e : Engine) (cycle : Nat) (s : State)
    (awaited : List Awaited) : Listening :=
  let (queue, l) := listenUntil enough e cycle (s.clock + e.config.timeout) s.queue
    (Listening.start s awaited)
  { l with state := { l.state with queue := queue } }

/-- Listens after a send pass. -/
def receive (e : Engine) (cycle : Nat) (s : State) (awaited : List Awaited) : Listening :=
  receiveUntil Listening.isSettled e cycle s awaited

/-- Listens after a send pass without the shortcut past the target. -/
def receivePlainly (e : Engine) (cycle : Nat) (s : State) (awaited : List Awaited) : Listening :=
  receiveUntil Listening.isAnswered e cycle s awaited

end PathMeter.Engine
