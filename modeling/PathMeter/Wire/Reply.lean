import PathMeter.Address.V4
import PathMeter.Wire.Echo

/-!
# Replies

Which datagrams answer a probe of this run, and which probe they answer.  A
destination answers with an echo reply, whose checksum must be right; a router
answers with a time-exceeded message that quotes the probe it dropped, and
there only the quoted header is looked at.  Everything else is foreign
traffic.
-/

namespace PathMeter

/-- The two kinds of answer to a probe. -/
inductive ReplyKind where
  /-- The destination itself answered. -/
  | echoReply
  /-- A router dropped the probe when its hops ran out. -/
  | timeExceeded
  deriving DecidableEq, Repr

/-- A datagram understood as the answer to a probe. -/
structure Reply where
  responder : IPv4
  id : ProbeId
  kind : ReplyKind
  deriving DecidableEq, Repr

namespace Reply

open Wire

/-- The shortest IPv4 header, in bytes. -/
def leastHeader : Nat := 20

/-- The length in bytes that the low half of a header's first byte announces. -/
def headerLength (first : UInt8) : Nat :=
  4 * (first.toNat % 16)

/-- Identifier and sequence number in an echo header. -/
def idAndSequence? : List UInt8 → Option (UInt16 × UInt16)
  | _ :: _ :: _ :: _ :: a :: b :: c :: d :: _ => some (word a b, word c d)
  | _ => none

/-- An echo message shows the identifier and the sequence number put into it. -/
theorem idAndSequence?_echo (type : UInt8) (identifier : UInt16) (id : ProbeId)
    (payload : List UInt8) :
    idAndSequence? (echo type identifier id payload) = some (identifier, id.sequence) := by
  simp [echo, bytes, sealed, idAndSequence?, word_high_low]

/-- Source address in an IPv4 header. -/
def source? (packet : List UInt8) : Option IPv4 :=
  match packet.drop 12 with
  | a :: b :: c :: d :: _ => some ⟨a, b, c, d⟩
  | _ => none

/-- The ICMP message in an IPv4 datagram: version 4, protocol 1, and a header
that is neither too short nor longer than the datagram leaves room for. -/
def message? (packet : List UInt8) : Option (List UInt8) := do
  let first ← packet[0]?
  let protocol ← packet[9]?
  let length := headerLength first
  if leastHeader ≤ packet.length ∧ first.toNat / 16 = 4 ∧ protocol = 1 ∧
      leastHeader ≤ length ∧ length + icmpHeaderLength ≤ packet.length then
    some (packet.drop length)
  else none

/-- The echo header that a router quotes: after the quoted IPv4 header, and of
an echo request. -/
def quotedEcho? (quoted : List UInt8) : Option (List UInt8) := do
  let first ← quoted[0]?
  let length := headerLength first
  let type ← quoted[length]?
  if leastHeader ≤ length ∧ length + icmpHeaderLength ≤ quoted.length ∧
      type = echoRequestType then
    some (quoted.drop length)
  else none

/-- The kind of an answer and the echo header in it. -/
def echoHeader? (message : List UInt8) : Option (ReplyKind × List UInt8) := do
  let type ← message[0]?
  if type = echoReplyType then
    if carriedChecksum? message = some (checksum message) then
      some (.echoReply, message)
    else none
  else if type = timeExceededType then
    (quotedEcho? (message.drop icmpHeaderLength)).map fun header => (.timeExceeded, header)
  else none

/-- Understands a datagram as the answer to a probe of the run with this
identifier, aimed at one of the hops up to `maxHops`. -/
def ofDatagram? (identifier : UInt16) (maxHops : UInt8) (packet : List UInt8) :
    Option Reply := do
  let message ← message? packet
  let responder ← source? packet
  let (kind, header) ← echoHeader? message
  let (carried, sequence) ← idAndSequence? header
  let id := ProbeId.ofSequence sequence
  if carried = identifier ∧ id.hop ≠ 0 ∧ id.hop ≤ maxHops then
    some ⟨responder, id, kind⟩
  else none

end Reply

end PathMeter
