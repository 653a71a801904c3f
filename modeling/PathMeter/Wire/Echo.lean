import PathMeter.Wire.Checksum
import PathMeter.Wire.ProbeId

/-!
# Echo messages

An echo request is eight header bytes and a payload.  The header holds the
type, a zero code, the checksum, the identifier of the run and the sequence
number that names the probe; the payload counts upwards and means nothing.
The destination answers with the same message under another type.
-/

namespace PathMeter.Wire

/-- The ICMP type of an echo reply. -/
def echoReplyType : UInt8 := 0

/-- The ICMP type of an echo request. -/
def echoRequestType : UInt8 := 8

/-- The ICMP type of a time-exceeded message. -/
def timeExceededType : UInt8 := 11

/-- The length of an ICMP header in bytes. -/
def icmpHeaderLength : Nat := 8

/-- A payload of `n` bytes: each byte is its position modulo 256. -/
def pattern (n : Nat) : List UInt8 :=
  (List.range n).map UInt8.ofNat

/-- An echo message of either type. -/
def echo (type : UInt8) (identifier : UInt16) (id : ProbeId) (payload : List UInt8) :
    List UInt8 :=
  sealed ([type, 0, 0, 0] ++ bytes identifier ++ bytes id.sequence ++ payload)

/-- The echo request of a probe. -/
def echoRequest (identifier : UInt16) (id : ProbeId) (payloadSize : Nat) : List UInt8 :=
  echo echoRequestType identifier id (pattern payloadSize)

theorem length_echoRequest (identifier : UInt16) (id : ProbeId) (payloadSize : Nat) :
    (echoRequest identifier id payloadSize).length = icmpHeaderLength + payloadSize := by
  simp [echoRequest, echo, length_sealed, bytes, pattern, icmpHeaderLength]
  omega

end PathMeter.Wire
