import PathMeter.Address.V4
import PathMeter.Wire.Echo

/-!
# Datagrams as the network would send them

What a raw socket reads is a whole IPv4 datagram.  Here such datagrams are
made up: a minimal header around an ICMP message, the answer of a destination,
and the complaint of a router that quotes the head of the probe it dropped.
They stand in for the network when a measurement is rehearsed.
-/

namespace PathMeter.Wire

/-- An ICMP message in a 20-byte IPv4 header that names length, time to live,
protocol and addresses and leaves the rest zero. -/
def datagram (source destination : IPv4) (ttl : UInt8) (icmp : List UInt8) : List UInt8 :=
  [0x45, 0] ++ bytes (UInt16.ofNat (20 + icmp.length)) ++ [0, 0, 0, 0, ttl, 1, 0, 0] ++
    source.bytes ++ destination.bytes ++ icmp

/-- The payload size of the probes that made-up answers belong to. -/
def usualPayload : Nat := 32

/-- The answer of a destination to a probe. -/
def echoReply (source localAddress : IPv4) (identifier : UInt16) (id : ProbeId) : List UInt8 :=
  datagram source localAddress 64 (echo echoReplyType identifier id (pattern usualPayload))

/-- The complaint of a router about a probe to `destination` that ran out of
hops: it quotes the probe's IPv4 header and ICMP header. -/
def timeExceeded (source localAddress destination : IPv4) (identifier : UInt16) (id : ProbeId) :
    List UInt8 :=
  let probe := echoRequest identifier id usualPayload
  let quoted := datagram localAddress destination 1 (probe.take icmpHeaderLength)
  datagram source localAddress 250
    (sealed ([timeExceededType, 0, 0, 0, 0, 0, 0, 0] ++ quoted))

end PathMeter.Wire
