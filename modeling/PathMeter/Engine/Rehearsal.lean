import PathMeter.Engine.State
import PathMeter.Wire.Datagram
import PathMeter.Wire.Reply

/-!
# Rehearsals

A rehearsal runs the engine against a network and a name service that follow a
script: which probes fail, which answers follow each probe and after what
delay, and what names are known.  Answers can be spoilt on purpose: sent for
another hop, cycle or identifier, cut short, or with bytes flipped.
-/

namespace PathMeter.Engine

/-- What a scripted answer is. -/
inductive AnswerKind where
  /-- A failing read. -/
  | readError
  | echoReply
  | timeExceeded
  /-- The answer that fits the responder: an echo reply from the target, a
  time-exceeded message from anyone else. -/
  | fitting
  deriving DecidableEq, Repr

/-- An answer that follows the probes to a hop. -/
structure AnswerRule where
  hop : Nat
  /-- The cycle bytes of the probes that are answered; all, if there is no
  list. -/
  cycles : Option (List Nat)
  delay : Duration
  kind : AnswerKind
  responder : IPv4
  /-- Added to the cycle byte of the probe. -/
  cycleShift : Nat
  /-- The hop that the answer claims to be for. -/
  asHop : Option UInt8
  /-- The identifier that the answer carries. -/
  identifier : Option UInt16
  /-- The positions of bytes to be inverted. -/
  flip : List Nat
  /-- The number of bytes that arrive. -/
  keep : Option Nat
  deriving Repr

/-- A probe that is handed over and not sent. -/
structure FailureRule where
  hop : Nat
  cycles : Option (List Nat)
  deriving Repr

/-- A scripted network. -/
structure NetworkScript where
  /-- Hops for which the time to live cannot be set. -/
  refused : List Nat
  failed : List FailureRule
  answers : List AnswerRule
  deriving Repr

/-- The address that answers are sent to. -/
def localAddress : IPv4 := ⟨192, 168, 1, 10⟩

/-- Whether a list of cycle bytes, if there is one, holds a cycle. -/
def holdsCycle (cycles : Option (List Nat)) (cycle : Nat) : Bool :=
  cycles.all fun cs => cs.contains cycle

/-- Inverts the bytes at some positions and cuts the rest off. -/
def spoil (flip : List Nat) (keep : Option Nat) (packet : List UInt8) : List UInt8 :=
  let flipped := flip.foldl (fun p i => p.modify i (fun b => b ^^^ 255)) packet
  match keep with
  | some n => flipped.take n
  | none => flipped

namespace AnswerRule

/-- The delivery that follows a probe with this identifier and identity. -/
def delivery (r : AnswerRule) (destination : IPv4) (identifier : UInt16) (id : ProbeId) :
    Delivery :=
  let identifier := r.identifier.getD identifier
  let id : ProbeId := ⟨id.cycle + UInt8.ofNat r.cycleShift, r.asHop.getD id.hop⟩
  let echo := Wire.echoReply r.responder localAddress identifier id
  let exceeded := Wire.timeExceeded r.responder localAddress destination identifier id
  match r.kind with
  | .readError => .failure
  | .echoReply => .datagram (spoil r.flip r.keep echo)
  | .timeExceeded => .datagram (spoil r.flip r.keep exceeded)
  | .fitting =>
    .datagram (spoil r.flip r.keep (if r.responder = destination then echo else exceeded))

/-- An unspoilt answer to every probe to a hop. -/
def plain (hop : Nat) (delay : Duration) (responder : IPv4) : AnswerRule :=
  ⟨hop, none, delay, .fitting, responder, 0, none, none, [], none⟩

end AnswerRule

namespace NetworkScript

/-- What becomes of an attempt. -/
def outcome (script : NetworkScript) (a : Attempt) : Outcome :=
  match Reply.idAndSequence? a.packet with
  | none => .failed
  | some (identifier, sequence) =>
    let id := ProbeId.ofSequence sequence
    let cycle := id.cycle.toNat
    if script.refused.contains a.ttl then .refused
    else if script.failed.any fun f => f.hop = a.ttl && holdsCycle f.cycles cycle then .failed
    else
      .sent
        ((script.answers.filter fun r => r.hop = a.ttl && holdsCycle r.cycles cycle).map fun r =>
          ⟨a.instant + r.delay, r.delivery a.destination identifier id⟩)

/-- The network that follows the script. -/
def network (script : NetworkScript) : Network :=
  ⟨fun _ a => script.outcome a⟩

end NetworkScript

/-- A scripted name service. -/
structure NameScript where
  hosts : List (String × HostAnswer)
  names : List (IPv4 × NameAnswer)

namespace NameScript

/-- The answer for a host; hosts outside the script do not exist. -/
def host (script : NameScript) (name : String) : HostAnswer :=
  match script.hosts.find? fun h => h.1 = name with
  | some h => h.2
  | none => .error (name ++ ": no such host")

/-- The answer for an address; addresses outside the script have no name. -/
def name (script : NameScript) (ip : IPv4) : NameAnswer :=
  match script.names.find? fun n => n.1 = ip with
  | some n => n.2
  | none => ⟨some 0, none⟩

/-- The name service that follows the script. -/
def service (script : NameScript) : NameService :=
  ⟨script.host, fun _ _ ip => script.name ip⟩

end NameScript

/-- The engine of a rehearsal, under a wall clock that stands still. -/
def rehearsal (config : Config) (identifier : UInt16) (destination : IPv4)
    (network : NetworkScript) (names : NameScript) : Engine where
  config := config
  identifier := identifier
  destination := destination
  network := network.network
  names := names.service
  wallClock := fun _ => ⟨0, 0⟩

/-- A rehearsal of single cycles towards `8.8.8.8`, without names, where every
probe is sent. -/
def trial (maxHops : UInt8) (sendDelay : Duration) (answers : List AnswerRule) : Engine :=
  rehearsal
    { Config.forTarget "8.8.8.8" with maxHops, sendDelay, count := 1, resolveNames := false }
    1 ⟨8, 8, 8, 8⟩ ⟨[], [], answers⟩ ⟨[], []⟩

end PathMeter.Engine
