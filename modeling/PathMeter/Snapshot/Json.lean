import PathMeter.Json.Document
import PathMeter.Json.Record
import PathMeter.Snapshot

/-!
# Snapshots in JSON

A snapshot as a JSON document and back.  Durations are whole microseconds, the
longest one being the largest 64-bit number; the instant of the start is a
text.  Reading takes what other writers may produce: any order of fields,
fields it does not know, and records written as lists.
-/

namespace PathMeter

open Json (Document Value)

/-- One more than the largest 64-bit number. -/
def wordBound : Nat := Nat.pow 2 64

namespace HopView

/-- The fields of a hop in the order they are written. -/
def fieldNames : List String :=
  ["hop", "addr", "hostname", "sent", "received", "lost", "loss_pct",
   "last_rtt", "avg_rtt", "min_rtt", "max_rtt", "stddev"]

/-- A text where there is one. -/
def optionalText (s : Option (List Char)) : Document :=
  match s with
  | some s => .text s
  | none => .null

/-- A hop as a document. -/
def document (h : HopView) : Document :=
  .object
    [("hop", .natural h.number),
     ("addr", optionalText (h.address.map IPv4.text)),
     ("hostname", optionalText (h.hostname.map String.toList)),
     ("sent", .natural h.sent),
     ("received", .natural h.received),
     ("lost", .natural h.lost),
     ("loss_pct", .float h.loss),
     ("last_rtt", .natural h.last.wholeMicros),
     ("avg_rtt", .natural h.mean.wholeMicros),
     ("min_rtt", .natural h.shortest.wholeMicros),
     ("max_rtt", .natural h.longest.wholeMicros),
     ("stddev", .natural h.spread.wholeMicros)]

/-- A duration in microseconds. -/
def micros? (v : Value) : Option Duration :=
  (Json.natural? wordBound v).map Duration.ofMicros

/-- Reads a hop. -/
def ofJson? (v : Value) : Option HopView := do
  match ← Json.fields? fieldNames v with
  | [number, address, hostname, sent, received, lost, loss, last, mean, shortest, longest,
      spread] =>
    pure
      { number := ← Json.required? (Json.natural? 256) number
        address := ← Json.omissible? Json.address? address
        hostname := ← Json.omissible? Json.string? hostname
        sent := ← Json.required? (Json.natural? wordBound) sent
        received := ← Json.required? (Json.natural? wordBound) received
        lost := ← Json.required? (Json.natural? wordBound) lost
        loss := ← Json.required? Json.float? loss
        last := ← Json.required? micros? last
        mean := ← Json.required? micros? mean
        shortest := ← Json.required? micros? shortest
        longest := ← Json.required? micros? longest
        spread := ← Json.required? micros? spread }
  | _ => none

end HopView

namespace Snapshot

/-- The fields of a snapshot in the order they are written. -/
def fieldNames : List String :=
  ["target", "resolved", "hops", "cycles", "started_at", "duration"]

/-- A snapshot as a document. -/
def document (s : Snapshot) : Document :=
  .object
    [("target", .text s.target.toList),
     ("resolved", .text s.destination.text),
     ("hops", .array (s.hops.map HopView.document)),
     ("cycles", .natural s.cycles),
     ("started_at", .text s.startedAt.text),
     ("duration", .natural s.duration.wholeMicros)]

/-- An instant in a string. -/
def instant? (v : Value) : Option Time.Timestamp :=
  (Json.text? v).bind Time.Timestamp.ofText?

/-- Reads a snapshot. -/
def ofJson? (v : Value) : Option Snapshot := do
  match ← Json.fields? fieldNames v with
  | [target, destination, hops, cycles, startedAt, duration] =>
    pure
      { target := ← Json.required? Json.string? target
        destination := ← Json.required? Json.address? destination
        hops := ← Json.required? (Json.list? HopView.ofJson?) hops
        cycles := ← Json.required? (Json.natural? wordBound) cycles
        startedAt := ← Json.required? instant? startedAt
        duration := ← Json.required? HopView.micros? duration }
  | _ => none

/-- Reads a snapshot from a text. -/
def ofText? (text : String) : Option Snapshot :=
  (Value.ofText? text.toList).bind ofJson?

end Snapshot

end PathMeter
