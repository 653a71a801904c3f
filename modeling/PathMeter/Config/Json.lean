import PathMeter.Config
import PathMeter.Duration.Seconds
import PathMeter.Json.Document
import PathMeter.Json.Record

/-!
# Configurations in JSON

A configuration as a JSON document and back; durations are seconds with a
fraction.
-/

namespace PathMeter.Config

open Json (Document Value)

/-- The fields of a configuration in the order they are written. -/
def fieldNames : List String :=
  ["target", "max_hops", "timeout", "interval", "count", "resolve_names",
   "send_delay", "payload_size"]

/-- A configuration as a document. -/
def document (c : Config) : Document :=
  .object
    [("target", .text c.target.toList),
     ("max_hops", .natural c.maxHops.toNat),
     ("timeout", .float c.timeout.toSeconds),
     ("interval", .float c.interval.toSeconds),
     ("count", .natural c.count),
     ("resolve_names", .flag c.resolveNames),
     ("send_delay", .float c.sendDelay.toSeconds),
     ("payload_size", .natural c.payloadSize)]

/-- A duration in seconds. -/
def seconds? (v : Value) : Option Duration :=
  (Json.float? v).bind fun x => (Duration.ofSeconds x).toOption

/-- Reads a configuration. -/
def ofJson? (v : Value) : Option Config := do
  match ← Json.fields? fieldNames v with
  | [target, maxHops, timeout, interval, count, resolveNames, sendDelay, payloadSize] =>
    pure
      { target := ← Json.required? Json.string? target
        maxHops := UInt8.ofNat (← Json.required? (Json.natural? 256) maxHops)
        timeout := ← Json.required? seconds? timeout
        interval := ← Json.required? seconds? interval
        count := ← Json.required? (Json.natural? (Nat.pow 2 64)) count
        resolveNames := ← Json.required? Json.flag? resolveNames
        sendDelay := ← Json.required? seconds? sendDelay
        payloadSize := ← Json.required? (Json.natural? (Nat.pow 2 64)) payloadSize }
  | _ => none

/-- Reads a configuration from a text. -/
def ofText? (text : String) : Option Config :=
  (Value.ofText? text.toList).bind ofJson?

/-- The text of a configuration in one line. -/
def text (c : Config) : String :=
  String.ofList c.document.compact

end PathMeter.Config
