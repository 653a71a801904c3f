import PathMeter.Duration
import PathMeter.Text.Blank

/-!
# Configuration

What a measurement is asked to do.  `Config.fault?` finds the first thing that
makes a configuration useless; the engine relies on there being none.
-/

namespace PathMeter

/-- What a measurement is asked to do. -/
structure Config where
  /-- Name or address of the target. -/
  target : String
  /-- The last position on the path that is probed. -/
  maxHops : UInt8
  /-- How long each cycle waits for replies. -/
  timeout : Duration
  /-- The pause between cycles. -/
  interval : Duration
  /-- The number of cycles; zero for as many as there is time for. -/
  count : Nat
  /-- Whether hops are called by name. -/
  resolveNames : Bool
  /-- The pause after each probe of a cycle. -/
  sendDelay : Duration
  /-- The payload of a probe in bytes. -/
  payloadSize : Nat
  deriving DecidableEq, Repr

namespace Config

/-- The usual payload of a probe. -/
def defaultPayload : Nat := 32

/-- The usual configuration for a target. -/
def forTarget (target : String) : Config where
  target := target
  maxHops := 30
  timeout := 2 * Duration.second
  interval := Duration.second
  count := 10
  resolveNames := true
  sendDelay := 10 * Duration.millisecond
  payloadSize := defaultPayload

/-- Why a configuration is useless. -/
inductive Fault where
  | emptyTarget
  | noHops
  | noTimeout
  deriving DecidableEq, Repr

/-- The wording of such a fault. -/
def Fault.message : Fault → String
  | .emptyTarget => "target must not be empty"
  | .noHops => "max hops must be at least 1"
  | .noTimeout => "timeout must be positive"

/-- The first fault of a configuration. -/
def fault? (c : Config) : Option Fault :=
  if Text.trim c.target.toList = [] then some .emptyTarget
  else if c.maxHops = 0 then some .noHops
  else if c.timeout = 0 then some .noTimeout
  else none

/-- Whether the number of cycles has no limit. -/
def isUnbounded (c : Config) : Bool :=
  c.count = 0

end Config

end PathMeter
