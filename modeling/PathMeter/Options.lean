import PathMeter.Config
import PathMeter.Decimal.Shortest
import PathMeter.Duration.Seconds

/-!
# Options

What a user asks for on the command line, once the arguments are understood.
Times are still the numbers that were typed; `Options.fault?` finds the first
thing wrong with them, and `Options.config` turns them into a configuration,
in which a time that is no duration becomes the longest one.
-/

namespace PathMeter

/-- What a user asks for. -/
structure Options where
  target : String
  count : Nat
  /-- The pause between cycles in seconds. -/
  interval : Float
  maxHops : UInt8
  /-- The wait for replies in seconds. -/
  timeout : Float
  /-- The pause after each probe in milliseconds. -/
  sendDelay : Nat
  /-- Do without names. -/
  noNames : Bool
  report : Bool
  json : Bool
  csv : Bool
  /-- How much to log. -/
  verbosity : Nat
  deriving DecidableEq

namespace Options

/-- Whether the results are wanted once, at the end. -/
def isBatch (o : Options) : Bool :=
  o.json || o.csv || o.report

/-- The number of forms that the results are wanted in. -/
def formCount (o : Options) : Nat :=
  ([o.json, o.csv, o.report].filter id).length

/-- What to log when nothing else says so. -/
def logFilter (o : Options) : String :=
  match o.verbosity with
  | 0 => "warn"
  | 1 => "hoptrace=debug,info"
  | _ => "hoptrace=trace,debug"

/-- What can be wrong with options. -/
inductive Fault where
  /-- Results at the end of a run that has none. -/
  | endless
  | severalForms
  | badInterval (seconds : Float) (why : Duration.SecondsFault)
  | badTimeout (seconds : Float) (why : Duration.SecondsFault)
  | zeroTimeout
  | noHops
  deriving DecidableEq

/-- A double as it is shown to the user. -/
def shown (x : Float) : String :=
  String.ofList (Decimal.plain x)

/-- The wording of such a fault. -/
def Fault.message : Fault → String
  | .endless => "Batch output modes (--json, --csv, --report) require -c to be set"
  | .severalForms => "Choose only one of --json, --csv, --report"
  | .badInterval x why => "Invalid interval " ++ shown x ++ ": " ++ why.message
  | .badTimeout x why => "Invalid timeout " ++ shown x ++ ": " ++ why.message
  | .zeroTimeout => "Timeout must be positive"
  | .noHops => "Max hops must be at least 1"

/-- The first fault of the options. -/
def fault? (o : Options) : Option Fault :=
  if o.isBatch ∧ o.count = 0 then some .endless
  else if 1 < o.formCount then some .severalForms
  else match Duration.ofSeconds o.interval with
    | .error why => some (.badInterval o.interval why)
    | .ok _ =>
      match Duration.ofSeconds o.timeout with
      | .error why => some (.badTimeout o.timeout why)
      | .ok timeout =>
        if timeout = 0 then some .zeroTimeout
        else if o.maxHops = 0 then some .noHops
        else none

/-- A number of seconds as a duration; what is no duration becomes the longest
one. -/
def durationOf (seconds : Float) : Duration :=
  match Duration.ofSeconds seconds with
  | .ok d => d
  | .error _ => Duration.limit

/-- The configuration that the options ask for. -/
def config (o : Options) : Config where
  target := o.target
  maxHops := o.maxHops
  timeout := durationOf o.timeout
  interval := durationOf o.interval
  count := o.count
  resolveNames := !o.noNames
  sendDelay := Duration.ofMillis o.sendDelay
  payloadSize := Config.defaultPayload

end Options

end PathMeter
