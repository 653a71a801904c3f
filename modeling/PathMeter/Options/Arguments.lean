import PathMeter.Decimal.Numeral
import PathMeter.Options

/-!
# Command line arguments

Arguments are read from left to right.  An option with a value takes it from
the same argument, with or without an equals sign, or from the next one, which
then must not start with a hyphen.  A value that follows is judged only when
the next thing is taken in, so an unknown argument right behind a bad value is
what gets reported.  After `--` every argument is a target.

Options may stand once; only the flag for more logging adds up.
-/

namespace PathMeter.Options

/-- Why arguments do not make up options. -/
inductive Refusal where
  | unknownArgument
  /-- A value that its option does not take. -/
  | valueValidation
  /-- An option without its value. -/
  | invalidValue
  | missingRequiredArgument
  /-- An option given twice. -/
  | argumentConflict
  /-- A value for an option that takes none. -/
  | tooManyValues
  /-- The user asks for help. -/
  | displayHelp
  /-- The user asks for the version. -/
  | displayVersion
  deriving DecidableEq, Repr

/-- The options with a value. -/
inductive Setting where
  | count
  | interval
  | maxHops
  | timeout
  | sendDelay
  deriving DecidableEq, Repr

/-- The options without a value. -/
inductive Switch where
  | noNames
  | report
  | json
  | csv
  | verbose
  | help
  | version
  deriving DecidableEq, Repr

/-- An option by what it takes. -/
inductive Name where
  | setting (s : Setting)
  | switch (s : Switch)
  deriving DecidableEq, Repr

/-- The option with a long name. -/
def Name.ofLong? : String → Option Name
  | "count" => some (.setting .count)
  | "interval" => some (.setting .interval)
  | "max-hops" => some (.setting .maxHops)
  | "timeout" => some (.setting .timeout)
  | "send-delay" => some (.setting .sendDelay)
  | "no-dns" => some (.switch .noNames)
  | "report" => some (.switch .report)
  | "json" => some (.switch .json)
  | "csv" => some (.switch .csv)
  | "verbose" => some (.switch .verbose)
  | "help" => some (.switch .help)
  | "version" => some (.switch .version)
  | _ => none

/-- The option with a letter. -/
def Name.ofShort? : Char → Option Name
  | 'c' => some (.setting .count)
  | 'i' => some (.setting .interval)
  | 'm' => some (.setting .maxHops)
  | 'n' => some (.switch .noNames)
  | 'v' => some (.switch .verbose)
  | 'h' => some (.switch .help)
  | 'V' => some (.switch .version)
  | _ => none

/-- What has been understood so far. -/
structure Draft where
  target : Option String := none
  count : Option Nat := none
  interval : Option Float := none
  maxHops : Option UInt8 := none
  timeout : Option Float := none
  sendDelay : Option Nat := none
  noNames : Bool := false
  report : Bool := false
  json : Bool := false
  csv : Bool := false
  verbosity : Nat := 0
  /-- An option that waits for its value, or whose value is yet to be judged. -/
  pending : Option (Setting × Option (List Char)) := none

namespace Draft

/-- The largest count of flags for more logging. -/
def mostVerbose : Nat := 255

/-- Puts a value in a place that must still be empty. -/
def put {α : Type} (place : Option α) (value : Option α) : Except Refusal (Option α) :=
  match place, value with
  | some _, _ => .error .argumentConflict
  | none, none => .error .valueValidation
  | none, some v => .ok (some v)

/-- Takes an option with its value. -/
def set (d : Draft) (s : Setting) (value : List Char) : Except Refusal Draft :=
  match s with
  | .count => (put d.count (Decimal.natural? (Nat.pow 2 64) value)).map fun v => { d with count := v }
  | .interval => (put d.interval (Decimal.float? value)).map fun v => { d with interval := v }
  | .maxHops =>
    (put d.maxHops ((Decimal.signedNatural? 256 value).map UInt8.ofNat)).map fun v =>
      { d with maxHops := v }
  | .timeout => (put d.timeout (Decimal.float? value)).map fun v => { d with timeout := v }
  | .sendDelay =>
    (put d.sendDelay (Decimal.natural? (Nat.pow 2 64) value)).map fun v => { d with sendDelay := v }

/-- Judges the option that is pending, if any. -/
def settle (d : Draft) : Except Refusal Draft :=
  match d.pending with
  | none => .ok d
  | some (_, none) => .error .invalidValue
  | some (s, some value) => { d with pending := none }.set s value

/-- Turns a switch on, unless it is on already. -/
def turnOn (d : Draft) (isOn : Bool) (on : Draft) : Except Refusal Draft :=
  if isOn then .error .argumentConflict else .ok { on with pending := d.pending }

/-- Takes an option without a value. -/
def flip (d : Draft) (s : Switch) : Except Refusal Draft := do
  let d ← d.settle
  match s with
  | .noNames => d.turnOn d.noNames { d with noNames := true }
  | .report => d.turnOn d.report { d with report := true }
  | .json => d.turnOn d.json { d with json := true }
  | .csv => d.turnOn d.csv { d with csv := true }
  | .verbose => .ok { d with verbosity := min (d.verbosity + 1) mostVerbose }
  | .help => .error .displayHelp
  | .version => .error .displayVersion

/-- Takes an option whose value is part of the same argument, or may follow. -/
def take (d : Draft) (s : Setting) (attached : Option (List Char)) : Except Refusal Draft := do
  let d ← d.settle
  match attached with
  | some value => d.set s value
  | none => .ok { d with pending := some (s, none) }

/-- Reads the letters of an argument with one hyphen. -/
def letters (d : Draft) : List Char → Except Refusal Draft
  | [] => .ok d
  | c :: rest =>
    match Name.ofShort? c with
    | none => .error .unknownArgument
    | some (.switch s) => (d.flip s).bind fun d => letters d rest
    | some (.setting s) =>
      match rest with
      | [] => d.take s none
      | '=' :: value => d.take s (some value)
      | value => d.take s (some value)

/-- Reads an argument with two hyphens, without them. -/
def long (d : Draft) (argument : List Char) : Except Refusal Draft :=
  let name := argument.takeWhile (· ≠ '=')
  let attached := match argument.dropWhile (· ≠ '=') with
    | _ :: value => some value
    | [] => none
  match Name.ofLong? (String.ofList name), attached with
  | none, _ => .error .unknownArgument
  | some (.setting s), _ => d.take s attached
  | some (.switch _), some _ => .error .tooManyValues
  | some (.switch s), none => d.flip s

/-- Takes an argument as the target; there is only one. -/
def aim (d : Draft) (argument : List Char) : Except Refusal Draft :=
  match d.target with
  | some _ => .error .unknownArgument
  | none => d.settle.map fun d => { d with target := some (String.ofList argument) }

/-- Reads an argument in front of `--`. -/
def argument (d : Draft) (argument : List Char) : Except Refusal Draft :=
  match argument with
  | '-' :: '-' :: name => d.long name
  | '-' :: c :: rest => d.letters (c :: rest)
  | value =>
    match d.pending with
    | some (s, none) => .ok { d with pending := some (s, some value) }
    | _ => d.aim value

/-- Reads arguments; behind `--` all of them are targets. -/
def arguments (d : Draft) : List (List Char) → Except Refusal Draft
  | [] => .ok d
  | ['-', '-'] :: rest => rest.foldlM aim d
  | a :: rest => (d.argument a).bind fun d => arguments d rest

/-- The options, with the usual value wherever none was given. -/
def options (d : Draft) : Except Refusal Options :=
  match d.target with
  | none => .error .missingRequiredArgument
  | some target =>
    .ok
      { target := target
        count := d.count.getD 10
        interval := d.interval.getD 1.0
        maxHops := d.maxHops.getD 30
        timeout := d.timeout.getD 2.0
        sendDelay := d.sendDelay.getD 10
        noNames := d.noNames
        report := d.report
        json := d.json
        csv := d.csv
        verbosity := d.verbosity }

end Draft

/-- The options that arguments ask for. -/
def ofArguments (arguments : List String) : Except Refusal Options := do
  let d ← Draft.arguments {} (arguments.map String.toList)
  let d ← d.settle
  d.options

end PathMeter.Options
