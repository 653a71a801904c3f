import PathMeter.Names.Target
import PathMeter.Options.Arguments

/-!
# The command

What the command line program does with its arguments before it touches the
network: it shows help, refuses, or finds the address to be probed.
-/

namespace PathMeter

/-- How far the program gets before it opens a socket. -/
inductive Command where
  | help
  | version
  /-- The arguments make up no options. -/
  | refused (why : Options.Refusal)
  /-- The options cannot be followed. -/
  | invalid (fault : Options.Fault)
  /-- There is nothing to probe. -/
  | failed (fault : Fault)
  /-- All is ready for a measurement. -/
  | ready (options : Options) (destination : IPv4)

namespace Command

/-- The lines that the program explains itself with. -/
def helpLines : List String :=
  ["Continuous ICMP path measurement (mtr-style) with per-hop statistics",
   "",
   "Usage: hoptrace [OPTIONS] <TARGET>",
   "",
   "Arguments:",
   "  <TARGET>  Target host to trace (IPv4 address or hostname)",
   "",
   "Options:",
   "  -c, --count <COUNT>               Number of cycles to run (0 = until interrupted) [default: 10]",
   "  -i, --interval <INTERVAL>         Pause between cycles in seconds [default: 1.0]",
   "  -m, --max-hops <MAX_HOPS>         Maximum number of hops probed [default: 30]",
   "      --timeout <TIMEOUT>           Per-cycle reply timeout in seconds [default: 2]",
   "      --send-delay <SEND_DELAY_MS>  Delay between hop probes within a cycle, in milliseconds [default: 10]",
   "  -n, --no-dns                      Skip reverse DNS lookups",
   "      --report                      Print a report when the run ends (batch, requires -c)",
   "      --json                        Output JSON when the run ends (batch, requires -c)",
   "      --csv                         Output CSV when the run ends (batch, requires -c)",
   "  -v, --verbose...                  Increase log verbosity (-v debug, -vv trace)",
   "  -h, --help                        Print help",
   "  -V, --version                     Print version"]

/-- The text that the program explains itself with. -/
def helpText : String :=
  String.join (helpLines.map fun line => line ++ "\n")

/-- The text that names the program and its version. -/
def versionText : String :=
  "hoptrace 0.1.0\n"

/-- What the program does with its arguments, where `answer` is what the name
service says. -/
def ofArguments (answer : String → HostAnswer) (arguments : List String) : Command :=
  match Options.ofArguments arguments with
  | .error .displayHelp => .help
  | .error .displayVersion => .version
  | .error why => .refused why
  | .ok options =>
    match options.fault? with
    | some fault => .invalid fault
    | none =>
      match (Inquiry.ofConfig options.config).result answer with
      | .error fault => .failed fault
      | .ok destination => .ready options destination

/-- The exit code of a program that stops there. -/
def exitCode : Command → Nat
  | .help | .version | .ready _ _ => 0
  | .refused _ => 2
  | .invalid _ | .failed _ => 1

/-- What the program has printed by then. -/
def output : Command → String
  | .help => helpText
  | .version => versionText
  | _ => ""

/-- What the program complains about, if it stops there. -/
def complaint : Command → String
  | .refused _ => "error: see --help for the arguments\n"
  | .invalid fault => "Error: " ++ fault.message ++ "\n"
  | .failed fault => fault.message ++ "\n"
  | _ => ""

end Command

end PathMeter
