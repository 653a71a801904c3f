import PathMeter.Address.V6
import PathMeter.Config

/-!
# Faults

What stops a measurement before it starts.  A probe that cannot be sent or is
never answered is no fault; it counts as lost.
-/

namespace PathMeter

/-- What stops a measurement before it starts. -/
inductive Fault where
  /-- The configuration asks for nothing that can be done. -/
  | invalidConfig (reason : String)
  /-- The target's name leads to no address. -/
  | unresolved (target reason : String)
  /-- The target has no IPv4 address but this one. -/
  | notV4 (target : String) (address : IPAddress)
  /-- The program may not open raw sockets. -/
  | permission (program : String)
  /-- The raw socket did not open for another reason. -/
  | socket (reason : String)
  /-- Any other failure of input or output. -/
  | io (reason : String)
  deriving DecidableEq, Repr

namespace Fault

/-- What a user is told. -/
def message : Fault → String
  | .invalidConfig reason => "Invalid configuration: " ++ reason
  | .unresolved target reason => "Failed to resolve target " ++ target ++ ": " ++ reason
  | .notV4 target address =>
    "Target " ++ target ++ " resolved to " ++ String.ofList address.text ++
      ", but only IPv4 is supported"
  | .permission program =>
    "Insufficient permissions for raw ICMP sockets.\n\nFix options:\n" ++
      "\u2022 Run with sudo: sudo hoptrace <target>\n" ++
      "\u2022 Add capability: sudo setcap cap_net_raw+ep " ++ program
  | .socket reason => "Failed to create raw ICMP socket: " ++ reason
  | .io reason => reason

/-- The fault that a useless configuration is. -/
def ofConfig (fault : Config.Fault) : Fault :=
  .invalidConfig fault.message

/-- The fault of a raw socket that did not open: where permission was denied,
`program` is told how to get it. -/
def ofSocketOpen (denied : Bool) (program reason : String) : Fault :=
  if denied then .permission program else .socket reason

end Fault

end PathMeter
