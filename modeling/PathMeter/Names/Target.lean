import PathMeter.Fault
import PathMeter.Text.Blank

/-!
# The target

From the name that a user gives to the one IPv4 address that is probed.  An
address is taken as it is; a name is looked up, and of the answer the first
IPv4 address counts, whatever else surrounds it.

An `Inquiry` is settled by itself or asks the name service one question, so
that what is asked, and that it is asked at most once, can be read off before
there is any answer.
-/

namespace PathMeter

/-- How a name service answers a question for a host: its addresses, or why it
has none to give. -/
abbrev HostAnswer := Except String (List IPAddress)

/-- The search for the address of a target. -/
inductive Inquiry where
  /-- Settled without a question. -/
  | settled (result : Except Fault IPv4)
  /-- Settled by the answer to one question. -/
  | ask (name : String) (next : HostAnswer → Except Fault IPv4)

namespace Inquiry

/-- The names that are asked for. -/
def asked : Inquiry → List String
  | settled _ => []
  | ask name _ => [name]

/-- The result, where `answer` is what the name service says. -/
def result (answer : String → HostAnswer) : Inquiry → Except Fault IPv4
  | settled r => r
  | ask name next => next (answer name)

/-- The address that an answer to the question for `name` leads to. -/
def ofAnswer (name : String) (answer : HostAnswer) : Except Fault IPv4 :=
  match answer with
  | .error reason => .error (.unresolved name reason)
  | .ok addresses =>
    match addresses.findSome? IPAddress.v4?, addresses with
    | some ip, _ => .ok ip
    | none, first :: _ => .error (.notV4 name first)
    | none, [] => .error (.unresolved name "no addresses found")

/-- The search for the address of a target, whose name counts without the
blanks around it. -/
def ofTarget (target : String) : Inquiry :=
  let name := Text.trim target.toList
  match IPAddress.ofText? name with
  | some (.v4 ip) => .settled (.ok ip)
  | some (.v6 ip) => .settled (.error (.notV4 (String.ofList name) (.v6 ip)))
  | none => .ask (String.ofList name) (ofAnswer (String.ofList name))

/-- The search for the address that a configuration names; a useless
configuration ends it before any question. -/
def ofConfig (c : Config) : Inquiry :=
  match c.fault? with
  | some fault => .settled (.error (Fault.ofConfig fault))
  | none => ofTarget c.target

end Inquiry

end PathMeter
