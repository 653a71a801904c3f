import PathMeter.Names.Target
import PathMeter.Text.Case
import PathMeter.Text.Control
import PathMeter.Text.Parts

/-!
# Names known without asking

Some names are the same everywhere, so a resolver answers for them without the
network: everything at or below `localhost` is this machine, everything at or
below `invalid` does not exist, an address is its own answer, and the loopback
addresses are called `localhost`.  `Local.host` fails for every other name.
-/

namespace PathMeter.Local

/-- The loopback address that names resolve to. -/
def loopback : IPv4 := ⟨127, 0, 0, 1⟩

/-- The labels of a name, in lower case, without the empty one that a final
dot leaves behind. -/
def labels (name : List Char) : List (List Char) :=
  let parts := Text.splitAt '.' (name.map Text.lower)
  if parts.getLast? = some [] then parts.dropLast else parts

/-- Whether the last label of a name is `label`. -/
def isUnder (label : String) (name : List Char) : Bool :=
  (labels name).getLast? = some label.toList

/-- The answer to a question for a host. -/
def host (name : String) : HostAnswer :=
  match IPAddress.ofText? name.toList with
  | some ip => .ok [ip]
  | none =>
    if isUnder "localhost" name.toList then .ok [.v4 loopback]
    else .error "no record found"

/-- The name of an address without the dot that ends a full name, and without
control characters. -/
def displayName (fullName : String) : String :=
  Text.printable (String.ofList (fullName.toList.reverse.dropWhile (· = '.')).reverse)

/-- The name of an address. -/
def name? (ip : IPv4) : Option String :=
  if ip.a = 127 then some (displayName "localhost.") else none

end PathMeter.Local
