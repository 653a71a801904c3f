import PathMeter.Address.V4
import PathMeter.Json.Value

/-!
# Records in JSON

A record has a fixed list of fields.  It is written as an object, in any order
and with unknown members among the known ones, or as a list of exactly its
fields in order.  A known field must not repeat.

The readers of single values below say which values a field takes.
-/

namespace PathMeter.Json

open PathMeter.Decimal (Numeral)

/-- The text of a string. -/
def text? : Value → Option (List Char)
  | .text ps => Piece.decode? ps
  | _ => none

/-- A string. -/
def string? (v : Value) : Option String :=
  (text? v).map String.ofList

/-- A natural number below a bound, written without point and power. -/
def natural? (bound : Nat) : Value → Option Nat
  | .number n =>
    match n.toNat? with
    | some k => if k < bound then some k else none
    | none => none
  | _ => none

/-- A number that a double can hold. -/
def float? : Value → Option Float
  | .number n =>
    let x := n.toFloat
    if x.isFinite then some x else none
  | _ => none

/-- A truth value. -/
def flag? : Value → Option Bool
  | .flag b => some b
  | _ => none

/-- An IPv4 address in a string. -/
def address? (v : Value) : Option IPv4 :=
  (text? v).bind IPv4.ofText?

/-- A list whose items are all of one sort. -/
def list? {α : Type} (item? : Value → Option α) : Value → Option (List α)
  | .array items => items.mapM item?
  | _ => none

/-- `null`, or a value of some sort. -/
def optional? {α : Type} (item? : Value → Option α) : Value → Option (Option α)
  | .null => some none
  | v => (item? v).map some

/-- The values of the members with a name. -/
def valuesOf (members : List (List Char × Value)) (name : String) : List Value :=
  (members.filter fun m => m.1 = name.toList).map (·.2)

/-- The value of the member with a name, if there is one; there must not be
two. -/
def member? (members : List (List Char × Value)) (name : String) : Option (Option Value) :=
  match valuesOf members name with
  | [] => some none
  | [v] => some (some v)
  | _ => none

/-- The members of an object, whose keys must all be texts. -/
def members? (members : List (List Piece × Value)) : Option (List (List Char × Value)) :=
  members.mapM fun m => (Piece.decode? m.1).map fun key => (key, m.2)

/-- The values of a record's fields in the order of their names. -/
def fields? (names : List String) : Value → Option (List (Option Value))
  | .object members => do
    let members ← members? members
    names.mapM (member? members)
  | .array items => if items.length = names.length then some (items.map some) else none
  | _ => none

/-- A field that must be there. -/
def required? {α : Type} (item? : Value → Option α) (field : Option Value) : Option α :=
  field.bind item?

/-- A field that may be missing, which means the same as `null`. -/
def omissible? {α : Type} (item? : Value → Option α) (field : Option Value) :
    Option (Option α) :=
  match field with
  | none => some none
  | some v => optional? item? v

end PathMeter.Json
