import PathMeter.Decimal.Binary
import PathMeter.Decimal.Natural

/-!
# A fixed number of decimal places

Tables show a number with a fixed number of places after the point.  The
places are rounded once, from the exact value, and a half goes to the even
neighbour: `0.25` has the one-place text `0.2`.
-/

namespace PathMeter.Decimal

/-- A minus sign where the flag is set. -/
def signText (negative : Bool) : List Char :=
  if negative then ['-'] else []

/-- The text of a value that is no finite number. -/
def specialText : Binary → List Char
  | .infinite negative => signText negative ++ ['i', 'n', 'f']
  | _ => ['N', 'a', 'N']

/-- A count of units of the last place, with the point set before the last
`places` digits. -/
def withPoint (places units : Nat) : List Char :=
  if places = 0 then digits units
  else
    let ds := padded (places + 1) units
    ds.take (ds.length - places) ++ '.' :: ds.drop (ds.length - places)

/-- A value with `places` digits after the point. -/
def Binary.fixed (places : Nat) : Binary → List Char
  | .finite negative m e =>
    signText negative ++
      withPoint places (roundEven (numerator m e * Nat.pow 10 places) (denominator e))
  | special => specialText special

/-- A double with `places` digits after the point. -/
def fixed (places : Nat) (x : Float) : List Char :=
  (Binary.ofFloat x).fixed places

end PathMeter.Decimal
