import PathMeter.Decimal.Binary
import PathMeter.Duration

/-!
# Durations in seconds

People give and read durations in seconds and milliseconds, as doubles.  Going
to a double rounds at most in the last place; coming from one rounds the exact
value to the nearest nanosecond, a half to the even one, and refuses what no
duration can be.
-/

namespace PathMeter

namespace Duration

/-- A duration in seconds. -/
def toSeconds (d : Duration) : Float :=
  Float.ofNat (d / second) + Float.ofNat (d % second) / 1e9

/-- A duration in milliseconds. -/
def toMillis (d : Duration) : Float :=
  d.toSeconds * 1000.0

/-- Why a number of seconds is no duration. -/
inductive SecondsFault where
  | negative
  /-- Too long, or no number at all. -/
  | tooLong
  deriving DecidableEq, Repr

/-- The wording of such a fault. -/
def SecondsFault.message : SecondsFault → String
  | .negative => "cannot convert float seconds to Duration: value is negative"
  | .tooLong => "cannot convert float seconds to Duration: value is either too big or NaN"

/-- The duration of a number of seconds; negative zero is zero. -/
def ofSeconds (x : Float) : Except SecondsFault Duration :=
  match Decimal.Binary.ofFloat x with
  | .nan => .error .tooLong
  | .infinite negative => .error (if negative then .negative else .tooLong)
  | .finite negative m e =>
    let num := Decimal.Binary.numerator m e
    let den := Decimal.Binary.denominator e
    if negative ∧ m ≠ 0 then .error .negative
    else if Nat.pow 2 64 * den ≤ num then .error .tooLong
    else .ok (Decimal.roundEven (num * second) den)

end Duration

end PathMeter
