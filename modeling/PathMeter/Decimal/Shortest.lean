import PathMeter.Decimal.Binary
import PathMeter.Decimal.Fixed
import PathMeter.Decimal.Natural

/-!
# The fewest digits that read back

Every real number near enough to a double reads as that double; these numbers
form an interval around it.  `shortest` finds the decimal number with the
fewest digits in the interval, and of several the one nearest to the double.

The search looks at grids of decimal numbers: the multiples of a power of ten,
from coarse to fine.  If a grid meets the interval at all, one of the two grid
points next to the double lies in it, so these two are all there is to test.
-/

namespace PathMeter.Decimal

/-- The number `significand * 10 ^ exponent`. -/
structure Scientific where
  significand : Nat
  exponent : Int
  deriving Repr, DecidableEq

namespace Scientific

/-- Moves trailing zeros of the significand into the exponent, at most `fuel`
of them. -/
def stripZeros : Nat → Scientific → Scientific
  | 0, s => s
  | fuel + 1, s =>
    if s.significand ≠ 0 ∧ s.significand % 10 = 0 then
      stripZeros fuel ⟨s.significand / 10, s.exponent + 1⟩
    else s

end Scientific

/-- The interval of numbers that read as one double, in units of a quarter of
its last place: the double itself, the two ends, and whether the ends belong. -/
structure Span where
  low : Nat
  centre : Nat
  high : Nat
  closed : Bool
  /-- The unit is `2 ^ unit`. -/
  unit : Int
  deriving Repr

namespace Span

/-- The interval around `m * 2 ^ e`.  Where the significand is the smallest
normal one, the double below is only half as far away, except at the bottom of
the range.  The ends belong to an even significand, since ties go to even. -/
def around (m : Nat) (e : Int) : Span where
  low := if m = Nat.pow 2 52 ∧ e ≠ -1074 then 4 * m - 1 else 4 * m - 2
  centre := 4 * m
  high := 4 * m + 2
  closed := m % 2 = 0
  unit := e - 2

/-- Numerator of the span's unit measured in steps of `10 ^ k`. -/
def stepNum (s : Span) (k : Int) : Nat :=
  Nat.pow 2 s.unit.toNat * Nat.pow 10 (-k).toNat

/-- Denominator of the span's unit measured in steps of `10 ^ k`. -/
def stepDen (s : Span) (k : Int) : Nat :=
  Nat.pow 2 (-s.unit).toNat * Nat.pow 10 k.toNat

/-- Whether the grid point `c * 10 ^ k` lies in the interval. -/
def holds (s : Span) (k : Int) (c : Nat) : Bool :=
  let x := c * s.stepDen k
  let low := s.low * s.stepNum k
  let high := s.high * s.stepNum k
  if s.closed then decide (low ≤ x ∧ x ≤ high) else decide (low < x ∧ x < high)

/-- The grid point of `10 ^ k` that stands for the interval, if the grid meets
it: of the two points next to the centre the one inside, or the nearer one, or
in the very middle the even one. -/
def gridPoint? (s : Span) (k : Int) : Option Nat :=
  let num := s.centre * s.stepNum k
  let den := s.stepDen k
  let c := num / den
  match s.holds k c, s.holds k (c + 1) with
  | true, true => some (roundEven num den)
  | true, false => some c
  | false, true => some (c + 1)
  | false, false => none

/-- The first grid that meets the interval, from `10 ^ k` downwards through
`fuel` further grids. -/
def search (s : Span) : Nat → Int → Scientific
  | 0, k => ⟨(s.gridPoint? k).getD 0, k⟩
  | fuel + 1, k =>
    match s.gridPoint? k with
    | some c => ⟨c, k⟩
    | none => search s fuel (k - 1)

end Span

/-- The decimal exponent of `num / den`: the largest `p`, in a window of three
around the estimate `guess`, with `10 ^ p` at most that quotient. -/
def decimalExponent (num den : Nat) (guess : Int) : Int :=
  let reaches (p : Int) : Bool := decide (den * Nat.pow 10 p.toNat ≤ num * Nat.pow 10 (-p).toNat)
  if reaches (guess + 1) then guess + 1
  else if reaches guess then guess
  else guess - 1

/-- The decimal number with the fewest digits that reads as `m * 2 ^ e`, where
`m` is a double's positive significand. -/
def shortest (m : Nat) (e : Int) : Scientific :=
  let guess := ((Nat.log2 m : Int) + e) * 30103 / 100000
  let p := decimalExponent (Binary.numerator m e) (Binary.denominator e) guess
  Scientific.stripZeros 17 ((Span.around m e).search 17 p)

namespace Scientific

/-- The number written out in full: no exponent, and a fraction only where
there is one. -/
def plain (s : Scientific) : List Char :=
  if 0 ≤ s.exponent then
    digits s.significand ++ List.replicate s.exponent.toNat '0'
  else
    withPoint (-s.exponent).toNat s.significand

end Scientific

/-- A value written out in full with the fewest digits that read back. -/
def Binary.plain : Binary → List Char
  | .finite negative m e =>
    signText negative ++ (if m = 0 then ['0'] else (shortest m e).plain)
  | special => specialText special

/-- A double written out in full with the fewest digits that read back. -/
def plain (x : Float) : List Char :=
  (Binary.ofFloat x).plain

end PathMeter.Decimal
