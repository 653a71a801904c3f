/-!
# The exact value of a double

A double is a special value or a signed natural number times a power of two.
`Binary.ofFloat` reads that off its bits, and the roundings to whole numbers
below work on the quotient of two natural numbers, so no rounding is left to a
machine.

* `roundEven` rounds a quotient to the nearest natural number, a half to the
  even neighbour (`two_mul_roundEven_le`, `le_two_mul_roundEven`: within half a
  unit);
* `Binary.nearestWord` rounds a double to the nearest 64-bit natural number, a
  half upwards, and holds on to the ends of that range.
-/

namespace PathMeter.Decimal

/-- What the bits of a double stand for. -/
inductive Binary where
  /-- No number at all. -/
  | nan
  /-- An infinity. -/
  | infinite (negative : Bool)
  /-- The number `significand * 2 ^ exponent`, with its sign; zero has a sign too. -/
  | finite (negative : Bool) (significand : Nat) (exponent : Int)
  deriving Repr, DecidableEq

namespace Binary

/-- Reads sign, exponent field and fraction.  A zero exponent field marks the
subnormal numbers, a full one the special values. -/
def ofBits (bits : Nat) : Binary :=
  let negative := decide (Nat.pow 2 63 ≤ bits)
  let field : Nat := bits / Nat.pow 2 52 % Nat.pow 2 11
  let fraction : Nat := bits % Nat.pow 2 52
  if field = 2047 then
    if fraction = 0 then .infinite negative else .nan
  else if field = 0 then
    .finite negative fraction (-1074)
  else
    .finite negative (Nat.pow 2 52 + fraction) ((field : Int) - 1075)

/-- The exact value of a double. -/
def ofFloat (x : Float) : Binary :=
  ofBits x.toBits.toNat

/-- Numerator of `significand * 2 ^ exponent` as a quotient of natural numbers. -/
def numerator (significand : Nat) (exponent : Int) : Nat :=
  significand * Nat.pow 2 exponent.toNat

/-- Denominator of `significand * 2 ^ exponent` as a quotient of natural numbers. -/
def denominator (exponent : Int) : Nat :=
  Nat.pow 2 (-exponent).toNat

end Binary

/-- The natural number nearest to a quotient; a half goes to the even neighbour. -/
def roundEven (num den : Nat) : Nat :=
  let q := num / den
  let r := num % den
  if 2 * r < den then q
  else if den < 2 * r then q + 1
  else q + q % 2

/-- The natural number nearest to a quotient; a half goes up. -/
def roundHalfUp (num den : Nat) : Nat :=
  (2 * num + den) / (2 * den)

/-- The largest 64-bit natural number. -/
def wordLimit : Nat := Nat.pow 2 64 - 1

/-- The 64-bit natural number nearest to a value, a half away from zero; what
lies outside the range goes to its nearer end, and no number at all to zero. -/
def Binary.nearestWord : Binary → Nat
  | .nan => 0
  | .infinite negative => if negative then 0 else wordLimit
  | .finite negative m e =>
    if negative then 0 else min (roundHalfUp (numerator m e) (denominator e)) wordLimit

/-- Rounding goes to the quotient from above or to its successor from below,
over at most half a unit. -/
theorem roundEven_cases (num den : Nat) :
    roundEven num den = num / den ∧ 2 * (num % den) ≤ den ∨
      roundEven num den = num / den + 1 ∧ den ≤ 2 * (num % den) := by
  simp only [roundEven]
  have hpar := Nat.mod_two_eq_zero_or_one (num / den)
  split
  · omega
  · split <;> omega

/-- The rounded number is at most half a unit too large. -/
theorem two_mul_roundEven_le {num den : Nat} (h : 0 < den) :
    2 * (den * roundEven num den) ≤ 2 * num + den := by
  have hdiv := Nat.div_add_mod num den
  have hmod := Nat.mod_lt num h
  have hsucc : den * (num / den + 1) = den * (num / den) + den := Nat.mul_succ den (num / den)
  rcases roundEven_cases num den with ⟨hr, _⟩ | ⟨hr, _⟩ <;> rw [hr] <;> omega

/-- The rounded number is at most half a unit too small. -/
theorem le_two_mul_roundEven {num den : Nat} (h : 0 < den) :
    2 * num ≤ 2 * (den * roundEven num den) + den := by
  have hdiv := Nat.div_add_mod num den
  have hmod := Nat.mod_lt num h
  have hsucc : den * (num / den + 1) = den * (num / den) + den := Nat.mul_succ den (num / den)
  rcases roundEven_cases num den with ⟨hr, _⟩ | ⟨hr, _⟩ <;> rw [hr] <;> omega

end PathMeter.Decimal
