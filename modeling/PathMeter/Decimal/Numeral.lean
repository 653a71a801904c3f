import PathMeter.Decimal.Natural
import PathMeter.Text.Case

/-!
# Decimal numerals

A numeral is digits, perhaps a point and more digits, perhaps a power of ten.
`Numeral.unsigned?` takes that shape apart without asking how many digits each
part has; the formats that read numbers differ in just this, and each asks in
its own module.  `Numeral.toFloat` is the double nearest to the number meant.
-/

namespace PathMeter.Decimal

/-- A numeral taken apart into its sign and its rows of digits. -/
structure Numeral where
  negative : Bool
  /-- The digits before the point. -/
  whole : List Char
  /-- The digits after the point, if there is a point. -/
  fraction : Option (List Char)
  /-- Sign and digits of the power of ten, if there is one. -/
  power : Option (Bool × List Char)
  deriving Repr, DecidableEq

namespace Numeral

/-- All digits of the numeral but those of the power. -/
def allDigits (n : Numeral) : List Char :=
  n.whole ++ n.fraction.getD []

/-- The power of ten that the row of all digits is to be multiplied with. -/
def scale (n : Numeral) : Int :=
  let power : Int := match n.power with
    | none => 0
    | some (true, ds) => -(value ds : Int)
    | some (false, ds) => value ds
  power - (n.fraction.getD []).length

/-- The double nearest to the number; beyond the range it is infinite, and a
negative number too small for any double is negative zero. -/
def toFloat (n : Numeral) : Float :=
  let x := Float.ofScientific (value n.allDigits) (n.scale < 0) n.scale.natAbs
  if n.negative then -x else x

/-- The number, when the numeral is a bare row of digits. -/
def toNat? (n : Numeral) : Option Nat :=
  match n.negative, n.fraction, n.power with
  | false, none, none => some (value n.whole)
  | _, _, _ => none

/-- Reads the power of ten, which has at least one digit, up to the end. -/
def power? : List Char → Option (Option (Bool × List Char))
  | [] => some none
  | c :: s =>
    if c = 'e' ∨ c = 'E' then
      let (negative, ds) := match s with
        | '-' :: ds => (true, ds)
        | '+' :: ds => (false, ds)
        | ds => (false, ds)
      if ds ≠ [] ∧ ds.all isDigit then some (some (negative, ds)) else none
    else none

/-- Takes a numeral without a sign apart; every row before the power may be
empty. -/
def unsigned? (negative : Bool) (s : List Char) : Option Numeral :=
  let (whole, rest) := spanDigits s
  match rest with
  | '.' :: rest =>
    let (fraction, rest) := spanDigits rest
    (power? rest).map fun power => ⟨negative, whole, some fraction, power⟩
  | rest => (power? rest).map fun power => ⟨negative, whole, none, power⟩

end Numeral

/-- A natural number below `bound` written in digits alone, where a plus sign
may stand in front. -/
def natural? (bound : Nat) (s : List Char) : Option Nat :=
  let ds := match s with
    | '+' :: ds => ds
    | ds => ds
  if ds ≠ [] ∧ ds.all isDigit ∧ value ds < bound then some (value ds) else none

/-- A natural number below `bound`, where either sign may stand in front: a
minus sign only before zero. -/
def signedNatural? (bound : Nat) (s : List Char) : Option Nat :=
  match s with
  | '-' :: ds => if ds ≠ [] ∧ ds.all isDigit ∧ value ds = 0 then some 0 else none
  | s => natural? bound s

/-- A double written by hand: an optional sign, then a numeral with a digit
before or after its point, or the name of a special value in any case. -/
def float? (s : List Char) : Option Float :=
  let (negative, rest) := match s with
    | '-' :: rest => (true, rest)
    | '+' :: rest => (false, rest)
    | rest => (false, rest)
  let special (x : Float) : Float := if negative then -x else x
  match rest.map Text.lower with
  | ['n', 'a', 'n'] => some (special (0.0 / 0.0))
  | ['i', 'n', 'f'] => some (special (1.0 / 0.0))
  | ['i', 'n', 'f', 'i', 'n', 'i', 't', 'y'] => some (special (1.0 / 0.0))
  | _ =>
    match Numeral.unsigned? negative rest with
    | some n => if n.allDigits = [] then none else some n.toFloat
    | none => none

end PathMeter.Decimal
