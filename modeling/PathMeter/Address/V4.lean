import PathMeter.Decimal.Natural
import PathMeter.Text.Parts

/-!
# IPv4 addresses

An IPv4 address is four bytes, written as four decimal numbers with dots
between them.  Reading is strict: exactly four parts, each at most 255 and
without a leading zero.
-/

namespace PathMeter

/-- An IPv4 address, first byte first. -/
structure IPv4 where
  a : UInt8
  b : UInt8
  c : UInt8
  d : UInt8
  deriving DecidableEq, Repr, Inhabited

namespace IPv4

/-- The four bytes in the order they travel in. -/
def bytes (ip : IPv4) : List UInt8 :=
  [ip.a, ip.b, ip.c, ip.d]

/-- The dotted text of an address. -/
def text (ip : IPv4) : List Char :=
  Decimal.digits ip.a.toNat ++ '.' :: Decimal.digits ip.b.toNat ++ '.' ::
    Decimal.digits ip.c.toNat ++ '.' :: Decimal.digits ip.d.toNat

instance : ToString IPv4 where
  toString ip := String.ofList ip.text

/-- One part of a dotted text: the digits of a number up to 255, as that number
is written. -/
def part? (s : List Char) : Option UInt8 :=
  if s ≠ [] ∧ s.length ≤ 3 ∧ s.all Decimal.isDigit ∧ Decimal.value s ≤ 255 ∧
      (s.length = 1 ∨ s.head? ≠ some '0') then
    some (UInt8.ofNat (Decimal.value s))
  else none

/-- Reads a dotted text. -/
def ofText? (s : List Char) : Option IPv4 :=
  match Text.splitAt '.' s with
  | [a, b, c, d] => do
    let a ← part? a
    let b ← part? b
    let c ← part? c
    let d ← part? d
    pure ⟨a, b, c, d⟩
  | _ => none

end IPv4

end PathMeter
