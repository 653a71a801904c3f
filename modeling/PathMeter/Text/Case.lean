/-!
# Letter case

Host names and the names of special values are compared without regard to the
case of the letters `A` to `Z`; no other letter has two cases here.
-/

namespace PathMeter.Text

/-- A letter of the ASCII alphabet in lower case, any other character as it
is. -/
def lower (c : Char) : Char :=
  if 'A' ≤ c ∧ c ≤ 'Z' then Char.ofNat (c.toNat + 32) else c

end PathMeter.Text
