/-!
# Control characters

Names that come from the network may hold control characters that would steer
a terminal.  `printable` removes them: the 65 code points of the Unicode
category `Cc`.
-/

namespace PathMeter.Text

/-- Whether a character has the category `Cc`. -/
def isControl (c : Char) : Bool :=
  c.toNat < 0x20 || (0x7F ≤ c.toNat && c.toNat < 0xA0)

/-- A text without its control characters. -/
def printable (s : String) : String :=
  String.ofList (s.toList.filter fun c => !isControl c)

end PathMeter.Text
