import PathMeter.Decimal.Shortest
import PathMeter.Text.Hex

/-!
# Writing JSON

A document is a value to be written.  `compact` writes it without any blank,
`pretty` over several lines with two spaces for each level.  Both write a text
as a list of pieces, one for each write to the output; joined they are the
text.

Strings keep every character but quotes, backslashes and control characters
below the space.  Numbers have the fewest digits that read back and always
show that they are no whole numbers, by a point or a power of ten.
-/

namespace PathMeter.Json

open PathMeter.Decimal (Binary Scientific digits signText withPoint)

/-- A value to be written. -/
inductive Document where
  | null
  | flag (b : Bool)
  | natural (n : Nat)
  | float (x : Float)
  | text (s : List Char)
  | array (items : List Document)
  | object (members : List (String × Document))

/-! ## Numbers -/

/-- The decimal exponents between which a number is written out in full. -/
structure FullRange where
  least : Int
  greatest : Int

/-- Numbers from a hundred-thousandth up to sixteen digits are written out. -/
def fullRange : FullRange :=
  ⟨-5, 15⟩

/-- A number with a point, written out in full. -/
def fullText (s : Scientific) : List Char :=
  if 0 ≤ s.exponent then s.plain ++ ['.', '0'] else s.plain

/-- A number with one digit before the point and a power of ten. -/
def powerText (s : Scientific) (power : Int) : List Char :=
  let mantissa := match digits s.significand with
    | d :: [] => [d]
    | d :: ds => d :: '.' :: ds
    | [] => []
  mantissa ++ 'e' :: (if power < 0 then '-' else '+') :: digits power.natAbs

/-- A positive number. -/
def scientificText (s : Scientific) : List Char :=
  let power := s.exponent + (digits s.significand).length - 1
  if fullRange.least ≤ power ∧ power ≤ fullRange.greatest then fullText s
  else powerText s power

/-- A double; JSON has no word for those that are no finite number. -/
def floatText (x : Float) : List Char :=
  match Binary.ofFloat x with
  | .finite negative m e =>
    signText negative ++
      (if m = 0 then ['0', '.', '0'] else scientificText (Decimal.shortest m e))
  | _ => ['n', 'u', 'l', 'l']

/-! ## Strings -/

/-- A character as it is written in a string. -/
def escapeChar (c : Char) : List Char :=
  if c = '"' then ['\\', '"']
  else if c = '\\' then ['\\', '\\']
  else if c = '\x08' then ['\\', 'b']
  else if c = '\x0c' then ['\\', 'f']
  else if c = '\n' then ['\\', 'n']
  else if c = '\r' then ['\\', 'r']
  else if c = '\t' then ['\\', 't']
  else if c.toNat < 0x20 then
    ['\\', 'u', '0', '0', Text.hexDigit (c.toNat / 16), Text.hexDigit (c.toNat % 16)]
  else [c]

/-- A string in quotes. -/
def quoted (s : List Char) : List Char :=
  '"' :: s.flatMap escapeChar ++ ['"']

/-! ## Layout -/

namespace Document

/-- A document in one line without blanks. -/
def compact : Document → List Char
  | .null => ['n', 'u', 'l', 'l']
  | .flag true => ['t', 'r', 'u', 'e']
  | .flag false => ['f', 'a', 'l', 's', 'e']
  | .natural n => digits n
  | .float x => floatText x
  | .text s => quoted s
  | .array items => '[' :: compactItems items ++ [']']
  | .object members => '\x7b' :: compactMembers members ++ ['\x7d']
where
  compactItems : List Document → List Char
    | [] => []
    | [d] => compact d
    | d :: ds => compact d ++ ',' :: compactItems ds
  compactMembers : List (String × Document) → List Char
    | [] => []
    | [(k, d)] => quoted k.toList ++ ':' :: compact d
    | (k, d) :: ms => quoted k.toList ++ ':' :: compact d ++ ',' :: compactMembers ms

/-- The start of a line at a level. -/
def newLine (level : Nat) : List Char :=
  '\n' :: List.replicate (2 * level) ' '

/-- A document over several lines, in the pieces it is written by; `level` is
the level that its closing bracket stands at. -/
def pretty (level : Nat) : Document → List (List Char)
  | .array [] => [['[', ']']]
  | .array items => ['['] :: prettyItems (level + 1) items ++ [newLine level, [']']]
  | .object [] => [['\x7b', '\x7d']]
  | .object members => ['\x7b'] :: prettyMembers (level + 1) members ++ [newLine level, ['\x7d']]
  | .null => [['n', 'u', 'l', 'l']]
  | .flag true => [['t', 'r', 'u', 'e']]
  | .flag false => [['f', 'a', 'l', 's', 'e']]
  | .natural n => [digits n]
  | .float x => [floatText x]
  | .text s => [quoted s]
where
  prettyItems (level : Nat) : List Document → List (List Char)
    | [] => []
    | [d] => newLine level :: pretty level d
    | d :: ds => newLine level :: pretty level d ++ [','] :: prettyItems level ds
  prettyMembers (level : Nat) : List (String × Document) → List (List Char)
    | [] => []
    | [(k, d)] => newLine level :: quoted k.toList :: [':', ' '] :: pretty level d
    | (k, d) :: ms =>
      newLine level :: quoted k.toList :: [':', ' '] :: pretty level d ++
        [','] :: prettyMembers level ms

end Document

end PathMeter.Json
