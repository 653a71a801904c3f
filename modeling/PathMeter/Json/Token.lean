import PathMeter.Decimal.Numeral
import PathMeter.Text.Hex

/-!
# JSON tokens

The lexical level of JSON: a text is read from left to right, one character at
a time, and gives off a token whenever one is complete.  Numbers and words are
runs of unquoted characters that end at the next blank, quote or bracket; a
run is judged as a whole.

Strings are kept as pieces, since an escape may name half of a surrogate pair.
Whether the pieces make up a text is asked only where a text is wanted
(`Piece.decode?`).
-/

namespace PathMeter.Json

open PathMeter.Decimal (Numeral)

/-- A part of a string: a character, or sixteen bits written as an escape. -/
inductive Piece where
  | plain (c : Char)
  | unit (code : Nat)
  deriving DecidableEq, Repr

namespace Piece

/-- The text that pieces make up: the two halves of a surrogate pair must stand
side by side. -/
def decode? : List Piece → Option (List Char)
  | [] => some []
  | .plain c :: rest => (decode? rest).map (c :: ·)
  | .unit u :: rest =>
    if u < 0xD800 ∨ 0xE000 ≤ u then (decode? rest).map (Char.ofNat u :: ·)
    else if u < 0xDC00 then
      match rest with
      | .unit v :: rest =>
        if 0xDC00 ≤ v ∧ v < 0xE000 then
          (decode? rest).map (Char.ofNat (0x10000 + (u - 0xD800) * 0x400 + (v - 0xDC00)) :: ·)
        else none
      | _ => none
    else none

end Piece

/-- A token of JSON. -/
inductive Token where
  | openBrace
  | closeBrace
  | openBracket
  | closeBracket
  | comma
  | colon
  | null
  | flag (b : Bool)
  | number (n : Numeral)
  | text (pieces : List Piece)
  deriving DecidableEq, Repr

/-- The numbers of JSON: a digit on each side of the point, no leading zero and
no plus sign. -/
def numeral? (s : List Char) : Option Numeral :=
  let (negative, rest) := match s with
    | '-' :: rest => (true, rest)
    | rest => (false, rest)
  match Numeral.unsigned? negative rest with
  | none => none
  | some n =>
    if n.whole ≠ [] ∧ n.fraction ≠ some [] ∧
        (n.whole.length = 1 ∨ n.whole.head? ≠ some '0') then
      some n
    else none

namespace Token

/-- The token that a run of unquoted characters is. -/
def ofRun? (run : List Char) : Option Token :=
  if run = ['n', 'u', 'l', 'l'] then some .null
  else if run = ['t', 'r', 'u', 'e'] then some (.flag true)
  else if run = ['f', 'a', 'l', 's', 'e'] then some (.flag false)
  else (numeral? run).map .number

/-- The token that a character is by itself. -/
def ofMark? : Char → Option Token
  | '\x7b' => some .openBrace
  | '\x7d' => some .closeBrace
  | '[' => some .openBracket
  | ']' => some .closeBracket
  | ',' => some .comma
  | ':' => some .colon
  | _ => none

end Token

/-- The characters that may stand between tokens. -/
def isSpace (c : Char) : Bool :=
  c = ' ' || c = '\t' || c = '\n' || c = '\r'

/-- The character that a one-letter escape stands for. -/
def escaped? : Char → Option Char
  | '"' => some '"'
  | '\\' => some '\\'
  | '/' => some '/'
  | 'b' => some '\x08'
  | 'f' => some '\x0c'
  | 'n' => some '\n'
  | 'r' => some '\r'
  | 't' => some '\t'
  | _ => none

/-- Where a text stands with respect to the token being read.  What has been
read of a token is kept last character first. -/
inductive Reading where
  /-- Between tokens. -/
  | between
  /-- In a run of unquoted characters. -/
  | run (seen : List Char)
  /-- In a string. -/
  | text (seen : List Piece)
  /-- After a backslash. -/
  | escape (seen : List Piece)
  /-- After `\u` and some of its four digits. -/
  | code (seen : List Piece) (count value : Nat)
  deriving DecidableEq, Repr

namespace Reading

/-- Reads a character between tokens: where the text stands then, and the token
that the character is. -/
def start? (c : Char) : Reading × List Token :=
  if isSpace c then (.between, [])
  else if c = '"' then (.text [], [])
  else match Token.ofMark? c with
    | some t => (.between, [t])
    | none => (.run [c], [])

/-- Whether a character ends a run of unquoted ones. -/
def endsRun (c : Char) : Bool :=
  isSpace c || c = '"' || (Token.ofMark? c).isSome

/-- Reads one character: where the text stands then, and the tokens that are
complete with it. -/
def step? (r : Reading) (c : Char) : Option (Reading × List Token) :=
  match r with
  | .between => some (start? c)
  | .run seen =>
    if endsRun c then do
      let t ← Token.ofRun? seen.reverse
      let (next, ts) := start? c
      pure (next, t :: ts)
    else some (.run (c :: seen), [])
  | .text seen =>
    if c = '"' then some (.between, [.text seen.reverse])
    else if c = '\\' then some (.escape seen, [])
    else if c.toNat < 0x20 then none
    else some (.text (.plain c :: seen), [])
  | .escape seen =>
    if c = 'u' then some (.code seen 0 0, [])
    else (escaped? c).map fun d => (.text (.plain d :: seen), [])
  | .code seen count value => do
    let d ← Text.hexValue? c
    let value := 16 * value + d
    if count = 3 then pure (.text (.unit value :: seen), [])
    else pure (.code seen (count + 1) value, [])

/-- The tokens that are complete at the end of the text. -/
def finish? : Reading → Option (List Token)
  | .between => some []
  | .run seen => (Token.ofRun? seen.reverse).map ([·])
  | _ => none

end Reading

/-- The tokens of a text that continues where `r` stands; those already
complete come last one first in `done`. -/
def tokensFrom (r : Reading) (done : List Token) : List Char → Option (List Token)
  | [] => r.finish?.map fun ts => (ts.reverse ++ done).reverse
  | c :: s => (r.step? c).bind fun (next, ts) => tokensFrom next (ts.reverse ++ done) s

/-- The tokens of a text. -/
def tokens? (s : List Char) : Option (List Token) :=
  tokensFrom .between [] s

end PathMeter.Json
