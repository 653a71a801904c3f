import PathMeter.Json.Token

/-!
# JSON values

A token at a time builds a value.  The lists and objects that are still open
lie on a stack, so reading is a fold over the tokens and needs no bound on
nesting.  Members of an object keep their order and may repeat; what a repeat
means is for the reader of the object to say.
-/

namespace PathMeter.Json

open PathMeter.Decimal (Numeral)

/-- A JSON value as it was written. -/
inductive Value where
  | null
  | flag (b : Bool)
  | number (n : Numeral)
  | text (pieces : List Piece)
  | array (items : List Value)
  | object (members : List (List Piece × Value))
  deriving Repr

/-- A list or object that is still open, with what it holds so far, last part
first. -/
inductive Frame where
  | array (done : List Value)
  | object (done : List (List Piece × Value)) (key : List Piece)
  deriving Repr

/-- What the next token may be. -/
inductive Parse where
  /-- A value must follow. -/
  | value (stack : List Frame)
  /-- A list was opened: its first item or its end must follow. -/
  | firstItem (stack : List Frame)
  /-- An object was opened: its first key or its end must follow. -/
  | firstKey (stack : List Frame)
  /-- A comma in an object: a key must follow. -/
  | key (stack : List Frame) (done : List (List Piece × Value))
  /-- A key: a colon must follow. -/
  | colon (stack : List Frame) (done : List (List Piece × Value)) (key : List Piece)
  /-- A value is complete. -/
  | after (stack : List Frame) (v : Value)
  deriving Repr

namespace Parse

/-- Reads a token where a value must follow. -/
def value? (stack : List Frame) : Token → Option Parse
  | .null => some (.after stack .null)
  | .flag b => some (.after stack (.flag b))
  | .number n => some (.after stack (.number n))
  | .text ps => some (.after stack (.text ps))
  | .openBracket => some (.firstItem stack)
  | .openBrace => some (.firstKey stack)
  | _ => none

/-- Reads a token. -/
def step? (p : Parse) (t : Token) : Option Parse :=
  match p with
  | .value stack => value? stack t
  | .firstItem stack =>
    match t with
    | .closeBracket => some (.after stack (.array []))
    | t => value? (.array [] :: stack) t
  | .firstKey stack =>
    match t with
    | .closeBrace => some (.after stack (.object []))
    | .text k => some (.colon stack [] k)
    | _ => none
  | .key stack done =>
    match t with
    | .text k => some (.colon stack done k)
    | _ => none
  | .colon stack done k =>
    match t with
    | .colon => some (.value (.object done k :: stack))
    | _ => none
  | .after stack v =>
    match stack, t with
    | .array done :: rest, .comma => some (.value (.array (v :: done) :: rest))
    | .array done :: rest, .closeBracket => some (.after rest (.array (v :: done).reverse))
    | .object done k :: rest, .comma => some (.key rest ((k, v) :: done))
    | .object done k :: rest, .closeBrace =>
      some (.after rest (.object ((k, v) :: done).reverse))
    | _, _ => none

/-- The value, if it is complete and nothing is left open. -/
def result? : Parse → Option Value
  | .after [] v => some v
  | _ => none

end Parse

namespace Value

/-- The value that tokens make up. -/
def ofTokens? (ts : List Token) : Option Value :=
  (ts.foldlM Parse.step? (Parse.value [])).bind Parse.result?

/-- The value that a text holds. -/
def ofText? (s : List Char) : Option Value :=
  (tokens? s).bind ofTokens?

end Value

end PathMeter.Json
