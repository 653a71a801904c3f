import PathMeter.Decimal.Fixed
import PathMeter.Duration.Seconds
import PathMeter.Export.Output
import PathMeter.Snapshot

/-!
# Comma-separated values

A table of the hops on the path that were probed: a line of column names, then
a line of eleven fields for each hop.  A field that holds a comma, a quote or
a line feed stands in quotes, with its own quotes doubled.

`Csv.records?` reads such a table as any reader of the format would.
-/

namespace PathMeter.Export.Csv

/-- Whether a field must stand in quotes. -/
def needsQuotes (field : List Char) : Bool :=
  field.any fun c => c = ',' || c = '"' || c = '\n'

/-- A text with every quote doubled. -/
def doubleQuotes (s : List Char) : List Char :=
  s.flatMap fun c => if c = '"' then ['"', '"'] else [c]

/-- A field as it is written. -/
def field (s : List Char) : List Char :=
  if needsQuotes s then '"' :: doubleQuotes s ++ ['"'] else s

/-- A line of fields, in the pieces it is written by. -/
def line (fields : List (List Char)) : List (List Char) :=
  (fields.map field).intersperse [','] ++ [['\n']]

/-- The names of the columns. -/
def columns : List String :=
  ["hop", "ip", "hostname", "loss_pct", "sent", "recv",
   "last_ms", "avg_ms", "min_ms", "max_ms", "stddev_ms"]

/-- A duration in milliseconds with two places. -/
def millis (d : Duration) : List Char :=
  Decimal.fixed 2 d.toMillis

/-- A round-trip figure, which is empty for a hop that never answered. -/
def figure (h : HopView) (d : Duration) : List Char :=
  if 0 < h.received then millis d else []

/-- The fields of a hop. -/
def row (h : HopView) : List (List Char) :=
  [Decimal.digits h.number,
   match h.address with
   | some ip => ip.text
   | none => ['*'],
   match h.hostname with
   | some name => name.toList
   | none => [],
   Decimal.fixed 1 h.loss,
   Decimal.digits h.sent,
   Decimal.digits h.received,
   figure h h.last,
   figure h h.mean,
   figure h h.shortest,
   figure h h.longest,
   figure h h.spread]

/-- The records of a snapshot: column names and rows. -/
def records (s : Snapshot) : List (List (List Char)) :=
  columns.map String.toList :: s.rows.map row

/-- The table of a snapshot, in the pieces it is written by. -/
def pieces (s : Snapshot) : List (List Char) :=
  (records s).flatMap line

/-- The table of a snapshot. -/
def text (s : Snapshot) : List Char :=
  (pieces s).flatten

/-- Writes the table of a snapshot line by line. -/
def write {ε : Type} (s : Snapshot) (out : Output ε) : Writing ε Unit := do
  out.writePieces (line (columns.map String.toList))
  s.path.forM fun h => unless h.sent = 0 do
    out.writePieces (line (row h))

/-! ## Reading -/

/-- Where a reader stands in a field. -/
inductive Place where
  /-- At the start of a field. -/
  | start
  /-- In a field without quotes. -/
  | bare
  /-- In a field in quotes. -/
  | inside
  /-- After a quote that ends the field, unless another follows. -/
  | closing
  deriving DecidableEq, Repr

/-- A reader in the middle of a table; everything read is kept last part
first. -/
structure Reader where
  place : Place
  seen : List Char
  fields : List (List Char)
  records : List (List (List Char))
  deriving Repr

namespace Reader

/-- Ends the field being read. -/
def endField (r : Reader) : Reader :=
  { r with place := .start, seen := [], fields := r.seen.reverse :: r.fields }

/-- Ends the record being read. -/
def endRecord (r : Reader) : Reader :=
  { r with
    place := .start
    seen := []
    fields := []
    records := (r.seen.reverse :: r.fields).reverse :: r.records }

/-- Keeps a character. -/
def keep (r : Reader) (place : Place) (c : Char) : Reader :=
  { r with place := place, seen := c :: r.seen }

/-- Reads a character outside quotes. -/
def plain (r : Reader) (c : Char) : Reader :=
  if c = ',' then r.endField
  else if c = '\n' then r.endRecord
  else r.keep .bare c

/-- Reads a character; only a comma, a line feed or a second quote may follow
the quote that ends a field. -/
def step? (r : Reader) (c : Char) : Option Reader :=
  match r.place with
  | .start => if c = '"' then some { r with place := .inside } else some (r.plain c)
  | .bare => some (r.plain c)
  | .inside => if c = '"' then some { r with place := .closing } else some (r.keep .inside c)
  | .closing =>
    if c = '"' then some (r.keep .inside c)
    else if c = ',' ∨ c = '\n' then some (r.plain c)
    else none

end Reader

/-- The records of a table whose last line is complete. -/
def records? (s : List Char) : Option (List (List (List Char))) := do
  let r ← s.foldlM Reader.step? ⟨.start, [], [], []⟩
  if r.place = .start ∧ r.fields = [] then some r.records.reverse else none

end PathMeter.Export.Csv
