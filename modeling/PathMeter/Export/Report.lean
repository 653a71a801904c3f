import PathMeter.Decimal.Fixed
import PathMeter.Duration.Seconds
import PathMeter.Export.Output
import PathMeter.Snapshot
import PathMeter.Text.Column

/-!
# Reports

A table for the eye: who was measured, since when and for how long, then a
line for each hop on the path that was probed, in columns.
-/

namespace PathMeter.Export.Report

open Text (flushLeft flushRight)

/-- A line of text, in the pieces it is written by. -/
def line (parts : List (List Char)) : List (List Char) :=
  parts ++ [['\n']]

/-- A row of the table: position, host, loss, the two counts and the five
figures, in their columns. -/
def tableLine (number host loss sent received : List Char) (figures : List (List Char)) :
    List (List Char) :=
  line
    ([flushRight 3 number, [' ', ' '], flushLeft 40 host, [' '], loss, [' '],
      flushRight 5 sent, [' '], flushRight 5 received] ++
      figures.flatMap fun f => [[' '], flushRight 8 f])

/-- A duration in milliseconds with one place and its unit. -/
def millis (d : Duration) : List Char :=
  Decimal.fixed 1 d.toMillis ++ ['m', 's']

/-- A round-trip figure, which is a dash for a hop that never answered. -/
def figure (h : HopView) (d : Duration) : List Char :=
  if 0 < h.received then millis d else ['-']

/-- How a hop is called in the report: its name with its address behind, or its
address, or question marks. -/
def host (h : HopView) : List Char :=
  match h.hostname, h.address with
  | some name, some ip => name.toList ++ [' ', '('] ++ ip.text ++ [')']
  | none, some ip => ip.text
  | _, none => ['?', '?', '?']

/-- The line of a hop. -/
def row (h : HopView) : List (List Char) :=
  tableLine (Decimal.digits h.number) (host h)
    (flushRight 5 (Decimal.fixed 1 h.loss) ++ ['%'])
    (Decimal.digits h.sent) (Decimal.digits h.received)
    [figure h h.last, figure h h.mean, figure h h.shortest, figure h h.longest,
      figure h h.spread]

/-- The lines above the table. -/
def heading (s : Snapshot) : List (List Char) :=
  line ["hoptrace report for ".toList, s.target.toList, [' ', '('], s.destination.text, [')']] ++
    line
      ["Started: ".toList, s.startedAt.dateText, [' '], s.startedAt.clockText,
        " UTC  Cycles: ".toList, Decimal.digits s.cycles, "  Elapsed: ".toList,
        Decimal.fixed 1 s.duration.toSeconds, ['s']] ++
    line []

/-- The names of the columns and the rule below them. -/
def columns : List (List Char) :=
  tableLine ['#'] "Host".toList (flushRight 6 "Loss%".toList) "Snt".toList "Rcv".toList
      (["Last", "Avg", "Best", "Wrst", "StDev"].map String.toList) ++
    line [List.replicate 110 '-']

/-- The report of a snapshot, in the pieces it is written by. -/
def pieces (s : Snapshot) : List (List Char) :=
  heading s ++ columns ++ s.rows.flatMap row

/-- The report of a snapshot. -/
def text (s : Snapshot) : List Char :=
  (pieces s).flatten

/-- Writes the report of a snapshot line by line. -/
def write {ε : Type} (s : Snapshot) (out : Output ε) : Writing ε Unit := do
  out.writePieces (heading s)
  out.writePieces columns
  s.path.forM fun h => unless h.sent = 0 do
    out.writePieces (row h)

end PathMeter.Export.Report
