import PathMeter.Export.Csv
import PathMeter.Export.Report
import PathMeter.Export.Sink
import PathMeter.Snapshot.Json

/-!
# Exports

The three forms in which results leave the program.  An export that meets a
full output reports failure, and what the output holds is the start of the
whole text.
-/

namespace PathMeter.Export

/-- The forms of an export. -/
inductive Format where
  | csv
  | json
  | report
  deriving DecidableEq, Repr

/-- The export of a snapshot, in the pieces it is written by. -/
def pieces (f : Format) (s : Snapshot) : List (List Char) :=
  match f with
  | .csv => Csv.pieces s
  | .json => s.document.pretty 0
  | .report => Report.pieces s

/-- The export of a snapshot. -/
def text (f : Format) (s : Snapshot) : String :=
  String.ofList (pieces f s).flatten

/-- The bytes of an export. -/
def bytes (f : Format) (s : Snapshot) : List UInt8 :=
  (text f s).toUTF8.data.toList

/-- Writes the export of a snapshot. -/
def write {ε : Type} (f : Format) (s : Snapshot) (out : Output ε) : Writing ε Unit :=
  match f with
  | .csv => Csv.write s out
  | .json => out.writePieces (s.document.pretty 0)
  | .report => Report.write s out

/-- Exports a snapshot to an output. -/
def toOutput {ε : Type} (f : Format) (s : Snapshot) (out : Output ε) : Receipt ε :=
  Writing.receipt (write f s out)

/-- Exports a snapshot to an output with room for `room` bytes. -/
def toSink (f : Format) (s : Snapshot) (room : Nat) : Sink :=
  let receipt := toOutput f s (.limited room)
  ⟨receipt.taken.toArray, !receipt.result.isOk⟩

end PathMeter.Export
