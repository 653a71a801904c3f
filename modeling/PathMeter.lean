import PathMeter.Address.V4
import PathMeter.Address.V6
import PathMeter.Command
import PathMeter.Config
import PathMeter.Config.Json
import PathMeter.Decimal.Binary
import PathMeter.Decimal.Fixed
import PathMeter.Decimal.Natural
import PathMeter.Decimal.Numeral
import PathMeter.Decimal.Shortest
import PathMeter.Duration
import PathMeter.Duration.Seconds
import PathMeter.Engine.Channel
import PathMeter.Engine.CycleReport
import PathMeter.Engine.History
import PathMeter.Engine.Listening
import PathMeter.Engine.Lookup
import PathMeter.Engine.Network
import PathMeter.Engine.Reading
import PathMeter.Engine.Rehearsal
import PathMeter.Engine.Run
import PathMeter.Engine.SendPass
import PathMeter.Engine.State
import PathMeter.Export
import PathMeter.Export.Csv
import PathMeter.Export.Output
import PathMeter.Export.Report
import PathMeter.Export.Sink
import PathMeter.Fault
import PathMeter.Hop
import PathMeter.Hop.Sample
import PathMeter.Json.Document
import PathMeter.Json.Record
import PathMeter.Json.Token
import PathMeter.Json.Value
import PathMeter.Ledger
import PathMeter.Main
import PathMeter.Names.Local
import PathMeter.Names.Target
import PathMeter.Options
import PathMeter.Options.Arguments
import PathMeter.Proofs.Attribution
import PathMeter.Proofs.BitErrors
import PathMeter.Proofs.BoundedReading
import PathMeter.Proofs.Calendar
import PathMeter.Proofs.Construction
import PathMeter.Proofs.Copies
import PathMeter.Proofs.Counters
import PathMeter.Proofs.Cycle
import PathMeter.Proofs.DecimalReading
import PathMeter.Proofs.Digits
import PathMeter.Proofs.DocumentReading
import PathMeter.Proofs.DoubleBits
import PathMeter.Proofs.EarlyStop
import PathMeter.Proofs.Follows
import PathMeter.Proofs.ForeignTraffic
import PathMeter.Proofs.GaplessRows
import PathMeter.Proofs.HopAccount
import PathMeter.Proofs.Ledger
import PathMeter.Proofs.Listening
import PathMeter.Proofs.LiveFigures
import PathMeter.Proofs.Lookups
import PathMeter.Proofs.LostOutput
import PathMeter.Proofs.Naming
import PathMeter.Proofs.NearestDouble
import PathMeter.Proofs.NumeralReading
import PathMeter.Proofs.OnesComplement
import PathMeter.Proofs.Publication
import PathMeter.Proofs.Reachable
import PathMeter.Proofs.ReadLimit
import PathMeter.Proofs.RecordReading
import PathMeter.Proofs.ReplyFormat
import PathMeter.Proofs.ReplyGrammar
import PathMeter.Proofs.Reports
import PathMeter.Proofs.RoundTrip
import PathMeter.Proofs.RunTime
import PathMeter.Proofs.Schedule
import PathMeter.Proofs.SendPass
import PathMeter.Proofs.ShortestDigits
import PathMeter.Proofs.Shown
import PathMeter.Proofs.SnapshotReading
import PathMeter.Proofs.Stage
import PathMeter.Proofs.Staircase
import PathMeter.Proofs.Staleness
import PathMeter.Proofs.Stopping
import PathMeter.Proofs.TableReading
import PathMeter.Proofs.TargetReading
import PathMeter.Proofs.Timeline
import PathMeter.Proofs.TimestampReading
import PathMeter.Proofs.Timetable
import PathMeter.Proofs.Turns
import PathMeter.Proofs.Waiting
import PathMeter.Snapshot
import PathMeter.Snapshot.Json
import PathMeter.Text.Blank
import PathMeter.Text.Case
import PathMeter.Text.Column
import PathMeter.Text.Control
import PathMeter.Text.Hex
import PathMeter.Text.Parts
import PathMeter.Time.Calendar
import PathMeter.Time.Timestamp
import PathMeter.Wire.Checksum
import PathMeter.Wire.Datagram
import PathMeter.Wire.Echo
import PathMeter.Wire.ProbeId
import PathMeter.Wire.Reply
import PathMeter.Wire.Word
