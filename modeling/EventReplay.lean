import EventReplay.Bulk.Batch
import EventReplay.Bulk.Endpoint
import EventReplay.Calendar.Date
import EventReplay.Calendar.Instant
import EventReplay.CommandLine.Ending
import EventReplay.CommandLine.Failure
import EventReplay.CommandLine.Job
import EventReplay.CommandLine.LogText
import EventReplay.CommandLine.Options
import EventReplay.Completion.Basic
import EventReplay.Completion.Callbacks
import EventReplay.Decimal.Plain
import EventReplay.Decimal.Read
import EventReplay.Decimal.Round
import EventReplay.Decimal.Shortest
import EventReplay.Event
import EventReplay.Hash.SipHash
import EventReplay.Json.Grammar
import EventReplay.Json.Lexeme
import EventReplay.Json.Quoted
import EventReplay.Json.Value
import EventReplay.Log.Line
import EventReplay.Log.Reader
import EventReplay.Log.Segment
import EventReplay.Log.Writer
import EventReplay.Main
import EventReplay.Metrics.Registry
import EventReplay.Metrics.Text
import EventReplay.Millis
import EventReplay.Net.SocketAddress
import EventReplay.Notice
import EventReplay.Outcome
import EventReplay.Proofs.AcknowledgedRecords
import EventReplay.Proofs.Aggregation
import EventReplay.Proofs.Announcements
import EventReplay.Proofs.BatchConservation
import EventReplay.Proofs.BatchFiles
import EventReplay.Proofs.BatchLimits
import EventReplay.Proofs.BatchMoves
import EventReplay.Proofs.Books
import EventReplay.Proofs.CallbackOrder
import EventReplay.Proofs.CallbackScript
import EventReplay.Proofs.CivilTime
import EventReplay.Proofs.DayCount
import EventReplay.Proofs.EmbeddedText
import EventReplay.Proofs.Ending
import EventReplay.Proofs.FileReplay
import EventReplay.Proofs.FlushAnswers
import EventReplay.Proofs.GateBooks
import EventReplay.Proofs.GateCalls
import EventReplay.Proofs.GateConservation
import EventReplay.Proofs.GateCourse
import EventReplay.Proofs.GateLine
import EventReplay.Proofs.GateRest
import EventReplay.Proofs.GateScript
import EventReplay.Proofs.GateSession
import EventReplay.Proofs.InstantReading
import EventReplay.Proofs.InstantSpellings
import EventReplay.Proofs.IntegerText
import EventReplay.Proofs.LexemeCut
import EventReplay.Proofs.LineFraming
import EventReplay.Proofs.LineParts
import EventReplay.Proofs.LogAsQueue
import EventReplay.Proofs.LogFaults
import EventReplay.Proofs.LogLineReading
import EventReplay.Proofs.LogListing
import EventReplay.Proofs.LogPassing
import EventReplay.Proofs.LogReading
import EventReplay.Proofs.LogRoundTrip
import EventReplay.Proofs.LogSteps
import EventReplay.Proofs.LogToStream
import EventReplay.Proofs.LossyEnding
import EventReplay.Proofs.MarkedText
import EventReplay.Proofs.MarkerCadence
import EventReplay.Proofs.MemoryBooks
import EventReplay.Proofs.MemoryConservation
import EventReplay.Proofs.MemoryScript
import EventReplay.Proofs.MetricsAgreement
import EventReplay.Proofs.Occupancy
import EventReplay.Proofs.PacedDispatch
import EventReplay.Proofs.RecordContext
import EventReplay.Proofs.RecordGrammar
import EventReplay.Proofs.RecordRoundTrip
import EventReplay.Proofs.ReopenedFiles
import EventReplay.Proofs.ShardFiles
import EventReplay.Proofs.ShardLines
import EventReplay.Proofs.StandingFiles
import EventReplay.Proofs.StreamCourse
import EventReplay.Proofs.StreamProtocol
import EventReplay.Proofs.StringBody
import EventReplay.Proofs.TextNesting
import EventReplay.Proofs.TokenForms
import EventReplay.Proofs.TrackerBooks
import EventReplay.Proofs.TrackerSession
import EventReplay.Proofs.UnfinishedLine
import EventReplay.Proofs.ValueBoundary
import EventReplay.Proofs.ValueReading
import EventReplay.Proofs.ValueText
import EventReplay.Proofs.WordArithmetic
import EventReplay.Proofs.WordReplay
import EventReplay.Proofs.WriterMoves
import EventReplay.Proofs.WrittenFiles
import EventReplay.Proofs.WrittenLines
import EventReplay.Record.Decode
import EventReplay.Record.Encode
import EventReplay.Record.Shard
import EventReplay.Replay.AdaptTime
import EventReplay.Replay.Gate
import EventReplay.Replay.GateTasks
import EventReplay.Replay.Hooks
import EventReplay.Replay.Pace
import EventReplay.Replay.Plan
import EventReplay.Replay.Rehearsal
import EventReplay.Replay.Report
import EventReplay.Replay.State
import EventReplay.Replay.Statistics
import EventReplay.Replay.Step
import EventReplay.Replay.Tracker
import EventReplay.Settings.Basic
import EventReplay.Settings.Fault
import EventReplay.Settings.Load
import EventReplay.Settings.Read
import EventReplay.Sink.Basic
import EventReplay.Sink.Delivery
import EventReplay.Sink.FileStream
import EventReplay.Sink.Memory
import EventReplay.Sink.Session
import EventReplay.Sink.ShardWriter
import EventReplay.Sink.StreamCalls
import EventReplay.Source
import EventReplay.Storage.AppendFile
import EventReplay.Storage.Disk
import EventReplay.Storage.FileTree
import EventReplay.Text.Blank
import EventReplay.Text.Bytes
import EventReplay.Text.Cased
import EventReplay.Text.Lowercase
import EventReplay.Text.Shown
import EventReplay.Text.Utf8
import EventReplay.Text.Visible
import EventReplay.Toml.Document
import EventReplay.Toml.Lexeme
import EventReplay.Toml.Scalar
import EventReplay.Toml.Table
