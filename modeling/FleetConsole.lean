import FleetConsole.Console.Mailbox
import FleetConsole.Event.Writer
import FleetConsole.Main
import FleetConsole.Router.Run
import FleetConsole.SortedMap.Lookup
import FleetConsole.Proofs.LineBuffer.Writing
import FleetConsole.Proofs.SortedMap
import FleetConsole.Proofs.Channel
import FleetConsole.Proofs.LineBuffer.Complete
import FleetConsole.Proofs.Router.History
import FleetConsole.Proofs.Router.Effect
import FleetConsole.Proofs.Router.Step
import FleetConsole.Proofs.Router.Isolation
import FleetConsole.Proofs.Router.Life
import FleetConsole.Proofs.Router.SlidingWindow
import FleetConsole.Proofs.GlobalLog.Change
import FleetConsole.Proofs.Router.GlobalHistory
import FleetConsole.Proofs.GlobalLog.Joined
import FleetConsole.Proofs.Router.Conservation
import FleetConsole.Proofs.Router.Delivery
import FleetConsole.Proofs.LineBuffer.Bearing
import FleetConsole.Proofs.LineBuffer.Archive
import FleetConsole.Proofs.Router.Writers
import FleetConsole.Proofs.LineBuffer.Sliding
import FleetConsole.Proofs.Console.Step
import FleetConsole.Proofs.Deputy.Monitor
import FleetConsole.Proofs.Fleet.Observed
import FleetConsole.Proofs.Router.LiveCount
import FleetConsole.Proofs.Session.FleetCount
import FleetConsole.Proofs.Json.Numeral
import FleetConsole.Proofs.Json.Quoted
import FleetConsole.Proofs.Json.Value
import FleetConsole.Proofs.Json.Printer
import FleetConsole.Proofs.Json.ReadBack
import FleetConsole.Proofs.Json.Sorted
import FleetConsole.Proofs.Settings.Reading
import FleetConsole.Proofs.FileTree
import FleetConsole.Proofs.Settings.Saving
import FleetConsole.Proofs.Session.ForeignKeys
import FleetConsole.Proofs.Router.Forgotten
import FleetConsole.Proofs.LinePrinter
import FleetConsole.Proofs.Router.FullLog
import FleetConsole.Proofs.Router.Printed
import FleetConsole.Proofs.Deputy.History
import FleetConsole.Proofs.Session.Output
import FleetConsole.Proofs.Router.Ticks
import FleetConsole.Proofs.Console.TickTiming
import FleetConsole.Proofs.Router.Coherence
import FleetConsole.Proofs.Console.Unheeded
import FleetConsole.Proofs.Console.Rows
import FleetConsole.Proofs.Number.Nearest
import FleetConsole.Proofs.Number.Decimal
import FleetConsole.Proofs.Number.Shortest
import FleetConsole.Proofs.Json.Float
import FleetConsole.Proofs.Time.Calendar
import FleetConsole.Proofs.Time.Timestamp
import FleetConsole.Proofs.Json.Tagged
import FleetConsole.Proofs.Event.RoundTrip
import FleetConsole.Proofs.Json.Legible
import FleetConsole.Proofs.Settings.RoundTrip
import FleetConsole.Proofs.CommandLine.LeftOut
import FleetConsole.Proofs.Session.Restart
import FleetConsole.Proofs.Router.Ingested
import FleetConsole.Proofs.LineBuffer.Newest
import FleetConsole.Proofs.Router.Upkeep
import FleetConsole.Proofs.Style.Segments
import FleetConsole.Proofs.Text.ByteOrder
import FleetConsole.Proofs.Style.CanonicalKey
import FleetConsole.Proofs.Style.Reading
import FleetConsole.Proofs.Style.Truncation
import FleetConsole.Proofs.Router.Truncated
import FleetConsole.Proofs.Style.Interning
import FleetConsole.Proofs.Router.RaisedQuota
import FleetConsole.Proofs.LineBuffer.Chunks
import FleetConsole.Proofs.LineBuffer.Polling
import FleetConsole.Proofs.Json.OneLine
import FleetConsole.Proofs.Console.Signals
