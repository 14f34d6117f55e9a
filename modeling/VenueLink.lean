import VenueLink.Account
import VenueLink.Balance
import VenueLink.Broker.Basic
import VenueLink.Broker.Call
import VenueLink.Calendar.Date
import VenueLink.Calendar.Scan
import VenueLink.Calendar.Timestamp
import VenueLink.Command.Address
import VenueLink.Command.Flag
import VenueLink.Command.Invocation
import VenueLink.Command.Run
import VenueLink.Config.Basic
import VenueLink.Config.Text
import VenueLink.DailyResult
import VenueLink.Document.Basic
import VenueLink.Document.Reading
import VenueLink.Document.Scan
import VenueLink.Error
import VenueLink.Exchange.Basic
import VenueLink.Exchange.Correlator
import VenueLink.Exchange.Plan
import VenueLink.Exchange.Timeline
import VenueLink.Http.Form
import VenueLink.Http.Handler
import VenueLink.Http.MediaType
import VenueLink.Http.Message
import VenueLink.Http.Route
import VenueLink.Instrument
import VenueLink.Json.Basic
import VenueLink.Json.Lenient
import VenueLink.Json.Printer
import VenueLink.Link.Basic
import VenueLink.Link.Phase
import VenueLink.Link.Signal
import VenueLink.Main
import VenueLink.Number.Decimal
import VenueLink.Number.Double
import VenueLink.Number.Literal
import VenueLink.Number.Shortest
import VenueLink.Order.Basic
import VenueLink.Order.Record
import VenueLink.Proofs.Exchange.Registry
import VenueLink.Proofs.Exchange.SingleOutcome
import VenueLink.Proofs.Switchboard.Event
import VenueLink.Proofs.Switchboard.Standing
import VenueLink.Proofs.Switchboard.Turn
import VenueLink.Service
import VenueLink.Session.Live
import VenueLink.Session.Script
import VenueLink.Store.Memory
import VenueLink.Store.Orders
import VenueLink.Store.Results
import VenueLink.Stream.Address
import VenueLink.Stream.Basic
import VenueLink.Switchboard.Basic
import VenueLink.Switchboard.Delivery
import VenueLink.Switchboard.Schedule
import VenueLink.Switchboard.Step
import VenueLink.Text.Ascii
import VenueLink.Text.Blank
import VenueLink.Text.Digits
import VenueLink.Text.Split
import VenueLink.Text.Utf8
import VenueLink.Toml.Reader
import VenueLink.Toml.Scalar
import VenueLink.Toml.Text
import VenueLink.Toml.Tree
import VenueLink.Uuid
import VenueLink.Venue.Answer
import VenueLink.Venue.Frame
import VenueLink.Web.Fetch
import VenueLink.Web.Url
import VenueLink.Wire
import VenueLink.Proofs.Switchboard.Orderly
import VenueLink.Proofs.Switchboard.Course
import VenueLink.Proofs.Switchboard.Alarm
import VenueLink.Proofs.Switchboard.Run
import VenueLink.Proofs.Switchboard.Handover
import VenueLink.Proofs.Switchboard.Fate
import VenueLink.Proofs.Broker.Run
import VenueLink.Proofs.Broker.LateRequest
import VenueLink.Proofs.Broker.Placement
import VenueLink.Proofs.Switchboard.Offer
import VenueLink.Proofs.Broker.Rejection
import VenueLink.Proofs.Exchange.FanOut
import VenueLink.Proofs.Switchboard.Attempt
import VenueLink.Proofs.Switchboard.Connecting
import VenueLink.Proofs.Switchboard.Play
import VenueLink.Proofs.Switchboard.Attuned
import VenueLink.Proofs.Switchboard.Shift
import VenueLink.Proofs.Switchboard.Reopening
import VenueLink.Proofs.Broker.SameConnection
import VenueLink.Proofs.Broker.Course
import VenueLink.Proofs.Broker.Described
import VenueLink.Proofs.Broker.Records
import VenueLink.Proofs.Switchboard.Answering
import VenueLink.Proofs.Switchboard.Biding
import VenueLink.Proofs.Switchboard.Book
import VenueLink.Proofs.Switchboard.Handshake
import VenueLink.Proofs.Switchboard.Heralds
import VenueLink.Proofs.Switchboard.Occurrence
import VenueLink.Proofs.Switchboard.Owner
import VenueLink.Proofs.Switchboard.Pause
import VenueLink.Proofs.Switchboard.Progress
import VenueLink.Proofs.Switchboard.Watch
import VenueLink.Proofs.Switchboard.Punctual
import VenueLink.Proofs.Switchboard.Settling
import VenueLink.Proofs.Switchboard.Work
import VenueLink.Proofs.Broker.OrderIds
import VenueLink.Proofs.Exchange.Transcript
import VenueLink.Proofs.Exchange.Bare
import VenueLink.Proofs.Exchange.Caps
import VenueLink.Proofs.Exchange.Unheeded
import VenueLink.Proofs.Broker.EarlyExit
import VenueLink.Proofs.Switchboard.Intake
import VenueLink.Proofs.Switchboard.Endings
import VenueLink.Proofs.Switchboard.InTime
import VenueLink.Proofs.Calendar.Range
import VenueLink.Proofs.Session.Pass
import VenueLink.Proofs.Switchboard.Trail
import VenueLink.Proofs.Switchboard.Moments
import VenueLink.Proofs.Broker.Ledger
import VenueLink.Proofs.Broker.OrderState
import VenueLink.Proofs.Broker.Snapshot
import VenueLink.Proofs.Broker.Lookup
import VenueLink.Proofs.Store.Listing
import VenueLink.Proofs.Store.Groups
import VenueLink.Proofs.Store.Sorting
import VenueLink.Proofs.Store.GroupedRows
import VenueLink.Proofs.Store.OrderListing
import VenueLink.Proofs.Broker.Results
import VenueLink.Proofs.Text.ReadBack
import VenueLink.Proofs.Text.ByteOrder
import VenueLink.Proofs.Calendar.ReadBack
import VenueLink.Proofs.Http.Query
import VenueLink.Proofs.Http.ResultRequests
import VenueLink.Proofs.Broker.OwnWrites
import VenueLink.Proofs.Stream.Tale
import VenueLink.Proofs.Stream.Mark
import VenueLink.Proofs.Stream.Readers
import VenueLink.Proofs.Document.ReadBack
import VenueLink.Proofs.Number.ReadBack
import VenueLink.Proofs.Venue.Frames
import VenueLink.Proofs.Number.Rounding
import VenueLink.Proofs.Number.Bounds
import VenueLink.Proofs.Json.Genuine
import VenueLink.Proofs.Balance.NormalForm
import VenueLink.Proofs.Balance.Report
import VenueLink.Proofs.Order.Refusal
import VenueLink.Proofs.Number.Numeral
import VenueLink.Proofs.Json.Integers
import VenueLink.Proofs.Venue.Spelling
import VenueLink.Proofs.Order.Ids
import VenueLink.Proofs.Broker.OrderNames
import VenueLink.Proofs.Instrument.Search
import VenueLink.Proofs.Switchboard.Greetings
import VenueLink.Proofs.Broker.OrderFrames
import VenueLink.Proofs.Session.Token
import VenueLink.Proofs.Text.Splitting
import VenueLink.Proofs.Balance.Kinds
import VenueLink.Proofs.Http.Routes
import VenueLink.Proofs.Broker.KindQueries
import VenueLink.Proofs.Calendar.Instants
import VenueLink.Proofs.Uuid
import VenueLink.Proofs.Document.Restored
import VenueLink.Proofs.Order.ReadBack
import VenueLink.Proofs.Document.Compact
import VenueLink.Proofs.Document.Tables
import VenueLink.Proofs.Toml.Passable
import VenueLink.Proofs.Config.Overlay
