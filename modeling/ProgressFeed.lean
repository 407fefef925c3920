import ProgressFeed.Backoff
import ProgressFeed.Binary64
import ProgressFeed.Bus
import ProgressFeed.Bus.Emission
import ProgressFeed.Bus.Journal
import ProgressFeed.Bus.Tally
import ProgressFeed.Bytes
import ProgressFeed.Bytes.Utf8
import ProgressFeed.Channel
import ProgressFeed.Clock
import ProgressFeed.Command
import ProgressFeed.Connection
import ProgressFeed.Credential
import ProgressFeed.Endpoint
import ProgressFeed.Event
import ProgressFeed.EventStream
import ProgressFeed.EventStream.Reader
import ProgressFeed.Fault
import ProgressFeed.Feed
import ProgressFeed.Incoming
import ProgressFeed.Json
import ProgressFeed.Json.Number
import ProgressFeed.Json.Parser
import ProgressFeed.Json.Text
import ProgressFeed.Link
import ProgressFeed.Message
import ProgressFeed.Message.Decode
import ProgressFeed.Message.Field
import ProgressFeed.Message.Rejection
import ProgressFeed.Net
import ProgressFeed.Net.Alarms
import ProgressFeed.Net.Loop
import ProgressFeed.Percent
import ProgressFeed.Phase
import ProgressFeed.Phase.History
import ProgressFeed.Proofs.Bus.Emission
import ProgressFeed.Proofs.Bus.Observers
import ProgressFeed.Proofs.Bus.Register
import ProgressFeed.Proofs.Circuit.Hearing
import ProgressFeed.Proofs.Circuit.Reports
import ProgressFeed.Proofs.Circuit.Run
import ProgressFeed.Proofs.Circuit.Step
import ProgressFeed.Proofs.Circuit.Upheld
import ProgressFeed.Proofs.EventStream.Blocks
import ProgressFeed.Proofs.EventStream.Lines
import ProgressFeed.Proofs.EventStream.Pieces
import ProgressFeed.Proofs.Feed.Advance
import ProgressFeed.Proofs.Feed.Alongside
import ProgressFeed.Proofs.Feed.Arrival
import ProgressFeed.Proofs.Feed.Balance
import ProgressFeed.Proofs.Feed.Broadcast
import ProgressFeed.Proofs.Feed.Closures
import ProgressFeed.Proofs.Feed.Custody
import ProgressFeed.Proofs.Feed.Disturbed
import ProgressFeed.Proofs.Feed.Frames
import ProgressFeed.Proofs.Feed.Fresh
import ProgressFeed.Proofs.Feed.Idle
import ProgressFeed.Proofs.Feed.JobEnd
import ProgressFeed.Proofs.Feed.Life
import ProgressFeed.Proofs.Feed.Moves
import ProgressFeed.Proofs.Feed.Owed
import ProgressFeed.Proofs.Feed.Own
import ProgressFeed.Proofs.Feed.Pace
import ProgressFeed.Proofs.Feed.Parted
import ProgressFeed.Proofs.Feed.Past
import ProgressFeed.Proofs.Feed.Progress
import ProgressFeed.Proofs.Feed.Renewal
import ProgressFeed.Proofs.Feed.Run
import ProgressFeed.Proofs.Feed.Schedule
import ProgressFeed.Proofs.Feed.Shift
import ProgressFeed.Proofs.Feed.Signs
import ProgressFeed.Proofs.Feed.Sound
import ProgressFeed.Proofs.Feed.Step
import ProgressFeed.Proofs.Feed.Tallied
import ProgressFeed.Proofs.Feed.Told
import ProgressFeed.Proofs.Feed.Traffic
import ProgressFeed.Proofs.Feed.Trail
import ProgressFeed.Proofs.Feed.Turns
import ProgressFeed.Proofs.Feed.Unlinked
import ProgressFeed.Proofs.Feed.Upheld
import ProgressFeed.Proofs.Feed.Wait
import ProgressFeed.Proofs.Feed.Within
import ProgressFeed.Proofs.Json.Range
import ProgressFeed.Proofs.Ledger
import ProgressFeed.Proofs.Link.Attempt
import ProgressFeed.Proofs.Link.Budget
import ProgressFeed.Proofs.Link.Calls
import ProgressFeed.Proofs.Link.Consistent
import ProgressFeed.Proofs.Link.Denial
import ProgressFeed.Proofs.Link.Finish
import ProgressFeed.Proofs.Link.Missing
import ProgressFeed.Proofs.Link.Own
import ProgressFeed.Proofs.Link.Retries
import ProgressFeed.Proofs.Link.Run
import ProgressFeed.Proofs.Link.Sending
import ProgressFeed.Proofs.Link.Shift
import ProgressFeed.Proofs.Link.Silence
import ProgressFeed.Proofs.Link.Sound
import ProgressFeed.Proofs.Link.Stale
import ProgressFeed.Proofs.Link.Step
import ProgressFeed.Proofs.Link.Terminal
import ProgressFeed.Proofs.Link.Traffic
import ProgressFeed.Proofs.Link.Turns
import ProgressFeed.Proofs.Link.Upheld
import ProgressFeed.Proofs.Message.Fields
import ProgressFeed.Proofs.Message.Language
import ProgressFeed.Proofs.Message.Wrapping
import ProgressFeed.Proofs.Net.Alarms
import ProgressFeed.Proofs.Phase.History
import ProgressFeed.Proofs.Rest
import ProgressFeed.Proofs.Session.Body
import ProgressFeed.Proofs.Session.Contract
import ProgressFeed.Proofs.Session.Ending
import ProgressFeed.Proofs.Session.Late
import ProgressFeed.Proofs.Session.Onward
import ProgressFeed.Proofs.Session.Outbox
import ProgressFeed.Proofs.Session.Run
import ProgressFeed.Proofs.Session.Stage
import ProgressFeed.Proofs.Session.Step
import ProgressFeed.Proofs.Session.Waiting
import ProgressFeed.Proofs.Shift
import ProgressFeed.Proofs.StatusQuery
import ProgressFeed.Proofs.Traffic
import ProgressFeed.Script
import ProgressFeed.Script.AlarmRun
import ProgressFeed.Script.Audience
import ProgressFeed.Script.BusRun
import ProgressFeed.Script.ClockRun
import ProgressFeed.Script.Completing
import ProgressFeed.Script.FeedRun
import ProgressFeed.Script.LinkRun
import ProgressFeed.Script.Network
import ProgressFeed.Script.ObserverRun
import ProgressFeed.Script.QueryRun
import ProgressFeed.Script.Scene
import ProgressFeed.Script.SessionRun
import ProgressFeed.Script.Surroundings
import ProgressFeed.Session
import ProgressFeed.Session.Basic
import ProgressFeed.Session.Socket
import ProgressFeed.Session.Stream
import ProgressFeed.Snapshot
import ProgressFeed.StatusQuery
import ProgressFeed.Timer
import ProgressFeed.Proofs.Endpoint
