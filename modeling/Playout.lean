import Playout.AudioSink
import Playout.Backends
import Playout.Config
import Playout.Decoder.Basic
import Playout.Decoder.Passthrough
import Playout.Duration
import Playout.Error
import Playout.Event
import Playout.Format
import Playout.Identity
import Playout.Json.Basic
import Playout.Json.Form
import Playout.Json.Printer
import Playout.Json.Reader
import Playout.Platform
import Playout.Playback.Call
import Playout.Playback.Machine
import Playout.Playback.Perform
import Playout.Playback.State
import Playout.Playback.Task
import Playout.Presentation.Basic
import Playout.Proofs.Audio.Buffering
import Playout.Proofs.Audio.Deadline
import Playout.Proofs.Audio.DrainWait
import Playout.Proofs.Audio.Opening
import Playout.Proofs.Audio.Settings
import Playout.Proofs.Audio.SinkLog
import Playout.Proofs.Decoder.Conversation
import Playout.Proofs.Delivery.AllOrNothing
import Playout.Proofs.Delivery.Arrival
import Playout.Proofs.Delivery.Conservation
import Playout.Proofs.Delivery.Debts
import Playout.Proofs.Delivery.Failures
import Playout.Proofs.Delivery.Handoff
import Playout.Proofs.Delivery.Pushes
import Playout.Proofs.Delivery.Remainder
import Playout.Proofs.Delivery.Rendering
import Playout.Proofs.Delivery.Strands
import Playout.Proofs.Delivery.Whereabouts
import Playout.Proofs.Display.Damage
import Playout.Proofs.Display.Drawing
import Playout.Proofs.Display.Offers
import Playout.Proofs.Display.Screen
import Playout.Proofs.Histories
import Playout.Proofs.Identity
import Playout.Proofs.Json.Grammar
import Playout.Proofs.Json.Members
import Playout.Proofs.Json.PartialConfig
import Playout.Proofs.Json.Reading
import Playout.Proofs.Json.RoundTrip
import Playout.Proofs.Lifecycle.Custody
import Playout.Proofs.Lifecycle.Halt
import Playout.Proofs.Lifecycle.Launch
import Playout.Proofs.Lifecycle.Parts
import Playout.Proofs.Lifecycle.Quiet
import Playout.Proofs.Lifecycle.Removal
import Playout.Proofs.Lifecycle.Request
import Playout.Proofs.Lifecycle.Stopping
import Playout.Proofs.Lifecycle.Threads
import Playout.Proofs.Plain
import Playout.Proofs.Playback.Aside
import Playout.Proofs.Playback.Conduct
import Playout.Proofs.Playback.Crew
import Playout.Proofs.Playback.History
import Playout.Proofs.Playback.HoldBack
import Playout.Proofs.Playback.PlaybackTime
import Playout.Proofs.Playback.Run
import Playout.Proofs.Playback.Stacks
import Playout.Proofs.Playback.Standing
import Playout.Proofs.Playback.Steering
import Playout.Proofs.Playback.Turn
import Playout.Proofs.Presentation.Decoders
import Playout.Proofs.Presentation.EndOfStream
import Playout.Proofs.Presentation.Flush
import Playout.Proofs.Presentation.Handles
import Playout.Proofs.Presentation.Ledger
import Playout.Proofs.Presentation.Negotiation
import Playout.Proofs.Presentation.Queues
import Playout.Proofs.Presentation.Tables
import Playout.Proofs.Registry.Calls
import Playout.Proofs.Registry.Decoders
import Playout.Proofs.Registry.Entries
import Playout.Proofs.Registry.OneHost
import Playout.Proofs.Registry.Teardown
import Playout.Proofs.Schedule.Drain
import Playout.Proofs.Schedule.Gate
import Playout.Proofs.Schedule.Merge
import Playout.Proofs.Schedule.Order
import Playout.Proofs.Schedule.Selection
import Playout.Proofs.Text.Hex
import Playout.Rect
import Playout.Sample
import Playout.SampleFlags
import Playout.Schedule
import Playout.Script.Doubles
import Playout.Script.Motion
import Playout.Script.Question
import Playout.Script.Report
import Playout.Script.Run
import Playout.Script.Session
import Playout.Script.Step
import Playout.Text.Blank
import Playout.Text.CodeRanges
import Playout.Text.Combining
import Playout.Text.Hex
import Playout.Text.Quoted
