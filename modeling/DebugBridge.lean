import DebugBridge.Address
import DebugBridge.Breakpoint
import DebugBridge.Bridge.Basic
import DebugBridge.Bridge.Run
import DebugBridge.Bridge.Summary
import DebugBridge.BridgeError
import DebugBridge.CannedResponse
import DebugBridge.Command
import DebugBridge.Config
import DebugBridge.Content.Basic
import DebugBridge.Content.Matching
import DebugBridge.Content.Order
import DebugBridge.Content.Tree
import DebugBridge.Content.Visited
import DebugBridge.DebuggerState
import DebugBridge.Effect
import DebugBridge.EngineEvent
import DebugBridge.EngineRequest
import DebugBridge.EngineService
import DebugBridge.Envelope
import DebugBridge.Frame
import DebugBridge.Json.Basic
import DebugBridge.Json.Brackets
import DebugBridge.Json.Fault
import DebugBridge.Json.Numeral
import DebugBridge.Json.Printer
import DebugBridge.Json.Reader
import DebugBridge.Json.Record
import DebugBridge.Json.Shape
import DebugBridge.Json.StringText
import DebugBridge.KeyMap
import DebugBridge.Number.Basic
import DebugBridge.Number.Double
import DebugBridge.Number.Shortest
import DebugBridge.Pending
import DebugBridge.Policy
import DebugBridge.Proofs.Address
import DebugBridge.Proofs.Breakpoints
import DebugBridge.Proofs.Bridge.Acknowledging
import DebugBridge.Proofs.Bridge.Basic
import DebugBridge.Proofs.Bridge.Calls
import DebugBridge.Proofs.Bridge.Ending
import DebugBridge.Proofs.Bridge.FailingAlone
import DebugBridge.Proofs.Bridge.Finalized
import DebugBridge.Proofs.Bridge.Holders
import DebugBridge.Proofs.Bridge.Injection
import DebugBridge.Proofs.Bridge.Isolation
import DebugBridge.Proofs.Bridge.Jobs
import DebugBridge.Proofs.Bridge.LateAnswers
import DebugBridge.Proofs.Bridge.Ledger
import DebugBridge.Proofs.Bridge.Messages
import DebugBridge.Proofs.Bridge.Outstanding
import DebugBridge.Proofs.Bridge.Resumption
import DebugBridge.Proofs.Bridge.Running
import DebugBridge.Proofs.Bridge.Scopes
import DebugBridge.Proofs.Bridge.SteppingMode
import DebugBridge.Proofs.Bridge.Target
import DebugBridge.Proofs.Bridge.World
import DebugBridge.Proofs.Command
import DebugBridge.Proofs.Command.Echo
import DebugBridge.Proofs.Content.Comparing
import DebugBridge.Proofs.Content.Correspondence
import DebugBridge.Proofs.Content.Cycles
import DebugBridge.Proofs.Content.Dangling
import DebugBridge.Proofs.Content.Grown
import DebugBridge.Proofs.Content.Handles
import DebugBridge.Proofs.Content.Isomorphism
import DebugBridge.Proofs.Content.Operations
import DebugBridge.Proofs.Content.Paths
import DebugBridge.Proofs.Content.Setting
import DebugBridge.Proofs.Content.Unfolding
import DebugBridge.Proofs.DebuggerState
import DebugBridge.Proofs.EngineEvent
import DebugBridge.Proofs.Frame
import DebugBridge.Proofs.Frame.Depth
import DebugBridge.Proofs.Frame.Rearranging
import DebugBridge.Proofs.Frame.Written
import DebugBridge.Proofs.Json.Brackets
import DebugBridge.Proofs.Json.Children
import DebugBridge.Proofs.Json.Columns
import DebugBridge.Proofs.Json.Layout
import DebugBridge.Proofs.Json.Lexeme
import DebugBridge.Proofs.Json.Meaning
import DebugBridge.Proofs.Json.Numeral
import DebugBridge.Proofs.Json.Outline
import DebugBridge.Proofs.Json.Parsing
import DebugBridge.Proofs.Json.Place
import DebugBridge.Proofs.Json.Reading
import DebugBridge.Proofs.Json.Rearranging
import DebugBridge.Proofs.Json.Record
import DebugBridge.Proofs.Json.Same
import DebugBridge.Proofs.Json.Scanning
import DebugBridge.Proofs.Json.StringText
import DebugBridge.Proofs.KeyMap
import DebugBridge.Proofs.Number.Text
import DebugBridge.Proofs.Pending
import DebugBridge.Proofs.Pending.Custody
import DebugBridge.Proofs.Pending.Operations
import DebugBridge.Proofs.Policy
import DebugBridge.Proofs.Session.Calls
import DebugBridge.Proofs.Session.Entries
import DebugBridge.Proofs.Session.Faults
import DebugBridge.Proofs.Session.Freeing
import DebugBridge.Proofs.Session.Handling
import DebugBridge.Proofs.Session.Messages
import DebugBridge.Proofs.Session.Replies
import DebugBridge.Proofs.Session.Scopes
import DebugBridge.Proofs.Session.Sending
import DebugBridge.Proofs.Session.Serving
import DebugBridge.Proofs.Session.Table
import DebugBridge.Proofs.StorageSlot
import DebugBridge.Proofs.Text.Hex
import DebugBridge.Proofs.Text.Wrapping
import DebugBridge.Proofs.Wire.Acceptance
import DebugBridge.Proofs.Wire.Backward
import DebugBridge.Proofs.Wire.Building
import DebugBridge.Proofs.Wire.Canonical
import DebugBridge.Proofs.Wire.Dangling
import DebugBridge.Proofs.Wire.Document
import DebugBridge.Proofs.Wire.Escaping
import DebugBridge.Proofs.Wire.Filling
import DebugBridge.Proofs.Wire.Members
import DebugBridge.Proofs.Wire.Patching
import DebugBridge.Proofs.Wire.Pointer
import DebugBridge.Proofs.Wire.Rewriting
import DebugBridge.Proofs.Wire.RoundTrip
import DebugBridge.Proofs.Wire.TooDeep
import DebugBridge.Proofs.Wire.Unlimited
import DebugBridge.Proofs.Wire.Walk
import DebugBridge.Proofs.Wire.Writing
import DebugBridge.Proofs.Wire.Written
import DebugBridge.Rehearsal.Basic
import DebugBridge.Rehearsal.Endpoint
import DebugBridge.Rehearsal.EngineScript
import DebugBridge.Rehearsal.Link
import DebugBridge.Rehearsal.LocalAddress
import DebugBridge.Session.Basic
import DebugBridge.Session.Handling
import DebugBridge.Span
import DebugBridge.StorageSlot
import DebugBridge.Text.Blank
import DebugBridge.Text.Hex
import DebugBridge.Text.Quoted
import DebugBridge.Text.Unprintable
import DebugBridge.Text.Utf8
import DebugBridge.Transport
import DebugBridge.Url
import DebugBridge.Wire.Decoding
import DebugBridge.Wire.Encoding
import DebugBridge.Wire.Error
import DebugBridge.Wire.Patching
import DebugBridge.Wire.Pointer
