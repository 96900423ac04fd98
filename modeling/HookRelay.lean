import HookRelay.Address
import HookRelay.Chat
import HookRelay.Connection
import HookRelay.Connection.Reader
import HookRelay.Connection.Session
import HookRelay.Connection.Step
import HookRelay.Connection.Writer
import HookRelay.Console
import HookRelay.Console.Run
import HookRelay.Duration
import HookRelay.EventLoop
import HookRelay.EventLoop.Step
import HookRelay.Failure
import HookRelay.Intake
import HookRelay.Log
import HookRelay.Mailbox
import HookRelay.Main
import HookRelay.Message
import HookRelay.Network
import HookRelay.Options
import HookRelay.Payload
import HookRelay.Proofs.Connection.Answering
import HookRelay.Proofs.Connection.Deadlines
import HookRelay.Proofs.Connection.Draining
import HookRelay.Proofs.Connection.Flushing
import HookRelay.Proofs.Connection.Heartbeats
import HookRelay.Proofs.Connection.Reading
import HookRelay.Proofs.Connection.Sending
import HookRelay.Proofs.Connection.Surroundings
import HookRelay.Proofs.Connection.Teardown
import HookRelay.Proofs.Connection.Turns
import HookRelay.Proofs.Connection.Writing
import HookRelay.Proofs.Console.Calls
import HookRelay.Proofs.Console.Lines
import HookRelay.Proofs.EventLoop.Accounts
import HookRelay.Proofs.EventLoop.Audience
import HookRelay.Proofs.EventLoop.Calls
import HookRelay.Proofs.EventLoop.Clients
import HookRelay.Proofs.EventLoop.Closing
import HookRelay.Proofs.EventLoop.Conservation
import HookRelay.Proofs.EventLoop.Dispatching
import HookRelay.Proofs.EventLoop.Exhaustion
import HookRelay.Proofs.EventLoop.Forwarding
import HookRelay.Proofs.EventLoop.Handling
import HookRelay.Proofs.EventLoop.Issuing
import HookRelay.Proofs.EventLoop.Moves
import HookRelay.Proofs.EventLoop.Recipients
import HookRelay.Proofs.EventLoop.Registrations
import HookRelay.Proofs.EventLoop.Restarts
import HookRelay.Proofs.EventLoop.Serial
import HookRelay.Proofs.EventLoop.Shutdown
import HookRelay.Proofs.EventLoop.Surroundings
import HookRelay.Proofs.EventLoop.Transparency
import HookRelay.Proofs.EventLoop.Turns
import HookRelay.Proofs.Intake
import HookRelay.Proofs.Message
import HookRelay.Proofs.Options
import HookRelay.Proofs.Payload
import HookRelay.Proofs.Registry.Broadcast
import HookRelay.Proofs.Registry.Client
import HookRelay.Proofs.Registry.Delivery
import HookRelay.Proofs.Registry.Identity
import HookRelay.Proofs.Registry.Separation
import HookRelay.Proofs.Registry.SharedIntake
import HookRelay.Proofs.Relay.Capacity
import HookRelay.Proofs.Relay.Connections
import HookRelay.Proofs.Relay.Delivery
import HookRelay.Proofs.Relay.Handshake
import HookRelay.Proofs.Relay.Moves
import HookRelay.Proofs.Relay.Parts
import HookRelay.Proofs.Relay.Settling
import HookRelay.Proofs.Relay.Turns
import HookRelay.Proofs.Relay.Wiring
import HookRelay.Proofs.Settings.Demands
import HookRelay.Proofs.Settings.Fields
import HookRelay.Proofs.Settings.Layers
import HookRelay.Proofs.Steps
import HookRelay.Proofs.Supervision
import HookRelay.Proofs.Text
import HookRelay.Proofs.Wire.Arriving
import HookRelay.Proofs.Wire.Cutting
import HookRelay.Proofs.Wire.Deadlines
import HookRelay.Proofs.Wire.Framing
import HookRelay.Proofs.Wire.Minimality
import HookRelay.Proofs.Wire.Opening
import HookRelay.Proofs.Wire.Piping
import HookRelay.Proofs.Wire.Prefixes
import HookRelay.Proofs.Wire.Reading
import HookRelay.Proofs.Wire.RoundTrip
import HookRelay.Proofs.Wire.Size
import HookRelay.Proofs.Wire.Skipping
import HookRelay.Proofs.Wire.TreeSemantics
import HookRelay.Proofs.Wire.UnknownFields
import HookRelay.Proofs.Wire.Value
import HookRelay.Registry
import HookRelay.Registry.Session
import HookRelay.Relay
import HookRelay.Relay.Session
import HookRelay.Relay.Settle
import HookRelay.Relay.Step
import HookRelay.Schedule
import HookRelay.Settings
import HookRelay.Settings.File
import HookRelay.Settings.Folder
import HookRelay.Settings.Load
import HookRelay.Socket
import HookRelay.Supervision
import HookRelay.Text.Blank
import HookRelay.Text.Utf8
import HookRelay.Toml.Document
import HookRelay.Toml.Moment
import HookRelay.Toml.Number
import HookRelay.Toml.Quoted
import HookRelay.Toml.Scanner
import HookRelay.Toml.Value
import HookRelay.Wire.BigEndian
import HookRelay.Wire.Decoding
import HookRelay.Wire.Encoding
import HookRelay.Wire.Frame
import HookRelay.Wire.Inbound
import HookRelay.Wire.Marker
import HookRelay.Wire.Pipe
import HookRelay.Wire.Received
