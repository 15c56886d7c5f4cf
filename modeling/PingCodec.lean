import PingCodec.Bytes.Basic
import PingCodec.Bytes.View
import PingCodec.Cli.Argument
import PingCodec.Cli.Command
import PingCodec.Cli.Outcome
import PingCodec.Cli.Page
import PingCodec.Cli.Request
import PingCodec.Cli.Run
import PingCodec.Cli.Scan
import PingCodec.Frame.Error
import PingCodec.Frame.Head
import PingCodec.Frame.Kind
import PingCodec.Frame.Report
import PingCodec.Hex.Decode
import PingCodec.Hex.Encode
import PingCodec.Json
import PingCodec.Log
import PingCodec.Number.Basic
import PingCodec.Number.Decimal
import PingCodec.Number.Hexadecimal
import PingCodec.Number.Rounding
import PingCodec.Payload.Basic
import PingCodec.Payload.Class
import PingCodec.Payload.Random
import PingCodec.Ping.Basic
import PingCodec.Ping.Description
import PingCodec.Ping.Frame
import PingCodec.Session.Run
import PingCodec.Session.Step
import PingCodec.Session.Store
import PingCodec.Sink
import PingCodec.Text.Blank
import PingCodec.Text.Units
import PingCodec.Text.Wrap
import PingCodec.Main
import PingCodec.Proofs.Bytes
import PingCodec.Proofs.DecimalText
import PingCodec.Proofs.Number
import PingCodec.Proofs.Head
import PingCodec.Proofs.Ping
import PingCodec.Proofs.Decoding
import PingCodec.Proofs.Stream
import PingCodec.Proofs.Steps
import PingCodec.Proofs.Containment
import PingCodec.Proofs.Immutability
import PingCodec.Proofs.HeadRoundTrip
import PingCodec.Proofs.IgnoredBits
import PingCodec.Proofs.Binary64
import PingCodec.Proofs.Binary64Text
import PingCodec.Proofs.Loading
import PingCodec.Proofs.Sinks
import PingCodec.Proofs.HexReading
import PingCodec.Proofs.HexRoundTrip
import PingCodec.Proofs.Lossless
import PingCodec.Proofs.Scan
import PingCodec.Proofs.Tokens
import PingCodec.Proofs.Surroundings
import PingCodec.Proofs.Sharing
import PingCodec.Proofs.Storing
import PingCodec.Proofs.Isolation
import PingCodec.Proofs.Lines
import PingCodec.Proofs.Pages
import PingCodec.Proofs.Classes
import PingCodec.Proofs.Placement
import PingCodec.Proofs.Renderings
import PingCodec.Proofs.Draws
import PingCodec.Proofs.Requests
import PingCodec.Proofs.HexFaults
import PingCodec.Proofs.Actions
import PingCodec.Proofs.Conventions
import PingCodec.Proofs.CommandAgreement
import PingCodec.Proofs.AllOrNothing
import PingCodec.Proofs.DebugLog
import PingCodec.Proofs.EncodeOptions
import PingCodec.Proofs.SessionLog
