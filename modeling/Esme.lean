import Esme.Stream.Transducer
import Esme.Stream.Guarded
import Esme.Stream.Slots
import Esme.Stream.Tracking
import Esme.Stream.Framing
import Esme.Stream.Escapes
import Esme.Stream.Truncation
import Esme.Stream.Reassembly
import Esme.Stream.Loss
import Esme.Stream.Cursor
import Esme.Stream.Turns
import Esme.Stream.Mailbox
import Esme.Memory.Buffer
import Esme.Memory.Ranges
import Esme.Memory.Text
import Esme.Memory.Numbers
import Esme.Memory.Sorted
import Esme.Files.Tree
import Esme.Driver.Datatype
import Esme.Driver.Callback
import Esme.Driver.Assembly
import Esme.Driver.Frames
import Esme.Driver.Bounds
import Esme.Driver.Layouts
import Esme.Driver.Camera
import Esme.Driver.Ioctl
import Esme.Driver.Calls
import Esme.Driver.Traffic
import Esme.Driver.Freshness
import Esme.Driver.Answers
import Esme.Driver.Waiters
import Esme.Driver.Threads
import Esme.Driver.Settling
import Esme.Driver.Turns
import Esme.Driver.Reads
import Esme.Driver.Deliveries
import Esme.Driver.Mailbox
import Esme.Driver.Lifecycle
import Esme.Driver.Registration
import Esme.Driver.Binding
import Esme.Json.Dump
import Esme.Json.Value
import Esme.Json.Cbor
import Esme.Json.CborReading
import Esme.Json.Floats
import Esme.Json.CborRoundTrip
import Esme.Json.Lexer
import Esme.Json.Utf8
import Esme.Json.Parser
import Esme.Json.Parsing
import Esme.Json.Grammar
import Esme.Json.Lexemes
import Esme.Json.FloatText
import Esme.Json.Spelling
import Esme.Json.TextRoundTrip
import Esme.Json.Scanning
import Esme.Json.Syntax
import Esme.Json.Sizes
import Esme.Json.Exchange
import Esme.Bridge.Slip
import Esme.Bridge.Write
import Esme.Bridge.Blocking
import Esme.Bridge.Package
import Esme.Bridge.Loop
import Esme.Bridge.Trace
import Esme.Bridge.Decoding
import Esme.Bridge.Runs
import Esme.Bridge.Packets
import Esme.Bridge.Malformed
import Esme.Bridge.Lines
import Esme.Bridge.Schedule
import Esme.Bridge.Descriptors
import Esme.Bridge.Connections
import Esme.Bridge.Whole
import Esme.Bridge.Hangup
import Esme.Bridge.Relay
import Esme.Reader.Record
import Esme.Reader.Watchdog
import Esme.Reader.Recording
import Esme.Reader.Filming
import Esme.Reader.Video
import Esme.Launcher.Loop
import Esme.Launcher.Crashes
import Esme.Launcher.Health
import Esme.Launcher.Installation
import Esme.Example.Loop
import Esme.Example.Printing
