import Ufw.Base.Exec
import Ufw.Base.Octets
import Ufw.Base.Memory
import Ufw.Base.Mealy
import Ufw.Host
import Ufw.BinaryFormat
import Ufw.Crc16Arc
import Ufw.Base.Crc
import Ufw.Crc16Arc.Polynomial
import Ufw.Endpoints
import Ufw.Endpoints.Drivers
import Ufw.Endpoints.Transfers
import Ufw.Rfc1055
import Ufw.Rfc1055.Automaton
import Ufw.Rfc1055.Streams
import Ufw.Rfc1055.Shape
import Ufw.Rfc1055.Answers
import Ufw.Rfc1055.Interruptions
import Ufw.Rfc1055.SinkErrors
import Ufw.ByteBuffer
import Ufw.ByteBuffer.Operations
import Ufw.ContinuableSink
import Ufw.ContinuableSink.Writes
import Ufw.VariableLengthInteger
import Ufw.LengthPrefix
import Ufw.Base.Reads
import Ufw.RegisterProtocol.Types
import Ufw.RegisterProtocol.Header
import Ufw.RegisterProtocol.Parse
import Ufw.RegisterProtocol.Send
import Ufw.RegisterProtocol.Recv
import Ufw.RegisterProtocol.Responses
import Ufw.RegisterProtocol.Process
import Ufw.RegisterProtocol.EndToEnd
import Ufw.Decoders
import Ufw.RegisterProtocol.Reception
import Ufw.RegisterProtocol.Ownership
import Ufw.RegisterProtocol.Framing
import Ufw.RegisterProtocol.Shortage
import Ufw.RegisterProtocol.Protection
import Ufw.RegisterProtocol.Requests
import Ufw.Base.Flips
import Ufw.RegisterProtocol.BitErrors
import Ufw.RegisterProtocol.Answers
import Ufw.RegisterProtocol.WholeFrames
import Ufw.Base.MemoryMap
import Ufw.BitOperations
import Ufw.Registers.Types
import Ufw.Registers.Values
import Ufw.Registers.Table
import Ufw.Registers.Block
import Ufw.Registers.Init
import Ufw.Registers.Layout
import Ufw.Registers.Holes
import Ufw.Registers.BlockWrite
import Ufw.Registers.Entries
import Ufw.Registers.TypedRaw
import Ufw.Registers.Invariant
import Ufw.Registers.CopyBounds
import Ufw.Registers.NonInterference
import Ufw.Registers.BlockRead
import Ufw.Registers.Placement
import Ufw.Registers.Rejections
import Ufw.Registers.Sanitise
import Ufw.Registers.Methods
import Ufw.VariableLengthInteger.RoundTrip
import Ufw.VariableLengthInteger.Decoding
import Ufw.Endpoints.Failures
import Ufw.Endpoints.Limits
import Ufw.Endpoints.Logs
import Ufw.Plumbing
import Ufw.Plumbing.OctetWise
import Ufw.Plumbing.FullSink
import Ufw.Plumbing.Auxiliary
import Ufw.ByteBuffer.Chunks
import Ufw.LengthPrefix.Frames
import Ufw.LengthPrefix.RoundTrip
import Ufw.LengthPrefix.Chunks
import Ufw.LengthPrefix.Receivers
import Ufw.LengthPrefix.Encoding
import Ufw.LengthPrefix.Failures
import Ufw.LengthPrefix.Buffers
import Ufw.PersistentStorage
import Ufw.PersistentStorage.Runs
import Ufw.PersistentStorage.Ranges
import Ufw.PersistentStorage.Termination
import Ufw.VersionedPersistence
import Ufw.VersionedPersistence.Media
import Ufw.VersionedPersistence.Saved
import Ufw.VersionedPersistence.Ranges
import Ufw.VersionedPersistence.Faults
import Ufw.VersionedPersistence.Loading
import Ufw.VersionedPersistence.Invalidation
import Ufw.Base.Calls
import Ufw.ByteBuffer.Queue
import Ufw.RingBuffer
import Ufw.RingBuffer.Iter
import Ufw.Base.IntTypes
import Ufw.ConvolutionLowPass
import Ufw.Characters
import Ufw.Sx
import Ufw.Sx.Grammar
import Ufw.Sx.Scanner
import Ufw.Sx.Parser
import Ufw.Sx.Integers
import Ufw.Sx.Bounds
import Ufw.Sx.RoundTrip
import Ufw.Registers.Handles
import Ufw.Registers.Spans
import Ufw.Registers.Foreach
import Ufw.Registers.Sanitised
import Ufw.Registers.HexString
import Ufw.RegisterProtocol.PayloadSize
import Ufw.RegisterProtocol.Intersections
import Ufw.Base.Pipeline
import Ufw.RegisterProtocol.Service
import Ufw.RegisterProtocol.Session
import Ufw.Base.CrcErrors
import Ufw.Crc16Arc.Distance
import Ufw.Base.Separation
import Ufw.Sx.Memory
import Ufw.Sx.Ownership
import Ufw.Sx.Caller
import Ufw.Sx.ParserMemory
import Ufw.Sx.Lists
import Ufw.Base.FlatMemory
import Ufw.Registers.Store
import Ufw.RegisterProtocol.Registers
import Ufw.BinaryFormat.Widths
