import Deeplog.Mpsc.Fifo
import Deeplog.Mpsc.Hands
import Deeplog.Mpsc.Recovery
import Deeplog.Source.SpanId
import Deeplog.Sink.FileSink
import Deeplog.Sink.Messages
import Deeplog.Codec.Primitives
import Deeplog.Codec.Loggable
import Deeplog.Codec.Vlog
import Deeplog.Codec.Decoder
import Deeplog.Database.Interleaving
import Deeplog.Database.Contents
import Deeplog.Lib.Versioned
import Deeplog.Database.Storage
import Deeplog.Database.Operations
import Deeplog.Database.Handles
import Deeplog.Database.PlainCodec
import Deeplog.Database.Updates
import Deeplog.Database.Crash
import Deeplog.Mpsc.Create
import Deeplog.Mpsc.Range
import Deeplog.Codec.Reserve
import Deeplog.Detail.FileStream
import Deeplog.Detail.Slots
import Deeplog.Source.SpanScope
import Deeplog.Source.Attribution
import Deeplog.Lib.Partition
import Deeplog.Sink.Fabric
import Deeplog.Database.Keys
import Deeplog.Codec.Container
import Deeplog.Sink.Container
import Deeplog.Cli.LogDisplay
import Deeplog.Cli.LogDisplayGrid
import Deeplog.Database.Prune
import Deeplog.Mpsc.Damage
import Deeplog.Mpsc.Allocate
import Deeplog.Database.Limits
import Deeplog.Database.Rotations
import Deeplog.Database.OwnChanges
import Deeplog.Sink.OutputBuffer
import Deeplog.Database.Entries
import Deeplog.Sink.DbFileSink
import Deeplog.Sink.Transfer
import Deeplog.Sink.FinalSize
import Deeplog.Sink.Preparse
import Deeplog.Sink.Harmless
import Deeplog.Database.InterleavingHandles
import Deeplog.Source.LogClock
import Deeplog.Source.ClockSync
import Deeplog.Bus.BufferBus
import Deeplog.Codec.Attributes
import Deeplog.Database.Creation
import Deeplog.Lib.Keyed
import Deeplog.Sink.Lifecycle
import Deeplog.Codec.SpanMessages
import Deeplog.Codec.Sent
import Deeplog.Pipeline
import Deeplog.Mpsc.CrashRecovery
import Deeplog.Sink.Healthy
import Deeplog.Threads.Steps
import Deeplog.Threads.Alone
import Deeplog.Threads.Arrival
import Deeplog.Threads.Salvage
import Deeplog.Threads.Logging
import Deeplog.Threads.Files
