import FilePipeline.Backend
import FilePipeline.Backend.FileTree
import FilePipeline.Backend.Scripted
import FilePipeline.Backend.Transfer
import FilePipeline.Codec
import FilePipeline.Codec.Lz4
import FilePipeline.Codec.Scripted
import FilePipeline.Config
import FilePipeline.Crash
import FilePipeline.Dispatcher
import FilePipeline.Dispatcher.Client
import FilePipeline.Dispatcher.Run
import FilePipeline.Dispatcher.Start
import FilePipeline.Dispatcher.Step
import FilePipeline.Error
import FilePipeline.Error.Inspect
import FilePipeline.Event
import FilePipeline.Frame
import FilePipeline.Heap
import FilePipeline.Heap.Bench
import FilePipeline.Heap.Books
import FilePipeline.Heap.Buffer
import FilePipeline.Heap.Directory
import FilePipeline.Heap.Layout
import FilePipeline.Heap.Source
import FilePipeline.Lz4.Bound
import FilePipeline.Lz4.Decoder
import FilePipeline.Lz4.Match
import FilePipeline.Lz4.Sequence
import FilePipeline.Memory.LittleEndian
import FilePipeline.Memory.Span
import FilePipeline.Named
import FilePipeline.Notice
import FilePipeline.Path
import FilePipeline.Queue
import FilePipeline.Queue.Clients
import FilePipeline.Session
import FilePipeline.Size
import FilePipeline.Stage
import FilePipeline.Stage.Compression
import FilePipeline.Stage.Io
import FilePipeline.Stats
import FilePipeline.Text.Inspect
import FilePipeline.Text.Printable
import FilePipeline.Text.Quoted
import FilePipeline.Ticket
import FilePipeline.Work
import FilePipeline.Worker
import FilePipeline.Proofs.Dispatcher.Runs
import FilePipeline.Proofs.Dispatcher.Steps
import FilePipeline.Proofs.Dispatcher.Tickets
import FilePipeline.Proofs.Queue.Steps
import FilePipeline.Proofs.Dispatcher.Holdings
import FilePipeline.Proofs.Dispatcher.Balance
import FilePipeline.Proofs.Dispatcher.Completion
import FilePipeline.Proofs.Lz4.Lengths
import FilePipeline.Proofs.Lz4.Written
import FilePipeline.Proofs.Lz4.Parsed
import FilePipeline.Proofs.Frame.RoundTrip
import FilePipeline.Proofs.Dispatcher.Placement
import FilePipeline.Proofs.Dispatcher.Occupancy
import FilePipeline.Proofs.Stage.Buffers
import FilePipeline.Proofs.Dispatcher.Handover
import FilePipeline.Proofs.Dispatcher.Turns
import FilePipeline.Proofs.Dispatcher.Outline
import FilePipeline.Proofs.Dispatcher.Halting
import FilePipeline.Proofs.Dispatcher.Measure
import FilePipeline.Proofs.Dispatcher.Rest
import FilePipeline.Proofs.Dispatcher.Shutdown
import FilePipeline.Proofs.Backend.Loops
import FilePipeline.Proofs.Backend.Honest
import FilePipeline.Proofs.Codec.Pure
import FilePipeline.Proofs.Heap.Buffers
import FilePipeline.Proofs.Stage.Frames
import FilePipeline.Proofs.Stage.Transfers
import FilePipeline.Proofs.Dispatcher.Accounts
import FilePipeline.Proofs.Backend.Slow
import FilePipeline.Proofs.Dispatcher.Refinement
import FilePipeline.Proofs.Dispatcher.Alone
import FilePipeline.Proofs.Dispatcher.RoundTrip
import FilePipeline.Proofs.Memory.Overlay
import FilePipeline.Proofs.Memory.Prefix
import FilePipeline.Proofs.Lz4.Decoded
import FilePipeline.Proofs.Lz4.Torn
import FilePipeline.Proofs.Lz4.Overflow
import FilePipeline.Proofs.Frame.Accepted
import FilePipeline.Proofs.Backend.Faulty
import FilePipeline.Proofs.Backend.Tame
import FilePipeline.Proofs.Codec.Tame
import FilePipeline.Proofs.Heap.Serving
import FilePipeline.Proofs.Heap.Records
import FilePipeline.Proofs.Heap.Ledger
import FilePipeline.Proofs.Stage.Errors
import FilePipeline.Proofs.Stage.Custody
import FilePipeline.Proofs.Stage.Crashes
import FilePipeline.Proofs.Dispatcher.Custody
import FilePipeline.Proofs.Dispatcher.Accounted
import FilePipeline.Proofs.Dispatcher.Unframing
import FilePipeline.Proofs.Dispatcher.TornWrites
import FilePipeline.Proofs.Dispatcher.Robust
import FilePipeline.Proofs.Dispatcher.Counters
import FilePipeline.Proofs.Dispatcher.Log
import FilePipeline.Proofs.Dispatcher.Lines
import FilePipeline.Proofs.Dispatcher.Order
import FilePipeline.Proofs.Dispatcher.LatestWrite
import FilePipeline.Proofs.Backend.Chunks
import FilePipeline.Proofs.Stage.Effects
import FilePipeline.Proofs.Dispatcher.WriteEffect
import FilePipeline.Proofs.Heap.Shapes
import FilePipeline.Proofs.Backend.PerPath
import FilePipeline.Proofs.Stage.Likeness
import FilePipeline.Proofs.Dispatcher.Disjoint
import FilePipeline.Proofs.Dispatcher.Schedules
import FilePipeline.Proofs.Backend.Exchanged
import FilePipeline.Proofs.Backend.Observed
import FilePipeline.Proofs.Dispatcher.LastTurns
import FilePipeline.Proofs.Stage.Brackets
import FilePipeline.Proofs.Dispatcher.Bracketed
import FilePipeline.Proofs.Dispatcher.Sizes
import FilePipeline.Proofs.Dispatcher.StatusCodes
import FilePipeline.Proofs.Backend.Misjudging
import FilePipeline.Proofs.Stage.Terminators
import FilePipeline.Proofs.Dispatcher.Terminators
import FilePipeline.Proofs.Queue.Histories
import FilePipeline.Proofs.Queue.Slots
import FilePipeline.Proofs.Event.Calls
import FilePipeline.Proofs.Event.WakeUps
import FilePipeline.Proofs.Heap.Errands
import FilePipeline.Proofs.Stage.Requests
import FilePipeline.Proofs.Dispatcher.Requests
import FilePipeline.Proofs.Backend.Delays
import FilePipeline.Proofs.Backend.Scripts
import FilePipeline.Proofs.Dispatcher.Paths
import FilePipeline.Proofs.Stage.Paths
import FilePipeline.Proofs.Frame.Confined
import FilePipeline.Proofs.Stage.Headers
import FilePipeline.Proofs.Dispatcher.Headers
import FilePipeline.Proofs.Heap.Traffic
import FilePipeline.Proofs.Heap.Booked
import FilePipeline.Proofs.Heap.Balance
import FilePipeline.Proofs.Stats.Snapshots
import FilePipeline.Proofs.Dispatcher.Starting
import FilePipeline.Proofs.Ticket.Accessors
import FilePipeline.Proofs.Dispatcher.Deeds
import FilePipeline.Proofs.Dispatcher.Answers
import FilePipeline.Proofs.Heap.Garbage
import FilePipeline.Proofs.Backend.Lockstep
import FilePipeline.Proofs.Codec.Spans
import FilePipeline.Proofs.Stage.Garbage
import FilePipeline.Proofs.Dispatcher.Garbage
import FilePipeline.Proofs.Dispatcher.StaleBytes
import FilePipeline.Proofs.Heap.Layouts
import FilePipeline.Proofs.Heap.Pieces
import FilePipeline.Proofs.Heap.Benches
