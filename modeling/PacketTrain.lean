import PacketTrain.Laws.Indexer.ScanLoop
import PacketTrain.Laws.Indexer.RoundTrip
import PacketTrain.Indexer.Publish
import PacketTrain.Lib.System
import PacketTrain.Laws.Indexer.Publish
import PacketTrain.Laws.Lifecycle.Steps
import PacketTrain.Laws.Lifecycle.Exclusion
import PacketTrain.Laws.Lifecycle.Ready
import PacketTrain.Laws.Lifecycle.Failure
import PacketTrain.Lifecycle.Serve
import PacketTrain.Laws.Lifecycle.Publication
import PacketTrain.Laws.Lifecycle.Serve
import PacketTrain.Browser.Session
import PacketTrain.Browser.Player
import PacketTrain.Laws.Browser.Session
import PacketTrain.Laws.Browser.Player
import PacketTrain.Laws.Browser.Playing
import PacketTrain.Analysis.Packet
import PacketTrain.Lib.Ranges
import PacketTrain.Analysis.Idle
import PacketTrain.Analysis.Retransmit
import PacketTrain.Analysis.Rtt
import PacketTrain.Analysis.Window
import PacketTrain.Analysis.Detail
import PacketTrain.Laws.Analysis.Retransmit
import PacketTrain.Laws.Analysis.Rtt
import PacketTrain.Laws.Analysis.Window
import PacketTrain.Laws.Analysis.Idle
import PacketTrain.Laws.Analysis.Stall
import PacketTrain.Analysis.Accounting
import PacketTrain.Laws.Analysis.UniquePayload
import PacketTrain.Laws.Analysis.Repeats
import PacketTrain.Laws.Analysis.Timeline
import PacketTrain.Indexer.Frames
import PacketTrain.Laws.Indexer.Frames
import PacketTrain.Laws.Indexer.Flows
import PacketTrain.Laws.Indexer.Generations
import PacketTrain.Laws.Indexer.Reindex
import PacketTrain.Indexer.Wire
import PacketTrain.Laws.Indexer.Wire
import PacketTrain.Analysis.Streams
import PacketTrain.Laws.Analysis.Streams
import PacketTrain.Analysis.Phases
import PacketTrain.Laws.Analysis.Shift
import PacketTrain.Laws.Analysis.InitialSequence
import PacketTrain.Laws.Analysis.StallRefs
import PacketTrain.Laws.Analysis.Tiling
import PacketTrain.Laws.Analysis.OutstandingCount
import PacketTrain.Lib.Serial
import PacketTrain.Laws.Analysis.MidStream
import PacketTrain.Laws.Analysis.RepeatBytes
import PacketTrain.Laws.Analysis.Verdicts
import PacketTrain.Laws.Analysis.Clocks
import PacketTrain.Laws.Analysis.ClosedRuns
import PacketTrain.Laws.Analysis.StalledShare
import PacketTrain.Laws.Analysis.PauseLabels
import PacketTrain.Analysis.Topology
import PacketTrain.Laws.Analysis.Topology
import PacketTrain.Analysis.Handshake
import PacketTrain.Laws.Analysis.Probes
import PacketTrain.Laws.Analysis.WindowScale
import PacketTrain.Laws.Analysis.GapLabels
import PacketTrain.Laws.Analysis.Handshake
import PacketTrain.Analysis.Http
import PacketTrain.Analysis.Follow
import PacketTrain.Laws.Analysis.Http
import PacketTrain.Laws.Analysis.Follow
import PacketTrain.Laws.Analysis.SelfPairs
import PacketTrain.Analysis.BurstRate
import PacketTrain.Laws.Analysis.BurstRate
import PacketTrain.Analysis.Behavior
import PacketTrain.Lib.Runs
import PacketTrain.Laws.Analysis.Bursts
import PacketTrain.Analysis.Fingerprint
import PacketTrain.Laws.Analysis.Options
import PacketTrain.Laws.Indexer.Parse
import PacketTrain.Laws.Indexer.Fragments
import PacketTrain.Laws.Indexer.Safety
import PacketTrain.Analysis.Graph
import PacketTrain.Laws.Analysis.Graph
import PacketTrain.Laws.Analysis.Percentile
import PacketTrain.Lib.Ledger
import PacketTrain.Laws.Indexer.Ledger
import PacketTrain.Lib.Numerals
import PacketTrain.Lib.Addresses
import PacketTrain.Decode.Rows
import PacketTrain.Laws.Decode.Rows
import PacketTrain.Laws.Decode.Slicing
import PacketTrain.Decode.Endpoints
import PacketTrain.Laws.Decode.OnePass
import PacketTrain.Laws.Analysis.Addresses
import PacketTrain.Decode.Signatures
import PacketTrain.Laws.Decode.Signatures
import PacketTrain.Laws.Decode.Families
import PacketTrain.Lib.Base64
import PacketTrain.Decode.Segment
import PacketTrain.Laws.Decode.Base64
import PacketTrain.Laws.Decode.Dump
