import NdnSvs.Lib.Runs
import NdnSvs.Lib.Maps
import NdnSvs.Lib.Ranges
import NdnSvs.Lib.Greedy
import NdnSvs.Lib.Lives
import NdnSvs.Lib.Tlv
import NdnSvs.Name
import NdnSvs.Packet
import NdnSvs.PacketFormat
import NdnSvs.VersionVector
import NdnSvs.SyncProtocol
import NdnSvs.EnvelopeRoundTrip
import NdnSvs.Core
import NdnSvs.CoreSteps
import NdnSvs.Lib.Gossip
import NdnSvs.Lib.Sha256
import NdnSvs.Network
import NdnSvs.Convergence
import NdnSvs.CoreRuns
import NdnSvs.CoreReceive
import NdnSvs.Quiescence
import NdnSvs.CoreHistory
import NdnSvs.CoreNotes
import NdnSvs.CoreJobs
import NdnSvs.WorkerPool
import NdnSvs.PooledCore
import NdnSvs.Lib.Simulation
import NdnSvs.PooledRuns
import NdnSvs.Suppression
import NdnSvs.ParallelReceive
import NdnSvs.Provenance
import NdnSvs.Announcement
import NdnSvs.ParallelProduction
import NdnSvs.ExtraData
import NdnSvs.SyncBase
import NdnSvs.Publish
import NdnSvs.SegmentAssembly
import NdnSvs.Segmentation
import NdnSvs.SegmentFitting
import NdnSvs.PublishSteps
import NdnSvs.PublishLine
import NdnSvs.PublishOrder
import NdnSvs.PublishMonotone
import NdnSvs.Advertised
import NdnSvs.CoreVectors
import NdnSvs.PublishUpdates
import NdnSvs.PubSubGroup
import NdnSvs.GroupNetwork
import NdnSvs.AsyncCommits
import NdnSvs.Sections
import NdnSvs.UniqueNumbers
import NdnSvs.SharedMonotone
import NdnSvs.FailedCalls
import NdnSvs.BatchInsertion
import NdnSvs.NextNumbers
import NdnSvs.BootstrapTimes
import NdnSvs.Lib.Programs
import NdnSvs.Lib.Loops
import NdnSvs.Lib.Fifo
import NdnSvs.Fetcher
import NdnSvs.FetcherRuns
import NdnSvs.Extensions
import NdnSvs.Subscribe
import NdnSvs.Retransmission
import NdnSvs.Shutdown
import NdnSvs.ExtraBlocks
import NdnSvs.ByteBudget
import NdnSvs.MappingQueries
import NdnSvs.SubscribeEvents
import NdnSvs.SubscribeFrames
import NdnSvs.SubscribeRuns
import NdnSvs.SubscribeCalls
import NdnSvs.Collections
import NdnSvs.Unsubscribing
import NdnSvs.RepairRequests
import NdnSvs.Coverage
import NdnSvs.MergeExact
import NdnSvs.VectorCodec
import NdnSvs.EnvelopeGrammar
import NdnSvs.MappingCodec
import NdnSvs.MappingReplies
import NdnSvs.EpochNames
import NdnSvs.RangeQueries
import NdnSvs.RangeWalks
import NdnSvs.FetchScheduler
import NdnSvs.FetchSlots
import NdnSvs.FetchBudgets
import NdnSvs.WorkConserving
import NdnSvs.Timers
import NdnSvs.Deliveries
import NdnSvs.ValidatedDelivery
import NdnSvs.UnsegmentedDelivery
import NdnSvs.SelectiveDelivery
import NdnSvs.Arrivals
import NdnSvs.MappingTruth
import NdnSvs.MappingGroup
import NdnSvs.PublishedPackets
import NdnSvs.FaithfulDelivery
import NdnSvs.GapQueries
import NdnSvs.QueryMarks
import NdnSvs.Lib.KeyQueue
import NdnSvs.LatestNumbers
import NdnSvs.PiggyCaches
import NdnSvs.Lib.Rounds
import NdnSvs.PiggyQueues
import NdnSvs.DefaultStore
import NdnSvs.PiggyRuns
import NdnSvs.DataPlane
