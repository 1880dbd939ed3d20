import Roko.AuditChain
import Roko.AutoFixBound
import Roko.Base64Bytes
import Roko.BinaryFuse
import Roko.BundleAccumulators
import Roko.ChannelCloses
import Roko.ChannelDeposits
import Roko.CircuitBreaker
import Roko.ClearingCycle
import Roko.ColdArchiveRuns
import Roko.ConsortiumVotes
import Roko.CycleDetection
import Roko.DedupCache
import Roko.DomainStakes
import Roko.EdgeConditions
import Roko.EmissionSchedule
import Roko.EngramCollisions
import Roko.EventBus
import Roko.ExecutorRestore
import Roko.FeeDistributor
import Roko.FeedbackRuns
import Roko.FileStore
import Roko.ForkConsistency
import Roko.ForkInterleavings
import Roko.ForkReadBacks
import Roko.ForkRetention
import Roko.FuturesMarket
import Roko.GarbageCollection
import Roko.GossipStates
import Roko.HistoryCompaction
import Roko.IncrementalDagRuns
import Roko.InsightBoard
import Roko.KeyedMix
import Roko.KoraiToken
import Roko.LoopGuard
import Roko.MarketExits
import Roko.MergeQueueBatch
import Roko.MergeQueueRuns
import Roko.MeshRelay
import Roko.NetworkPolicy
import Roko.PathContainment
import Roko.Pelt
import Roko.PipelineRuns
import Roko.PromptTexts
import Roko.PromptUpdates
import Roko.ProofRecords
import Roko.RateLimits
import Roko.RecoveryQueue
import Roko.ReputationDecay
import Roko.ResourceBudgets
import Roko.ResponseStreams
import Roko.ReviewVerdict
import Roko.SnapshotEnvelope
import Roko.SpeculativeRuns
import Roko.SporePayouts
import Roko.SubstrateTasks
import Roko.TaintPropagation
import Roko.TaskDagCpm
import Roko.TaskDagCullRebuild
import Roko.TaskDagDone
import Roko.TaskDagFusion
import Roko.TaskDagPartition
import Roko.TaskDagRemoval
import Roko.TaskDagWaveOrder
import Roko.TaskSchedulerRuns
import Roko.TemporalMonitor
import Roko.ToolLoopRuns
import Roko.ToolRateLimits
import Roko.ToolResultCache
import Roko.ValidationRegistry
import Roko.VcgAuction
import Roko.WatchDepths
import Roko.WorkerBonds
import Roko.WorkflowToml
