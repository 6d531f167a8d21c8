import PredicateTransfer.Lib.SemiJoin
import PredicateTransfer.Arrow
import PredicateTransfer.Plan
import PredicateTransfer.KeyLookup
import PredicateTransfer.Insert
import PredicateTransfer.InsertProof
import PredicateTransfer.Pairing
import PredicateTransfer.Bloom
import PredicateTransfer.Run
import PredicateTransfer.Transparent
import PredicateTransfer.Lib.Channels
import PredicateTransfer.Lib.Runs
import PredicateTransfer.Partitioned
import PredicateTransfer.CollectLeft
import PredicateTransfer.KnapsackSelect
import PredicateTransfer.BfModel
import PredicateTransfer.Candidates
import PredicateTransfer.MlRewrite
import PredicateTransfer.Rule
import PredicateTransfer.Inference
import PredicateTransfer.Lib.ChainedTable
import PredicateTransfer.Lib.Chunks
import PredicateTransfer.JoinHashMap
import PredicateTransfer.ArrayMap
import PredicateTransfer.RelationalJoin
import PredicateTransfer.HashJoinIndices
import PredicateTransfer.JoinLeftData
import PredicateTransfer.HashJoinStream
import PredicateTransfer.StreamProof
import PredicateTransfer.HashJoinRun
import PredicateTransfer.HashJoinFetch
import PredicateTransfer.HashJoinExecute
import PredicateTransfer.Lib.ThreeValued
import PredicateTransfer.NullAwareJoin
import PredicateTransfer.BuildAccumulator
import PredicateTransfer.DynamicFilterNulls
import PredicateTransfer.DynamicFilterWaiters
import PredicateTransfer.SwapInputs
import PredicateTransfer.Lib.FilterJoin
import PredicateTransfer.FilterRemap
import PredicateTransfer.FilterPushdown
import PredicateTransfer.SafePushdown
import PredicateTransfer.KnapsackOptimal
import PredicateTransfer.ModelSafety
import PredicateTransfer.ProbFloor
import PredicateTransfer.StreamAccounting
import PredicateTransfer.TreeExport
import PredicateTransfer.Lib.Utf8
import PredicateTransfer.Pruning.Expr
import PredicateTransfer.Pruning.LiteralGuarantee
import PredicateTransfer.Pruning.Prune
import PredicateTransfer.Pruning.StatisticsSound
import PredicateTransfer.Pruning.Chains
import PredicateTransfer.Pruning.LikePatterns
import PredicateTransfer.Pruning.LikeSound
import PredicateTransfer.Lib.Scatter
import PredicateTransfer.PushDownFilters
import PredicateTransfer.PushDownAnswers
import PredicateTransfer.PushDownResult
import PredicateTransfer.AggregatePushdown
import PredicateTransfer.Lib.Csv
import PredicateTransfer.MetricsCsv
import PredicateTransfer.Lib.CountingGate
import PredicateTransfer.Repartition.DistributorChannels
import PredicateTransfer.Lib.Queue
import PredicateTransfer.Lib.SegmentedLog
import PredicateTransfer.Lib.CoPartition
import PredicateTransfer.Repartition.ChannelSteps
import PredicateTransfer.Repartition.GateLaw
import PredicateTransfer.Repartition.BatchPartitioner
import PredicateTransfer.Repartition.RepartitionExec
import PredicateTransfer.Repartition.RepartitionLanes
import PredicateTransfer.Repartition.RepartitionSteps
import PredicateTransfer.Repartition.RepartitionInv
import PredicateTransfer.Repartition.RepartitionMemory
import PredicateTransfer.Repartition.RepartitionOrder
import PredicateTransfer.Repartition.RepartitionRuns
import PredicateTransfer.Repartition.RepartitionProgress
import PredicateTransfer.Streams.Coalesce
import PredicateTransfer.Repartition.PartitionedJoin
import PredicateTransfer.Spill.SpillPool
import PredicateTransfer.Spill.SpillPoolSteps
import PredicateTransfer.Spill.SpillPoolRuns
