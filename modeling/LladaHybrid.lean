import LladaHybrid.Library.Arithmetic
import LladaHybrid.Library.Loop
import LladaHybrid.Library.GridLaunch
import LladaHybrid.Library.Allotment
import LladaHybrid.Library.Fold
import LladaHybrid.Library.Dict
import LladaHybrid.Library.Replace
import LladaHybrid.Library.RadixTree
import LladaHybrid.Library.Tensor
import LladaHybrid.Library.BlockScan
import LladaHybrid.Library.BlockSum
import LladaHybrid.Library.SortedDispatch
import LladaHybrid.Library.DescendingOrder
import LladaHybrid.Library.WeightedSum
import LladaHybrid.Decode.Prediction
import LladaHybrid.Decode.JointThreshold
import LladaHybrid.Decode.LowConfidence
import LladaHybrid.Decode.FinalTokens
import LladaHybrid.Decode.CommitConsistency
import LladaHybrid.Decode.ContinuousBatching
import LladaHybrid.Decode.Completion
import LladaHybrid.Decode.EditingOff
import LladaHybrid.Generate.Loop
import LladaHybrid.Generate.BlockDecoders
import LladaHybrid.Generate.RowIndependence
import LladaHybrid.Generate.BackendAgreement
import LladaHybrid.Generate.Batching
import LladaHybrid.Generate.EarlyStop
import LladaHybrid.Generate.Sampling
import LladaHybrid.Generate.Nucleus
import LladaHybrid.Generate.Frame
import LladaHybrid.Generate.Unmasking
import LladaHybrid.Generate.StepBudget
import LladaHybrid.Generate.RowDisturbance
import LladaHybrid.Generate.DisturbingModels
import LladaHybrid.Generate.BatchIndependence
import LladaHybrid.Attention.HybridAttention
import LladaHybrid.Attention.BlockRecurrence
import LladaHybrid.Attention.OutputBounds
import LladaHybrid.Attention.HybridKernel
import LladaHybrid.Attention.KernelBlock
import LladaHybrid.Attention.KernelLaunch
import LladaHybrid.Attention.BlockPlan
import LladaHybrid.Attention.KernelRefinement
import LladaHybrid.Attention.HeadPartition
import LladaHybrid.Attention.PlanLaunches
import LladaHybrid.Attention.ExpandedKeys
import LladaHybrid.Attention.KernelWrapper
import LladaHybrid.Attention.WrapperPaths
import LladaHybrid.Attention.QuadraticForm
import LladaHybrid.Attention.Staircase
import LladaHybrid.Attention.OrderInvariant
import LladaHybrid.Attention.MaskedKeys
import LladaHybrid.Attention.TrainingLayout
import LladaHybrid.Model.Transformer
import LladaHybrid.Model.BlockCausal
import LladaHybrid.Model.PrefixCache
import LladaHybrid.Model.CachedGeneration
import LladaHybrid.Model.MaskInference
import LladaHybrid.Model.ExpertGate
import LladaHybrid.Model.ExpertDispatch
import LladaHybrid.Loading.ParallelLinear
import LladaHybrid.Loading.LoadWeights
import LladaHybrid.Loading.LoraMerge
import LladaHybrid.Loading.LoraSharding
import LladaHybrid.Loading.RepeatedLoads
import LladaHybrid.Loading.AdapterCoverage
import LladaHybrid.Loading.BuildAdapter
import LladaHybrid.Loading.GateCache
import LladaHybrid.Loading.HeadShards
import LladaHybrid.Loading.TensorParallel
import LladaHybrid.Serving.MemoryPool
import LladaHybrid.Serving.Request
import LladaHybrid.Serving.ServedModel
import LladaHybrid.Serving.Scheduler
import LladaHybrid.Serving.ServedTransformer
import LladaHybrid.Serving.SlotInvariant
import LladaHybrid.Serving.BatchRun
import LladaHybrid.Serving.BatchSelection
import LladaHybrid.Serving.BlockProgress
import LladaHybrid.Serving.SchedulingInvariant
import LladaHybrid.Serving.RadixCache
import LladaHybrid.Serving.RequestStages
import LladaHybrid.Serving.ServingInvariant
import LladaHybrid.Serving.ContextInvariant
import LladaHybrid.Serving.CudaGraph
import LladaHybrid.Serving.GraphPadding
import LladaHybrid.Serving.BlockPlans
import LladaHybrid.Serving.BackendOutput
import LladaHybrid.Serving.PrefixReuse
import LladaHybrid.Serving.ReturnedTokens
import LladaHybrid.Serving.SoloDecoding
import LladaHybrid.Serving.ReferenceGeneration
import LladaHybrid.Serving.SlotConservation
import LladaHybrid.Serving.FinishedRequests
import LladaHybrid.Serving.EventLoop
import LladaHybrid.Serving.ParallelLayers
import LladaHybrid.Serving.ParallelNetwork
import LladaHybrid.Serving.KvViews
import LladaHybrid.Serving.KvAllocator
import LladaHybrid.Serving.KvLocations
