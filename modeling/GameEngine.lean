import GameEngine.Library.TransitionSystem
import GameEngine.Library.CallTable
import GameEngine.Library.IndexChain
import GameEngine.Library.DependencyCount
import GameEngine.Library.MachineWord
import GameEngine.Library.CircularBuffer
import GameEngine.Library.TicketRing
import GameEngine.Multimedia.ZeroCopyRing
import GameEngine.Multimedia.RingRefinement
import GameEngine.Multimedia.RingConcurrency
import GameEngine.Library.RecordStream
import GameEngine.Multimedia.VideoDecoder
import GameEngine.Multimedia.PacketFraming
import GameEngine.Core.ChaseLevDeque
import GameEngine.Core.WorkerDeques
import GameEngine.Core.MpmcQueue
import GameEngine.Core.MpmcDelivery
import GameEngine.Core.PoolAllocator
import GameEngine.Core.TaskGraph
import GameEngine.Core.TaskExecution
import GameEngine.Core.TaskCorrectness
import GameEngine.Library.TopologicalOrder
import GameEngine.Core.ModuleRegistry
import GameEngine.Core.ModuleOrder
import GameEngine.Core.ModuleStartup
import GameEngine.Core.ModuleShutdown
import GameEngine.Core.ModuleLifecycle
import GameEngine.Library.RangeStack
import GameEngine.Library.Placement
import GameEngine.Telemetry.NetworkTelemetry
import GameEngine.Core.LinearArena
import GameEngine.Core.ModuleDependencies
import GameEngine.Core.LiveGraph
import GameEngine.Core.NodeModes
import GameEngine.Core.GraphInvariant
import GameEngine.Core.GraphEvents
import GameEngine.Core.GraphCreation
import GameEngine.Core.GraphSubmission
import GameEngine.Core.GraphReset
import GameEngine.Core.GraphExecution
import GameEngine.Core.TaskAccounting
import GameEngine.Core.ConcurrentSubmit
import GameEngine.Core.LateDependency
import GameEngine.Core.TaskPresence
import GameEngine.Ai.OnnxSession
import GameEngine.Ai.InferenceExecute
import GameEngine.Ai.DeviceBlocks
import GameEngine.Ai.ModelSwap
import GameEngine.Ai.InferenceEngine
import GameEngine.Ai.RequestService
import GameEngine.Ai.RequestConservation
import GameEngine.Ai.RequestResources
import GameEngine.Ai.EngineProgress
import GameEngine.Ai.EngineTeardown
import GameEngine.Core.ModuleIdempotence
import GameEngine.Core.ModuleErrors
import GameEngine.Core.ModuleOwnership
import GameEngine.Multimedia.DecoderCalls
import GameEngine.Multimedia.DecoderReopening
import GameEngine.Multimedia.DecoderFrames
import GameEngine.Multimedia.FrameLifetime
import GameEngine.Multimedia.AudioPipeline
import GameEngine.Core.PoolCalls
import GameEngine.Core.PoolConstruction
import GameEngine.Core.AllocatorAlignment
import GameEngine.Core.StackDiscipline
import GameEngine.Ai.TensorOwnership
import GameEngine.Ai.TensorBounds
import GameEngine.Library.CountedLoop
import GameEngine.Library.LaneBuffer
import GameEngine.Ai.SimdKernels
import GameEngine.Ai.ReluLanes
import GameEngine.Ai.GemvRows
import GameEngine.Ai.MatrixProduct
import GameEngine.Ai.FailedLoad
import GameEngine.Library.DecimalText
import GameEngine.Core.PropertyParsing
import GameEngine.Core.PropertyRegistry
import GameEngine.Core.PropertyGrammar
import GameEngine.Core.PropertyRoundTrip
import GameEngine.Library.RadixRounding
import GameEngine.Library.DecimalPrinting
import GameEngine.Library.FloatingNumbers
import GameEngine.Library.PeakHistory
import GameEngine.Core.ArenaHighWater
import GameEngine.Core.ModuleWorklist
import GameEngine.Library.JsonString
import GameEngine.Library.KeyedLines
import GameEngine.Core.Profiler
import GameEngine.Core.TraceStrings
import GameEngine.Library.FairRun
import GameEngine.Core.Scheduler
import GameEngine.Core.SchedulerRefinement
import GameEngine.Core.SchedulerProgress
import GameEngine.Core.SchedulerSession
import GameEngine.Core.SchedulerTeardown
import GameEngine.Core.LaneAffinity
import GameEngine.Library.CallHistory
import GameEngine.Core.QueueCalls
import GameEngine.Library.JsonDocument
import GameEngine.Core.TraceDocument
import GameEngine.Core.TraceExporter
import GameEngine.Core.SharedProfiler
import GameEngine.Core.SharedTrace
import GameEngine.Library.IntegerText
import GameEngine.Bench.AssetPack
import GameEngine.Bench.BenchOptions
import GameEngine.Bench.BenchmarkRunner
import GameEngine.Library.RowMajor
import GameEngine.Bench.VideoPlayback
import GameEngine.Telemetry.TelemetrySockets
import GameEngine.Multimedia.AudioConcurrency
