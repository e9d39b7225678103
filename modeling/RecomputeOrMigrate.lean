import RecomputeOrMigrate.Admission
import RecomputeOrMigrate.ApiServer
import RecomputeOrMigrate.ArrivalOrder
import RecomputeOrMigrate.Attainment
import RecomputeOrMigrate.Bandwidth
import RecomputeOrMigrate.BestConfig
import RecomputeOrMigrate.Breakeven
import RecomputeOrMigrate.ChunkBudget
import RecomputeOrMigrate.ContextBatches
import RecomputeOrMigrate.ContextBlocks
import RecomputeOrMigrate.Conversion
import RecomputeOrMigrate.DecodingMemory
import RecomputeOrMigrate.DecodingPipeline
import RecomputeOrMigrate.DeploymentRun
import RecomputeOrMigrate.DownloaderEnds
import RecomputeOrMigrate.DownloaderLog
import RecomputeOrMigrate.EngineCalls
import RecomputeOrMigrate.FailureMonitor
import RecomputeOrMigrate.FailureTracking
import RecomputeOrMigrate.FirstCome
import RecomputeOrMigrate.KVPositions
import RecomputeOrMigrate.KVSize
import RecomputeOrMigrate.KVStore
import RecomputeOrMigrate.Lifetimes
import RecomputeOrMigrate.OfflineLLM
import RecomputeOrMigrate.OnePlace
import RecomputeOrMigrate.Placement
import RecomputeOrMigrate.PrefillBatches
import RecomputeOrMigrate.PrefillTable
import RecomputeOrMigrate.PromptLengths
import RecomputeOrMigrate.QueueDepth
import RecomputeOrMigrate.Recovery
import RecomputeOrMigrate.ReusedIds
import RecomputeOrMigrate.RomLogger
import RecomputeOrMigrate.SearchPoolEnds
import RecomputeOrMigrate.SimLifeCycle
import RecomputeOrMigrate.SimTermination
import RecomputeOrMigrate.StreamedSwaps
import RecomputeOrMigrate.SwapBatches
import RecomputeOrMigrate.SwapKeys
import RecomputeOrMigrate.SwapOrder
import RecomputeOrMigrate.SwapTrace
import RecomputeOrMigrate.TokenLimit
