import OrderFlow.GreedySegments
import OrderFlow.OfeBars
import OrderFlow.OfeBarSummary
import OrderFlow.OfeBarSegments
import OrderFlow.OfeBarCvd
import OrderFlow.RingWindow
import OrderFlow.OfeRingBuffer
import OrderFlow.OfeRingBufferFifo
import OrderFlow.OfeRingBufferSize
import OrderFlow.AtomicObjects
import OrderFlow.OfeRingBufferAtomic
import OrderFlow.OfeTickRouter
import OrderFlow.OfeTickRouterOrder
import OrderFlow.OfeWorkerLifecycle
import OrderFlow.OfeWorkerOverlap
import OrderFlow.OfeSignalTypes
import OrderFlow.OfeSymbolWorker
import OrderFlow.OfeWorkerLoops
import OrderFlow.OfeSymbolWorkerOnce
import OrderFlow.OfeLeeReady
import OrderFlow.OfeDeltaEngine
import OrderFlow.OfeSignalDetector
import OrderFlow.OfeSignalMirror
import OrderFlow.OfeImbalanceDetector
import OrderFlow.OfeAggressor
import OrderFlow.SessionRingBuffer
import OrderFlow.SessionRingBufferSpsc
import OrderFlow.SessionRingBufferAtomic
import OrderFlow.SessionRingBufferCalls
import OrderFlow.SessionTypes
import OrderFlow.SessionLeeReady
import OrderFlow.SessionLeeReadyRuns
import OrderFlow.LatestVerdicts
import OrderFlow.SessionLeeReadyLeaders
import OrderFlow.LeeReadyAgreement
import OrderFlow.SessionTickRouter
import OrderFlow.SessionSymbolRegistry
import OrderFlow.SessionRouterAccounting
import OrderFlow.SessionSymbolRoutes
import OrderFlow.Locks
import OrderFlow.SessionRouterLocks
import OrderFlow.SessionRouterBarrier
import OrderFlow.SessionRouterCalls
import OrderFlow.SessionRouterSteps
import OrderFlow.SessionRouterAtomic
import OrderFlow.SessionRouterWiring
import OrderFlow.TickGrid
import OrderFlow.KeyedRecords
import OrderFlow.SessionBars
import OrderFlow.SessionBarLevels
import OrderFlow.SessionBarSegments
import OrderFlow.SessionBarTime
import OrderFlow.SessionBarVolume
import OrderFlow.SessionBarRange
import OrderFlow.SessionImbalance
import OrderFlow.MaximalRuns
import OrderFlow.Upserts
import OrderFlow.SessionImbalanceLoops
import OrderFlow.GuardedRuns
import OrderFlow.SessionStackedBounds
import OrderFlow.SessionZoneRegistry
import OrderFlow.SessionZones
import OrderFlow.SessionStackedRuns
import OrderFlow.SessionZonePipeline
import OrderFlow.SessionRoutingKeys
import OrderFlow.SessionDiagonals
import OrderFlow.SessionTrappedTraders
import OrderFlow.SessionZoneHistory
import OrderFlow.SessionZoneLifetimes
import OrderFlow.SessionZoneMerges
import OrderFlow.SessionZoneStrength
import OrderFlow.SessionMirror
import OrderFlow.SessionMirrorZones
import OrderFlow.SessionDeltaEngine
import OrderFlow.SessionDeltaLedger
import OrderFlow.SessionVolumeTotals
import OrderFlow.LowerBounds
import OrderFlow.SessionBarLookup
import OrderFlow.Substrings
import OrderFlow.SessionLogger
import OrderFlow.SessionLogQueue
import OrderFlow.SessionLogDrain
import OrderFlow.Retention
import OrderFlow.SessionLogFiles
import OrderFlow.SessionLogRetention
import OrderFlow.SessionDeltaBars
import OrderFlow.SessionSurgeBaseline
import OrderFlow.SessionDeltaSignals
import OrderFlow.SessionDeltaDetectors
import OrderFlow.ResetRuns
import OrderFlow.WhileLoops
import OrderFlow.SortedTallies
import OrderFlow.OfeVolumeProfile
import OrderFlow.OfeValueArea
import OrderFlow.OfeVolumeProfileMirror
import OrderFlow.WeightedMeans
import OrderFlow.OfeVwapEngine
import OrderFlow.OfeDeltaExtremes
import OrderFlow.OfeBarRuns
import OrderFlow.OfeCandles
import OrderFlow.SessionBarEngine
import OrderFlow.SessionBarProduct
import OrderFlow.SessionBarFlow
import OrderFlow.SessionClassifiedBars
import OrderFlow.Numerals
import OrderFlow.SessionBarIds
import OrderFlow.SessionBarIdUnique
import OrderFlow.StepBudgets
import OrderFlow.OfeWorkerRounds
import OrderFlow.OfeWorkerProgress
import OrderFlow.OfeBarPolling
import OrderFlow.OfeBarAnalytics
import OrderFlow.OfeShardedBars
import OrderFlow.OfeSignalEvents
import OrderFlow.BarAgreement
import OrderFlow.OfeRouterAtomic
import OrderFlow.OfeRouterProgress
