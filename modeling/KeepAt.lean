import KeepAt.AdmissionIntegrity
import KeepAt.ArgvScan
import KeepAt.AtGrants
import KeepAt.AtPacing
import KeepAt.AtRequestCap
import KeepAt.AtTraffic
import KeepAt.AtomicFile
import KeepAt.AtomicWrite
import KeepAt.Bandwidth
import KeepAt.Binary64
import KeepAt.ByteSize
import KeepAt.ByteTotals
import KeepAt.CeilingLife
import KeepAt.Census
import KeepAt.ChunkedRead
import KeepAt.Cli
import KeepAt.CollapseGuard
import KeepAt.CompleteLines
import KeepAt.Config
import KeepAt.ConfigFields
import KeepAt.ConfigFile
import KeepAt.ConfigReload
import KeepAt.ConfigReread
import KeepAt.ConfiguredPlacement
import KeepAt.CrashDisk
import KeepAt.Daemon
import KeepAt.DaemonControl
import KeepAt.Detector
import KeepAt.DetectorHistory
import KeepAt.DiskCeiling
import KeepAt.Displace
import KeepAt.DisplaceSpec
import KeepAt.DurableNotes
import KeepAt.DurableWrite
import KeepAt.Engine
import KeepAt.EntryHistory
import KeepAt.EvaluationAccounting
import KeepAt.EvaluationPool
import KeepAt.EvaluationProgress
import KeepAt.EventRecord
import KeepAt.EvictionOrder
import KeepAt.ExecSwap
import KeepAt.FilePool
import KeepAt.FloorProvenance
import KeepAt.FloorRun
import KeepAt.FreeCapacity
import KeepAt.HeldCount
import KeepAt.HighWater
import KeepAt.HistoryFile
import KeepAt.HistoryFollow
import KeepAt.HistoryRender
import KeepAt.HistoryRotation
import KeepAt.HistorySafety
import KeepAt.HistoryTail
import KeepAt.HistoryView
import KeepAt.Humanize
import KeepAt.InfoHash
import KeepAt.Json
import KeepAt.KeyPrecedence
import KeepAt.KeySurvival
import KeepAt.KeyedList
import KeepAt.Ledger
import KeepAt.LiftExclusion
import KeepAt.LineFile
import KeepAt.LiveAnswers
import KeepAt.LiveFreshness
import KeepAt.LiveServer
import KeepAt.LiveView
import KeepAt.LiveWatch
import KeepAt.LocationChoice
import KeepAt.LogCap
import KeepAt.LogFollow
import KeepAt.LogTail
import KeepAt.MachineInt
import KeepAt.Maintenance
import KeepAt.NearestRank
import KeepAt.NetStats
import KeepAt.Occurrence
import KeepAt.OneRoll
import KeepAt.OpenFiles
import KeepAt.PacedGate
import KeepAt.PathText
import KeepAt.Placement
import KeepAt.PlacementCases
import KeepAt.PlacementOutcome
import KeepAt.PlacementRun
import KeepAt.PoolLru
import KeepAt.PoolRecency
import KeepAt.PoolSound
import KeepAt.PoolTransparency
import KeepAt.PooledDirect
import KeepAt.PooledRun
import KeepAt.PooledStorage
import KeepAt.ProbeFrame
import KeepAt.ProbeSpacing
import KeepAt.Process
import KeepAt.ProcessScan
import KeepAt.ProgressMark
import KeepAt.QuarantineGate
import KeepAt.QuarantineWatch
import KeepAt.Ram
import KeepAt.RamBudget
import KeepAt.RamCeiling
import KeepAt.RamSteps
import KeepAt.RankOrder
import KeepAt.RateLimitExact
import KeepAt.RateLimitText
import KeepAt.Recency
import KeepAt.Reference
import KeepAt.RegistryMoves
import KeepAt.ReleaseTags
import KeepAt.RequestLine
import KeepAt.ResolvedConfig
import KeepAt.RunLoop
import KeepAt.Runs
import KeepAt.Scan
import KeepAt.ScanCalls
import KeepAt.ScanOnce
import KeepAt.ScanRestarts
import KeepAt.Scrape
import KeepAt.ScrapeAttempts
import KeepAt.ScrapeErrorText
import KeepAt.ScrapePolicy
import KeepAt.ScrapeUrl
import KeepAt.SelectionGate
import KeepAt.Selector
import KeepAt.SelfUpdate
import KeepAt.SessionTracking
import KeepAt.SizeReread
import KeepAt.SizeRoundTrip
import KeepAt.SizeScore
import KeepAt.SizeText
import KeepAt.SocketBind
import KeepAt.StableSort
import KeepAt.StallEviction
import KeepAt.State
import KeepAt.StateFile
import KeepAt.StateJson
import KeepAt.StateOps
import KeepAt.StopTargets
import KeepAt.StorageFlags
import KeepAt.SwapOutcome
import KeepAt.SwapProgress
import KeepAt.SwarmStore
import KeepAt.TextSpan
import KeepAt.TorrentFile
import KeepAt.Traces
import KeepAt.TrackerKeys
import KeepAt.TrackerUrl
import KeepAt.TripAccounting
import KeepAt.TtlCell
import KeepAt.Updater
import KeepAt.UrlText
import KeepAt.Utf8
import KeepAt.Utf8Lossy
import KeepAt.VanishedGrace
import KeepAt.Watchdog
import KeepAt.WeightSlots
import KeepAt.WindowCompleteness
import KeepAt.WorkerPool
