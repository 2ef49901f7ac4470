import KeepAt.ByteSize
import KeepAt.State

namespace KeepAt

def secs (n : Nat) : Duration := n * 10 ^ 9

def asSecs (d : Duration) : Nat := d / 10 ^ 9

def defaultPort : Nat := 37550
def defaultAggressiveness : F64 := .ofRat (6 / 10)
def defaultMinSeedMargin : Int := 4
def defaultCatalogCollapsePercent : Nat := 30
def defaultScanInterval : Duration := secs (14 * 24 * 3600)
def defaultModerationDelay : Duration := secs (7 * 24 * 3600)
def defaultRateLimitPerSec : F64 := .ofRat (5 / 10)
def defaultStatsInterval : Duration := secs (30 * 60)
def defaultStallEvictionTimeout : Duration := secs (90 * 24 * 3600)
def defaultVanishedEvictionTimeout : Duration := secs (90 * 24 * 3600)
def defaultQuarantineCheckInterval : Duration := secs (30 * 60)
def defaultBrokenPieceDiscardBytes : Nat := 256 * 1024 * 1024
def defaultBrokenPieceMinWindows : Nat := 2
def defaultQuarantineCooldown : Duration := secs (3 * 24 * 3600)
def defaultQuarantineMaxRetries : Nat := 0
def allLimitFraction : F64 := .ofRat (975 / 1000)
def minStorageLimit : Nat := 100 * 1024 * 1024
def minBandwidthLimit : Nat := 100 * 1024
def maxDurationKnob : Duration := secs (366 * 24 * 3600)
def minRateLimitPerSecond : F64 := .ofRat (1 / 10 ^ 6)

structure StorageLocation where
  path : PathBuf
  limit : StorageLimit
  deriving DecidableEq

def StorageLocation.limitBytes (l : StorageLocation) : Nat :=
  match l.limit with
  | .bytes b => b
  | _ => 0

structure ScanConfig where
  interval : Duration := defaultScanInterval
  rateLimitPerSecond : F64 := defaultRateLimitPerSec
  minSeedMargin : Int := defaultMinSeedMargin
  moderationDelay : Duration := defaultModerationDelay
  stallEvictionTimeout : Duration := defaultStallEvictionTimeout
  vanishedEvictionTimeout : Duration := defaultVanishedEvictionTimeout
  quarantineCheckInterval : Duration := defaultQuarantineCheckInterval
  brokenPieceDiscardBytes : Nat := defaultBrokenPieceDiscardBytes
  brokenPieceMinWindows : Nat := defaultBrokenPieceMinWindows
  quarantineCooldown : Duration := defaultQuarantineCooldown
  quarantineMaxRetries : Nat := defaultQuarantineMaxRetries
  deriving DecidableEq

structure Config where
  port : Nat := defaultPort
  dataDir : PathBuf
  storage : List StorageLocation := []
  scan : ScanConfig := {}
  aggressiveness : F64 := defaultAggressiveness
  keywordBlocklist : List String := []
  preserveDeletedTorrents : Bool := false
  catalogCollapsePercent : Nat := defaultCatalogCollapsePercent
  maxRam : Nat := 0
  apiKey : String := ""
  uploadRateLimit : Nat := 0
  downloadRateLimit : Nat := 0
  statsInterval : Duration := defaultStatsInterval
  debug : Bool := false
  logFile : Option PathBuf := none
  deriving DecidableEq

/-- `bail!` with a message when the check fails. -/
def ensure (ok : Bool) (message : String) : Except String Unit :=
  if ok then .ok () else .error message

theorem ensure_ok_iff {ok : Bool} {message : String} :
    ensure ok message = .ok () ↔ ok = true := by
  unfold ensure; cases ok <;> simp

def checkRateLimit (fmt : Formatters) (perSecond : F64) : Except String Unit := do
  ensure (decide (((0 : Nat) : F64) < perSecond))
    "scan.rate_limit_per_second must be a positive finite number"
  ensure (!decide (perSecond < minRateLimitPerSecond))
    ("scan.rate_limit_per_second must be at least " ++ fmt.displayF64 minRateLimitPerSecond ++
      " (one request every " ++ toString (((1 : Nat) : F64) / minRateLimitPerSecond).toU64 ++
      "s at that rate would wedge a scan for months) - got " ++ fmt.displayF64 perSecond)

def checkDurationKnob (name : String) (d : Duration) : Except String Unit :=
  ensure (decide (d ≤ maxDurationKnob))
    (name ++ " must be 0 (disabled) or at most 366 days, got " ++ toString (asSecs d) ++ "s")

def checkStorageLimit (fmt : Formatters) (path : PathBuf) (limit : StorageLimit) : Except String Unit :=
  match limit with
  | .all | .unset => .ok ()
  | .bytes b =>
    ensure (decide (minStorageLimit ≤ b))
      ("storage location " ++ fmt.displayPath path ++ " limit " ++ formatByteSizeText b ++
        " is under 100M — certainly a units mistake (did you mean gigabytes?). Use max for a " ++
        "dedicated drive, or a limit of at least 100M")

def checkBandwidthLimit (flag : String) (bytes : Nat) : Except String Unit :=
  ensure (decide (bytes = 0 ∨ minBandwidthLimit ≤ bytes))
    (flag ++ " " ++ formatByteSizeText bytes ++ " is under 100K/s — certainly a units mistake " ++
      "(did you mean megabytes?). Use 0 for unlimited, or at least 100K")

def checkLocation (fmt : Formatters) (canonicalize : PathBuf → Option PathBuf) (seen : List PathBuf)
    (loc : StorageLocation) : Except String (List PathBuf) := do
  ensure (decide (loc.path ≠ [])) "storage location has an empty path"
  ensure (decide (loc.limit ≠ .unset ∧ loc.limit ≠ .bytes 0))
    ("storage location " ++ fmt.displayPath loc.path ++ " has no positive limit set")
  checkStorageLimit fmt loc.path loc.limit
  let key := (canonicalize loc.path).getD loc.path
  ensure (decide (key ∉ seen))
    ("storage location " ++ fmt.displayPath loc.path ++ " is listed more than once")
  return key :: seen

/-- The duration knobs, under the names their errors use. -/
def Config.durations (cfg : Config) : List (String × Duration) :=
  [("scan.interval", cfg.scan.interval),
   ("scan.moderation_delay", cfg.scan.moderationDelay),
   ("scan.stall_eviction_timeout", cfg.scan.stallEvictionTimeout),
   ("scan.vanished_eviction_timeout", cfg.scan.vanishedEvictionTimeout),
   ("scan.quarantine_check_interval", cfg.scan.quarantineCheckInterval),
   ("scan.quarantine_cooldown", cfg.scan.quarantineCooldown),
   ("stats_interval", cfg.statsInterval)]

def Config.validate (fmt : Formatters) (canonicalize : PathBuf → Option PathBuf) (cfg : Config) :
    Except String Unit := do
  ensure (decide (cfg.storage ≠ []))
    ("no storage locations configured; keep-at will not pick a default limit, set --storage-limit " ++
      "(and optionally --storage) or storage: in a config file")
  let _ ← cfg.storage.foldlM (checkLocation fmt canonicalize) []
  ensure (decide (((0 : Nat) : F64) < cfg.aggressiveness) && decide (cfg.aggressiveness < ((1 : Nat) : F64)))
    ("aggressiveness must be between 0 and 1 (exclusive), got " ++ fmt.displayF64 cfg.aggressiveness)
  ensure (decide (cfg.catalogCollapsePercent ≤ 100))
    ("catalog_collapse_percent must be 0-100, got " ++ toString cfg.catalogCollapsePercent)
  ensure (decide (0 ≤ cfg.scan.minSeedMargin)) "scan.min_seed_margin must not be negative"
  ensure (decide (cfg.scan.brokenPieceMinWindows ≠ 0))
    ("scan.broken_piece_min_windows must be at least 1 (0 windows " ++
      "would quarantine on discard volume alone)")
  ensure (decide (cfg.scan.brokenPieceDiscardBytes ≠ 0))
    ("scan.broken_piece_discard_bytes must be at least 1 byte (0 " ++
      "would quarantine any live torrent with no verified bytes)")
  ensure (decide (¬(cfg.scan.quarantineCheckInterval > 0 ∧ cfg.scan.quarantineCheckInterval < secs 60)))
    ("scan.quarantine_check_interval must be 0 (disabled) or at least 60s, got " ++
      fmt.debugDuration cfg.scan.quarantineCheckInterval)
  ensure (decide (cfg.port ≠ 0)) ("port " ++ toString cfg.port ++ " is out of range")
  checkRateLimit fmt cfg.scan.rateLimitPerSecond
  cfg.durations.forM fun (name, d) => checkDurationKnob name d
  checkBandwidthLimit "max_ram" cfg.maxRam
  checkBandwidthLimit "upload_rate_limit" cfg.uploadRateLimit
  checkBandwidthLimit "download_rate_limit" cfg.downloadRateLimit

end KeepAt
