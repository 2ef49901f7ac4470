import KeepAt.ConfigFile

namespace KeepAt

structure CommonArgs where
  config : Option PathBuf := none
  dataDir : Option PathBuf := none

structure ConfigArgs where
  storageLocation : List PathBuf := []
  storageLimit : List String := []
  storage : Option PathBuf := none
  port : Option Nat := none
  rateLimit : Option F64 := none
  apiKey : Option String := none
  aggressiveness : Option F64 := none
  minSeedMargin : Option Int := none
  scanInterval : Option Duration := none
  moderationDelay : Option Duration := none
  stallEvictionTimeout : Option Duration := none
  vanishedEvictionTimeout : Option Duration := none
  quarantineCheckInterval : Option Duration := none
  brokenPieceDiscardBytes : Option String := none
  brokenPieceMinWindows : Option Nat := none
  quarantineCooldown : Option Duration := none
  quarantineMaxRetries : Option Nat := none
  keywordBlocklist : Option String := none
  preserveDeletedTorrents : Option Bool := none
  catalogCollapsePercent : Option Nat := none
  maxRam : Option String := none
  uploadRateLimit : Option String := none
  downloadRateLimit : Option String := none
  cfgDataDir : Option PathBuf := none
  statsInterval : Option Duration := none
  debug : Option Bool := none
  logFile : Option PathBuf := none

/-- `with_context` of a failing call, as the error chain prints it. -/
def withContext {α : Type} (context : String) (result : Except String α) : Except String α :=
  result.mapError fun cause => context ++ ": " ++ cause

def splitKeywords (raw : String) : List String :=
  ((raw.toList.splitOn ',').map fun p => String.ofList (trim p)).filter fun p => decide (p ≠ "")

namespace ConfigArgs

def storageFlagsSet (args : ConfigArgs) : Bool :=
  !args.storageLocation.isEmpty || !args.storageLimit.isEmpty || args.storage.isSome

/-- Whether any flag but the storage flags was passed. -/
def anySet (args : ConfigArgs) : Bool :=
  args.port.isSome || args.cfgDataDir.isSome || args.aggressiveness.isSome || args.minSeedMargin.isSome ||
    args.scanInterval.isSome || args.moderationDelay.isSome || args.rateLimit.isSome ||
    args.stallEvictionTimeout.isSome || args.vanishedEvictionTimeout.isSome ||
    args.quarantineCheckInterval.isSome || args.brokenPieceDiscardBytes.isSome ||
    args.brokenPieceMinWindows.isSome || args.quarantineCooldown.isSome ||
    args.quarantineMaxRetries.isSome || args.keywordBlocklist.isSome ||
    args.preserveDeletedTorrents.isSome || args.catalogCollapsePercent.isSome || args.maxRam.isSome ||
    args.apiKey.isSome || args.uploadRateLimit.isSome || args.downloadRateLimit.isSome ||
    args.statsInterval.isSome || args.debug.isSome || args.logFile.isSome

def applyPlain {α : Type} (flag : Option α) (set : Config → α → Config) (cfg : Config) : Config :=
  match flag with
  | none => cfg
  | some v => set cfg v

def applyBytes (fmt : Formatters) (flag : String) (raw : Option String) (floored : Bool)
    (set : Config → Nat → Config) (cfg : Config) : Except String Config :=
  match raw with
  | none => .ok cfg
  | some v => do
    let bytes ← withContext flag (parseByteSize fmt v)
    if floored then withContext flag (checkBandwidthLimit flag bytes)
    return set cfg bytes

/-- `apply_to`: every flag that was passed replaces its field, in the order the source writes them. -/
def applyTo (fmt : Formatters) (args : ConfigArgs) (cfg : Config) : Except String Config := do
  let cfg := applyPlain args.port (fun c v => { c with port := v }) cfg
  let cfg := applyPlain args.cfgDataDir (fun c v => { c with dataDir := v }) cfg
  let cfg := applyPlain args.aggressiveness (fun c v => { c with aggressiveness := v }) cfg
  let cfg := applyPlain args.minSeedMargin (fun c v => { c with scan.minSeedMargin := v }) cfg
  let cfg := applyPlain args.scanInterval (fun c v => { c with scan.interval := v }) cfg
  let cfg := applyPlain args.moderationDelay (fun c v => { c with scan.moderationDelay := v }) cfg
  let cfg := applyPlain args.rateLimit (fun c v => { c with scan.rateLimitPerSecond := v }) cfg
  let cfg := applyPlain args.stallEvictionTimeout (fun c v => { c with scan.stallEvictionTimeout := v }) cfg
  let cfg := applyPlain args.vanishedEvictionTimeout
    (fun c v => { c with scan.vanishedEvictionTimeout := v }) cfg
  let cfg := applyPlain args.quarantineCheckInterval
    (fun c v => { c with scan.quarantineCheckInterval := v }) cfg
  let cfg ← applyBytes fmt "--broken-piece-discard-bytes" args.brokenPieceDiscardBytes false
    (fun c v => { c with scan.brokenPieceDiscardBytes := v }) cfg
  let cfg := applyPlain args.brokenPieceMinWindows (fun c v => { c with scan.brokenPieceMinWindows := v }) cfg
  let cfg := applyPlain args.quarantineCooldown (fun c v => { c with scan.quarantineCooldown := v }) cfg
  let cfg := applyPlain args.quarantineMaxRetries (fun c v => { c with scan.quarantineMaxRetries := v }) cfg
  let cfg := applyPlain args.keywordBlocklist (fun c v => { c with keywordBlocklist := splitKeywords v }) cfg
  let cfg := applyPlain args.preserveDeletedTorrents (fun c v => { c with preserveDeletedTorrents := v }) cfg
  let cfg := applyPlain args.catalogCollapsePercent (fun c v => { c with catalogCollapsePercent := v }) cfg
  let cfg ← applyBytes fmt "--max-ram" args.maxRam true (fun c v => { c with maxRam := v }) cfg
  let cfg := applyPlain args.apiKey (fun c v => { c with apiKey := v }) cfg
  let cfg ← applyBytes fmt "--upload-rate-limit" args.uploadRateLimit true
    (fun c v => { c with uploadRateLimit := v }) cfg
  let cfg ← applyBytes fmt "--download-rate-limit" args.downloadRateLimit true
    (fun c v => { c with downloadRateLimit := v }) cfg
  let cfg := applyPlain args.statsInterval (fun c v => { c with statsInterval := v }) cfg
  let cfg := applyPlain args.debug (fun c v => { c with debug := v }) cfg
  return applyPlain args.logFile (fun c v => { c with logFile := some v }) cfg

/-- The loop over `--storage-location`: each takes the next limit. The rest of the limits is left over. -/
def pairLocations (fmt : Formatters) :
    List PathBuf → List String → Except String (List StorageLocation × List String)
  | [], limits => .ok ([], limits)
  | path :: _, [] =>
    .error ("--storage-location " ++ fmt.displayPath path ++ " has no matching --storage-limit")
  | path :: paths, raw :: limits => do
    let limit ← StorageLimit.parse fmt raw
    let (locs, leftover) ← pairLocations fmt paths limits
    return (⟨path, limit⟩ :: locs, leftover)

/-- What becomes of the limits that no `--storage-location` took. -/
def placeLeftover (fmt : Formatters) (home : String) (locs : List StorageLocation) :
    Option PathBuf → List String → Except String (List StorageLocation)
  | some path, [raw] => (StorageLimit.parse fmt raw).map fun limit => locs ++ [⟨path, limit⟩]
  | some _, [] =>
    .error "--storage-limit is required (e.g. --storage-limit 500G, or --storage-limit max)"
  | some _, _ =>
    .error ("--storage can't be combined with multiple --storage-location/--storage-limit pairs; " ++
      "use --storage-location instead")
  | none, [raw] =>
    (StorageLimit.parse fmt raw).map fun limit => locs ++ [⟨defaultStorageLocation home, limit⟩]
  | none, [] => .ok locs
  | none, _ =>
    .error ("--storage-limit given without a matching --storage-location (pair each location with its " ++
      "own limit, or use --storage PATH --storage-limit SIZE)")

def storageFromFlags (fmt : Formatters) (home : String) (args : ConfigArgs) :
    Except String (List StorageLocation) := do
  let (locs, leftover) ← pairLocations fmt args.storageLocation args.storageLimit
  placeLeftover fmt home locs args.storage leftover

end ConfigArgs

def serviceConfigPath : PathBuf := ["/", "etc", "keep-at", "config.yaml"]

/-- `service_config_if_present`, given whether the path exists. -/
def serviceConfigIfPresent (installed : Bool) : Option PathBuf :=
  if installed then some serviceConfigPath else none

/-- The config file a command loads: the one it was given, or the service's own when no other flag asks for
anything. -/
def chosenConfig (common : CommonArgs) (args : ConfigArgs) (installed : Bool) : Option PathBuf :=
  match common.config with
  | some path => some path
  | none => if !args.storageFlagsSet && !args.anySet then serviceConfigIfPresent installed else none

section Resolve

variable (lib : YamlLib) (fmt : Formatters) (canonicalize : PathBuf → Option PathBuf)

/-- What the flags are applied to. An error in the service's config names it as such. -/
def baseConfig (files : Files) (common : CommonArgs) (args : ConfigArgs) (env : LoadEnv) (installed : Bool) :
    Files × Except String Config :=
  match chosenConfig common args installed with
  | none => (files, .ok { dataDir := defaultDataDir env.home })
  | some path =>
    let (files, loaded) := Config.load lib fmt canonicalize files path env
    (files, loaded.mapError fun cause =>
      if common.config.isNone then
        "found an installed service config at " ++ fmt.displayPath path ++ " but couldn't load it: " ++ cause
      else cause)

/-- The storage part of `resolve`, with the config file that was loaded. -/
def resolveStorage (home : String) (args : ConfigArgs) (loaded : Option PathBuf) (cfg : Config) :
    Except String Config :=
  if args.storageFlagsSet then
    match loaded with
    | some path =>
      .error ("--storage-location/--storage-limit/--storage can't be combined with --config; edit " ++
        fmt.displayPath path ++ " instead")
    | none => do
      let locs ← args.storageFromFlags fmt home
      ensure (decide (locs ≠ []))
        ("--storage-limit is required (e.g. --storage-limit 500G, or --storage-limit max to use a " ++
          "dedicated drive)")
      return { cfg with storage := locs }
  else if loaded.isNone && cfg.storage.isEmpty then
    .error ("no storage configured; pass --storage-limit (e.g. --storage-limit 500G), --config, or " ++
      "install keep-at as a service first")
  else .ok cfg

/-- The rest of `resolve`, once the base config is there: the flags, the root `--data-dir`, the key file, the
storage and the checks. -/
def finishConfig (files : Files) (common : CommonArgs) (args : ConfigArgs) (home : String)
    (loaded : Option PathBuf) (base : Config) : Except String Config := do
  let cfg ← args.applyTo fmt base
  let cfg := ConfigArgs.applyPlain common.dataDir (fun c v => { c with dataDir := v }) cfg
  let cfg ← resolveStorage fmt home args loaded (cfg.mergeKeyFile files)
  cfg.validate fmt canonicalize
  return cfg

def resolve (files : Files) (common : CommonArgs) (args : ConfigArgs) (env : LoadEnv) (installed : Bool) :
    Files × Except String Config :=
  let base := baseConfig lib fmt canonicalize files common args env installed
  (base.1, base.2.bind
    (finishConfig fmt canonicalize base.1 common args env.home (chosenConfig common args installed)))

end Resolve

end KeepAt
