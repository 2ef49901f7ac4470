import KeepAt.Config
import KeepAt.PathText

namespace KeepAt

inductive Yaml where
  | null
  | bool (b : Bool)
  | int (i : Int)
  | float (x : F64)
  | str (s : String)
  | seq (items : List Yaml)
  | map (fields : List (String × Yaml))

/-- What the code uses of the YAML library: the text of a value, the value of a text, and the
messages for a value of the wrong kind and for a missing field. A plain number, boolean or null in a field
that is read as text is a `.str` of its text for `parse`, as the library hands it over. -/
structure YamlLib where
  emit : Yaml → String
  parse : String → Except String Yaml
  invalid : String → Yaml → String
  missing : String → String

def presentFields (fields : List (String × Option Yaml)) : List (String × Yaml) :=
  fields.filterMap fun f => f.2.map (f.1, ·)

def readField {α : Type} (fields : List (String × Yaml)) (name : String) (absent : Except String α)
    (de : Yaml → Except String α) : Except String α :=
  match fields.lookup name with
  | none => absent
  | some v => de v

section Decode

variable (lib : YamlLib)

def deBounded (expected : String) (bound : Nat) : Yaml → Except String Nat
  | .int i => if 0 ≤ i ∧ i ≤ bound then .ok i.toNat else .error (lib.invalid expected (.int i))
  | y => .error (lib.invalid expected y)

def deU16 : Yaml → Except String Nat := deBounded lib "u16" (2 ^ 16 - 1)
def deU32 : Yaml → Except String Nat := deBounded lib "u32" (2 ^ 32 - 1)
def deU64 : Yaml → Except String Nat := deBounded lib "u64" u64Max

def deI32 : Yaml → Except String Int
  | .int i =>
    if -2 ^ 31 ≤ i ∧ i < 2 ^ 31 then .ok i else .error (lib.invalid "i32" (.int i))
  | y => .error (lib.invalid "i32" y)

def deF64 : Yaml → Except String F64
  | .float x => .ok x
  | .int i => .ok (.ofRat i)
  | y => .error (lib.invalid "f64" y)

def deBool : Yaml → Except String Bool
  | .bool b => .ok b
  | y => .error (lib.invalid "a boolean" y)

def deString : Yaml → Except String String
  | .str s => .ok s
  | y => .error (lib.invalid "a string" y)

def dePath (y : Yaml) : Except String PathBuf := (deString lib y).map pathOf

def deOption {α : Type} (de : Yaml → Except String α) : Yaml → Except String (Option α)
  | .null => .ok none
  | y => (de y).map some

def deSeq {α : Type} (de : Yaml → Except String α) : Yaml → Except String (List α)
  | .seq items => items.mapM de
  | y => .error (lib.invalid "a sequence" y)

def deFields (expected : String) : Yaml → Except String (List (String × Yaml))
  | .map fields => .ok fields
  | y => .error (lib.invalid expected y)

/-- A null falls back to the field's own default. -/
def deDurationSecs (fallback : Duration) (y : Yaml) : Except String Duration :=
  (deOption (deU64 lib) y).map fun n => (n.map secs).getD fallback

def deLimit (fmt : Formatters) (y : Yaml) : Except String StorageLimit :=
  (deString lib y).bind (StorageLimit.parse fmt)

def deBytesizeOpt (fmt : Formatters) (y : Yaml) : Except String Nat :=
  (deOption (deString lib) y).bind fun s => (s.map (parseByteSize fmt)).getD (.ok 0)

end Decode

def serDurationSecsOpt (d : Duration) : Yaml := .int (asSecs d)

def durationField (d default : Duration) : Option Yaml :=
  if d = default then none else some (serDurationSecsOpt d)

def counterField (n default : Nat) : Option Yaml := if n = default then none else some (.int n)

/-- `ser_limit`: `none` when the rendering does not return. -/
def serLimit : StorageLimit → Option Yaml
  | .all => some (.str "max")
  | .bytes b => (formatByteSize b).map .str
  | .unset => some (.str "")

def serBytesizeOpt (n : Nat) : Option Yaml :=
  if n = 0 then some .null else (formatByteSize n).map .str

def StorageLocation.toYaml (l : StorageLocation) : Option Yaml :=
  (serLimit l.limit).map fun limit => .map [("path", .str (pathText l.path)), ("limit", limit)]

def StorageLocation.fromYaml (lib : YamlLib) (fmt : Formatters) (y : Yaml) :
    Except String StorageLocation := do
  let fields ← deFields lib "struct StorageLocation" y
  let path ← readField fields "path" (.error (lib.missing "path")) (dePath lib)
  let limit ← readField fields "limit" (.ok .unset) (deLimit lib fmt)
  return { path, limit }

def ScanConfig.fields (s : ScanConfig) : List (String × Option Yaml) :=
  [("interval", durationField s.interval defaultScanInterval),
   ("rate_limit_per_second", some (.float s.rateLimitPerSecond)),
   ("min_seed_margin", some (.int s.minSeedMargin)),
   ("moderation_delay", durationField s.moderationDelay defaultModerationDelay),
   ("stall_eviction_timeout", durationField s.stallEvictionTimeout defaultStallEvictionTimeout),
   ("vanished_eviction_timeout", durationField s.vanishedEvictionTimeout defaultVanishedEvictionTimeout),
   ("quarantine_check_interval", durationField s.quarantineCheckInterval defaultQuarantineCheckInterval),
   ("broken_piece_discard_bytes", counterField s.brokenPieceDiscardBytes defaultBrokenPieceDiscardBytes),
   ("broken_piece_min_windows", counterField s.brokenPieceMinWindows defaultBrokenPieceMinWindows),
   ("quarantine_cooldown", durationField s.quarantineCooldown defaultQuarantineCooldown),
   ("quarantine_max_retries", counterField s.quarantineMaxRetries defaultQuarantineMaxRetries)]

def ScanConfig.toYaml (s : ScanConfig) : Yaml := .map (presentFields s.fields)

def readDuration (lib : YamlLib) (fields : List (String × Yaml)) (name : String) (default : Duration) :
    Except String Duration :=
  readField fields name (.ok default) (deDurationSecs lib default)

def ScanConfig.fromYaml (lib : YamlLib) (y : Yaml) : Except String ScanConfig := do
  let fields ← deFields lib "struct ScanConfig" y
  let interval ← readDuration lib fields "interval" defaultScanInterval
  let rateLimitPerSecond ← readField fields "rate_limit_per_second" (.ok defaultRateLimitPerSec) (deF64 lib)
  let minSeedMargin ← readField fields "min_seed_margin" (.ok defaultMinSeedMargin) (deI32 lib)
  let moderationDelay ← readDuration lib fields "moderation_delay" defaultModerationDelay
  let stallEvictionTimeout ←
    readDuration lib fields "stall_eviction_timeout" defaultStallEvictionTimeout
  let vanishedEvictionTimeout ←
    readDuration lib fields "vanished_eviction_timeout" defaultVanishedEvictionTimeout
  let quarantineCheckInterval ←
    readDuration lib fields "quarantine_check_interval" defaultQuarantineCheckInterval
  let brokenPieceDiscardBytes ←
    readField fields "broken_piece_discard_bytes" (.ok defaultBrokenPieceDiscardBytes) (deU64 lib)
  let brokenPieceMinWindows ←
    readField fields "broken_piece_min_windows" (.ok defaultBrokenPieceMinWindows) (deU32 lib)
  let quarantineCooldown ← readDuration lib fields "quarantine_cooldown" defaultQuarantineCooldown
  let quarantineMaxRetries ←
    readField fields "quarantine_max_retries" (.ok defaultQuarantineMaxRetries) (deU32 lib)
  return { interval, rateLimitPerSecond, minSeedMargin, moderationDelay, stallEvictionTimeout,
           vanishedEvictionTimeout, quarantineCheckInterval, brokenPieceDiscardBytes,
           brokenPieceMinWindows, quarantineCooldown, quarantineMaxRetries }

def Config.fields (c : Config) (storage : List Yaml) (maxRam upload download : Yaml) :
    List (String × Option Yaml) :=
  [("port", some (.int c.port)),
   ("data_dir", some (.str (pathText c.dataDir))),
   ("storage", some (.seq storage)),
   ("scan", some c.scan.toYaml),
   ("aggressiveness", some (.float c.aggressiveness)),
   ("keyword_blocklist", some (.seq (c.keywordBlocklist.map .str))),
   ("preserve_deleted_torrents", some (.bool c.preserveDeletedTorrents)),
   ("catalog_collapse_percent", some (.int c.catalogCollapsePercent)),
   ("max_ram", some maxRam),
   ("api_key", if c.apiKey = "" then none else some (.str c.apiKey)),
   ("upload_rate_limit", some upload),
   ("download_rate_limit", some download),
   ("stats_interval", durationField c.statsInterval defaultStatsInterval),
   ("debug", some (.bool c.debug)),
   ("log_file", c.logFile.map fun p => .str (pathText p))]

/-- `none` when the rendering of a size does not return. -/
def Config.toYaml (c : Config) : Option Yaml := do
  let storage ← c.storage.mapM StorageLocation.toYaml
  let maxRam ← serBytesizeOpt c.maxRam
  let upload ← serBytesizeOpt c.uploadRateLimit
  let download ← serBytesizeOpt c.downloadRateLimit
  return .map (presentFields (c.fields storage maxRam upload download))

def defaultDataDir (home : String) : PathBuf :=
  if home = "" then ["/", "var", "lib", "keep-at"] else pathOf home ++ [".local", "share", "keep-at"]

def defaultStorageLocation (home : String) : PathBuf := defaultDataDir home ++ ["storage"]

def Config.fromYaml (lib : YamlLib) (fmt : Formatters) (home : String) (y : Yaml) :
    Except String Config := do
  let fields ← deFields lib "struct Config" y
  let port ← readField fields "port" (.ok defaultPort) (deU16 lib)
  let dataDir ← readField fields "data_dir" (.ok (defaultDataDir home)) (dePath lib)
  let storage ← readField fields "storage" (.ok []) (deSeq lib (StorageLocation.fromYaml lib fmt))
  let scan ← readField fields "scan" (.ok {}) (ScanConfig.fromYaml lib)
  let aggressiveness ← readField fields "aggressiveness" (.ok defaultAggressiveness) (deF64 lib)
  let keywordBlocklist ← readField fields "keyword_blocklist" (.ok []) (deSeq lib (deString lib))
  let preserveDeletedTorrents ← readField fields "preserve_deleted_torrents" (.ok false) (deBool lib)
  let catalogCollapsePercent ←
    readField fields "catalog_collapse_percent" (.ok defaultCatalogCollapsePercent) (deU32 lib)
  let maxRam ← readField fields "max_ram" (.ok 0) (deBytesizeOpt lib fmt)
  let apiKey ← readField fields "api_key" (.ok "") (deString lib)
  let uploadRateLimit ← readField fields "upload_rate_limit" (.ok 0) (deBytesizeOpt lib fmt)
  let downloadRateLimit ← readField fields "download_rate_limit" (.ok 0) (deBytesizeOpt lib fmt)
  let statsInterval ← readDuration lib fields "stats_interval" defaultStatsInterval
  let debug ← readField fields "debug" (.ok false) (deBool lib)
  let logFile ← readField fields "log_file" (.ok none) (deOption (dePath lib))
  return { port, dataDir, storage, scan, aggressiveness, keywordBlocklist, preserveDeletedTorrents,
           catalogCollapsePercent, maxRam, apiKey, uploadRateLimit, downloadRateLimit, statsInterval,
           debug, logFile }

abbrev Files := PathBuf → Option String

def configHeader : String :=
  "# keep-at config. Edit this file directly and restart keep-at\n" ++
  "# (`systemctl restart keep-at`, or `keep-at service install` again)\n" ++
  "# to apply changes. Every field here also has a --flag equivalent\n" ++
  "# (`keep-at run --help`).\n#\n" ++
  "# The Academic Torrents API key is NOT stored here: it lives in\n" ++
  "# <data_dir>/api_key (owner-only, 0600), so this file can stay\n" ++
  "# world-readable for `status`/`hosted-torrents` run as any user.\n" ++
  "# Set it with --api-key or write the file directly.\n\n"

def apiKeyFile (dataDir : PathBuf) : PathBuf := dataDir ++ ["api_key"]

structure SaveEnv where
  dirCreated : Bool
  keyWritten : Bool
  written : Bool

/-- The key file first, then the file without the key. `none` when a size does not render. -/
def Config.save (lib : YamlLib) (fmt : Formatters) (cfg : Config) (path : PathBuf) (files : Files)
    (env : SaveEnv) : Option (Files × Except String Unit) :=
  if !env.dirCreated then
    some (files, .error ("creating directory for " ++ fmt.displayPath path))
  else if cfg.apiKey ≠ "" ∧ !env.keyWritten then
    some (files, .error ("writing " ++ fmt.displayPath (apiKeyFile cfg.dataDir)))
  else
    let files := if cfg.apiKey ≠ "" then
      Function.update files (apiKeyFile cfg.dataDir) (some (cfg.apiKey ++ "\n")) else files
    match ({ cfg with apiKey := "" } : Config).toYaml with
    | none => none
    | some y =>
      if env.written then some (Function.update files path (some (configHeader ++ lib.emit y)), .ok ())
      else some (files, .error ("writing " ++ fmt.displayPath path))

def Config.mergeKeyFile (cfg : Config) (files : Files) : Config :=
  if cfg.apiKey ≠ "" then cfg
  else match files (apiKeyFile cfg.dataDir) with
    | none => cfg
    | some k =>
      if trim k.toList = [] then cfg else { cfg with apiKey := String.ofList (trim k.toList) }

inductive ReadError where
  | notFound
  | permissionDenied (cause : String)
  | other (cause : String)

structure LoadEnv where
  home : String
  readError : ReadError
  starterWritten : Bool

def starterHeader : String :=
  "# keep-at starter config. This is entirely optional - every field here has\n" ++
  "# a --flag equivalent (run `keep-at run --help`). Reach for a config file\n" ++
  "# once you want more than one storage location, or don't want to repeat\n" ++
  "# flags every time.\n#\n" ++
  "# At minimum, set a real limit (e.g. 500G, 2T) below.\n#\n" ++
  "# To get credit for the torrents you seed, set an Academic Torrents API key\n" ++
  "# (https://academictorrents.com/my.php) via --api-key or <data_dir>/api_key\n" ++
  "# (owner-only file) - it's only sent to AT's own trackers and never logged.\n\n"

def starterConfig (fmt : Formatters) (home : String) : String :=
  starterHeader ++ "port: " ++ toString defaultPort ++ "\ndata_dir: " ++
    fmt.displayPath (defaultDataDir home) ++ "\nstorage:\n- path: " ++
    fmt.displayPath (defaultStorageLocation home) ++ "\n  limit: \"\"\n"

def Config.loadInner (lib : YamlLib) (fmt : Formatters) (canonicalize : PathBuf → Option PathBuf)
    (files : Files) (path : PathBuf) (env : LoadEnv) (writeStarter : Bool) :
    Files × Except String Config :=
  match files path, env.readError with
  | some text, _ => (files, do
      let parsed ← (lib.parse text).bind (Config.fromYaml lib fmt env.home)
      let cfg := parsed.mergeKeyFile files
      cfg.validate fmt canonicalize
      return cfg)
  | none, .notFound =>
    if !writeStarter then (files, .error ("no config at " ++ fmt.displayPath path))
    else if !env.starterWritten then
      (files, .error ("no config at " ++ fmt.displayPath path ++ ", and failed to write a starter one"))
    else
      (Function.update files path (some (starterConfig fmt env.home)),
        .error ("wrote a starter config to " ++ fmt.displayPath path ++
          ": set at least one storage location and limit, then run keep-at again"))
  | none, .permissionDenied cause =>
    (files, .error ("reading config " ++ fmt.displayPath path ++ " denied: " ++ cause ++
      ". The config of an older keep-at install is root-only; run `sudo keep-at service install` once " ++
      "(or restart the daemon) to migrate it world-readable"))
  | none, .other cause =>
    (files, .error ("reading config " ++ fmt.displayPath path ++ ": " ++ cause))

def Config.load (lib : YamlLib) (fmt : Formatters) (canonicalize : PathBuf → Option PathBuf)
    (files : Files) (path : PathBuf) (env : LoadEnv) : Files × Except String Config :=
  Config.loadInner lib fmt canonicalize files path env true

end KeepAt
