import KeepAt.ConfigFields

namespace KeepAt

variable {lib : YamlLib} {fmt : Formatters}

theorem Config.fromYaml_ok_iff {home : String} {fields : List (String × Yaml)} {c : Config} :
    Config.fromYaml lib fmt home (.map fields) = .ok c ↔
      readField fields "port" (.ok defaultPort) (deU16 lib) = .ok c.port ∧
      readField fields "data_dir" (.ok (defaultDataDir home)) (dePath lib) = .ok c.dataDir ∧
      readField fields "storage" (.ok []) (deSeq lib (StorageLocation.fromYaml lib fmt)) =
        .ok c.storage ∧
      readField fields "scan" (.ok {}) (ScanConfig.fromYaml lib) = .ok c.scan ∧
      readField fields "aggressiveness" (.ok defaultAggressiveness) (deF64 lib) = .ok c.aggressiveness ∧
      readField fields "keyword_blocklist" (.ok []) (deSeq lib (deString lib)) = .ok c.keywordBlocklist ∧
      readField fields "preserve_deleted_torrents" (.ok false) (deBool lib) =
        .ok c.preserveDeletedTorrents ∧
      readField fields "catalog_collapse_percent" (.ok defaultCatalogCollapsePercent) (deU32 lib) =
        .ok c.catalogCollapsePercent ∧
      readField fields "max_ram" (.ok 0) (deBytesizeOpt lib fmt) = .ok c.maxRam ∧
      readField fields "api_key" (.ok "") (deString lib) = .ok c.apiKey ∧
      readField fields "upload_rate_limit" (.ok 0) (deBytesizeOpt lib fmt) = .ok c.uploadRateLimit ∧
      readField fields "download_rate_limit" (.ok 0) (deBytesizeOpt lib fmt) = .ok c.downloadRateLimit ∧
      readDuration lib fields "stats_interval" defaultStatsInterval = .ok c.statsInterval ∧
      readField fields "debug" (.ok false) (deBool lib) = .ok c.debug ∧
      readField fields "log_file" (.ok none) (deOption (dePath lib)) = .ok c.logFile := by
  simp only [Config.fromYaml, except_bind_eq_ok, deFields]
  constructor
  · rintro ⟨_, ⟨⟩, _, h1, _, h2, _, h3, _, h4, _, h5, _, h6, _, h7, _, h8, _, h9, _, h10, _, h11, _, h12, _,
      h13, _, h14, _, h15, ⟨⟩⟩
    exact ⟨h1, h2, h3, h4, h5, h6, h7, h8, h9, h10, h11, h12, h13, h14, h15⟩
  · rintro ⟨h1, h2, h3, h4, h5, h6, h7, h8, h9, h10, h11, h12, h13, h14, h15⟩
    exact ⟨_, rfl, _, h1, _, h2, _, h3, _, h4, _, h5, _, h6, _, h7, _, h8, _, h9, _, h10, _, h11, _, h12, _,
      h13, _, h14, _, h15, rfl⟩

structure Config.InRange (c : Config) : Prop where
  port : c.port ≤ 2 ^ 16 - 1
  dataDir : NormalPath c.dataDir
  storage : ∀ l ∈ c.storage, LocationInRange l
  scan : c.scan.InRange
  catalogCollapsePercent : c.catalogCollapsePercent ≤ 2 ^ 32 - 1
  maxRam : c.maxRam ≤ u64Max
  uploadRateLimit : c.uploadRateLimit ≤ u64Max
  downloadRateLimit : c.downloadRateLimit ≤ u64Max
  statsInterval : asSecs c.statsInterval ≤ u64Max
  logFile : ∀ p ∈ c.logFile, NormalPath p

/-- Every size is a one-decimal multiple of its unit, and every duration a number of seconds. -/
structure Config.Exact (c : Config) : Prop where
  limits : ∀ l ∈ c.storage, ∀ n, l.limit = .bytes n → OneDecimal n
  maxRam : OneDecimal c.maxRam
  uploadRateLimit : OneDecimal c.uploadRateLimit
  downloadRateLimit : OneDecimal c.downloadRateLimit
  durations : ∀ d ∈ c.durations, 10 ^ 9 ∣ d.2

structure Config.SameSizes (c c' : Config) : Prop where
  limits : c'.storage.map StorageLocation.limit = c.storage.map StorageLocation.limit
  maxRam : c'.maxRam = c.maxRam
  uploadRateLimit : c'.uploadRateLimit = c.uploadRateLimit
  downloadRateLimit : c'.downloadRateLimit = c.downloadRateLimit
  brokenPieceDiscardBytes : c'.scan.brokenPieceDiscardBytes = c.scan.brokenPieceDiscardBytes
  durations : c'.durations = c.durations

theorem checkLocation_limit {canonicalize : PathBuf → Option PathBuf} {seen out : List PathBuf}
    {l : StorageLocation} (h : checkLocation fmt canonicalize seen l = .ok out) : l.limit ≠ .unset := by
  simp only [checkLocation, except_bind_eq_ok] at h
  obtain ⟨_, -, _, hlimit, -⟩ := h
  exact (of_decide_eq_true (ensure_ok_iff.mp hlimit)).1

theorem foldlM_checkLocation_limit {canonicalize : PathBuf → Option PathBuf} {seen out : List PathBuf}
    {storage : List StorageLocation} (h : storage.foldlM (checkLocation fmt canonicalize) seen = .ok out) :
    ∀ l ∈ storage, l.limit ≠ .unset := by
  induction storage generalizing seen with
  | nil => simp
  | cons l storage ih =>
    rw [List.foldlM_cons] at h
    obtain ⟨seen', hl, hrest⟩ := except_bind_eq_ok.mp h
    exact List.forall_mem_cons.mpr ⟨checkLocation_limit hl, ih hrest⟩

theorem Config.validate_limit {canonicalize : PathBuf → Option PathBuf} {c : Config}
    (h : c.validate fmt canonicalize = .ok ()) : ∀ l ∈ c.storage, l.limit ≠ .unset := by
  simp only [Config.validate, except_bind_eq_ok] at h
  obtain ⟨_, -, _, hstorage, -⟩ := h
  exact foldlM_checkLocation_limit hstorage

theorem Config.toYaml_eq_some {c : Config} {y : Yaml} :
    c.toYaml = some y ↔ ∃ storage maxRam upload download,
      c.storage.mapM StorageLocation.toYaml = some storage ∧ serBytesizeOpt c.maxRam = some maxRam ∧
      serBytesizeOpt c.uploadRateLimit = some upload ∧ serBytesizeOpt c.downloadRateLimit = some download ∧
      y = .map (presentFields (c.fields storage maxRam upload download)) := by
  simp only [Config.toYaml, bind, Option.bind_eq_some_iff]
  constructor
  · rintro ⟨s, hs, m, hm, u, hu, d, hd, ⟨⟩⟩
    exact ⟨s, m, u, d, hs, hm, hu, hd, rfl⟩
  · rintro ⟨s, m, u, d, hs, hm, hu, hd, rfl⟩
    exact ⟨s, hs, m, hm, u, hu, d, hd, rfl⟩

theorem Config.exact_of_reread {c c' : Config} {home : String} {y : Yaml} (range : c.InRange)
    (hy : c.toYaml = some y) (hread : Config.fromYaml lib fmt home y = .ok c') (same : c.SameSizes c') :
    c.Exact := by
  obtain ⟨storage, maxRam, upload, download, hstorage, hmaxRam, hupload, hdownload, rfl⟩ :=
    Config.toYaml_eq_some.mp hy
  obtain ⟨-, -, h3, h4, -, -, -, -, h9, -, h11, h12, h13, -, -⟩ := Config.fromYaml_ok_iff.mp hread
  have hn := c.fields_nodup storage maxRam upload download
  rw [readField_written hn rfl] at h3 h4 h9 h11 h12
  have size : ∀ {n : Nat} {v : Yaml}, n ≤ u64Max → serBytesizeOpt n = some v →
      deBytesizeOpt lib fmt v = .ok n → OneDecimal n := fun hmax hv hd =>
    (deBytesizeOpt_serBytesizeOpt_iff lib fmt hmax).mp (by rw [hv, Option.map_some, hd])
  have hdurations := same.durations
  simp only [Config.durations, List.cons.injEq, Prod.mk.injEq, true_and, and_true] at hdurations
  obtain ⟨e1, e2, e3, e4, e5, e6, e7⟩ := hdurations
  have hscan := scan_durations_iff range.scan h4 (by simp only [ScanConfig.durations, e1, e2, e3, e4, e5, e6])
  have hstats := (readDuration_iff hn rfl range.statsInterval (secs_dvd _)).mp (e7 ▸ h13)
  have hlimits := storage_reread_exact range.storage hstorage h3 same.limits
  refine ⟨fun l hl n hn => ?_, size range.maxRam hmaxRam (same.maxRam ▸ h9),
    size range.uploadRateLimit hupload (same.uploadRateLimit ▸ h11),
    size range.downloadRateLimit hdownload (same.downloadRateLimit ▸ h12), ?_⟩
  · have := hlimits l hl
    rwa [hn] at this
  · simp only [ScanConfig.durations, List.forall_mem_cons, List.not_mem_nil, false_imp_iff, implies_true,
      and_true] at hscan
    obtain ⟨d1, d2, d3, d4, d5, d6⟩ := hscan
    simp only [Config.durations, List.forall_mem_cons, List.not_mem_nil, false_imp_iff, implies_true,
      and_true]
    exact ⟨d1, d2, d3, d4, d5, d6, hstats⟩

theorem deSeq_deString (xs : List String) : deSeq lib (deString lib) (.seq (xs.map .str)) = .ok xs := by
  show (xs.map Yaml.str).mapM (deString lib) = .ok xs
  induction xs with
  | nil => rfl
  | cons x xs ih =>
    rw [List.map_cons, List.mapM_cons, ih]
    rfl

theorem Config.reread_of_exact (lib : YamlLib) (fmt : Formatters) {c : Config} (home : String)
    (range : c.InRange) (exact : c.Exact) (limits : ∀ l ∈ c.storage, l.limit ≠ .unset) :
    ∃ y, c.toYaml = some y ∧ Config.fromYaml lib fmt home y = .ok c := by
  have size : ∀ {n : Nat}, n ≤ u64Max → OneDecimal n →
      ∃ v, serBytesizeOpt n = some v ∧ deBytesizeOpt lib fmt v = .ok n := fun hmax h =>
    Option.map_eq_some_iff.mp ((deBytesizeOpt_serBytesizeOpt_iff lib fmt hmax).mpr h)
  obtain ⟨maxRam, hmaxRam, hm⟩ := size range.maxRam exact.maxRam
  obtain ⟨upload, hupload, hu⟩ := size range.uploadRateLimit exact.uploadRateLimit
  obtain ⟨download, hdownload, hd⟩ := size range.downloadRateLimit exact.downloadRateLimit
  have hlimits : ∀ l ∈ c.storage, LimitExact l.limit := by
    intro l hl
    cases hlim : l.limit with
    | unset => exact absurd hlim (limits l hl)
    | all => trivial
    | bytes n => exact exact.limits l hl n hlim
  obtain ⟨storage, hstorage, hst⟩ := storage_reread_of_exact lib fmt range.storage hlimits
  have hdurations := exact.durations
  simp only [Config.durations, List.forall_mem_cons, List.not_mem_nil, false_imp_iff, implies_true,
    and_true] at hdurations
  obtain ⟨d1, d2, d3, d4, d5, d6, d7⟩ := hdurations
  have hscan : ∀ d ∈ c.scan.durations, 10 ^ 9 ∣ d := by
    simp only [ScanConfig.durations, List.forall_mem_cons, List.not_mem_nil, false_imp_iff, implies_true,
      and_true]
    exact ⟨d1, d2, d3, d4, d5, d6⟩
  refine ⟨_, Config.toYaml_eq_some.mpr ⟨storage, maxRam, upload, download, hstorage, hmaxRam, hupload,
    hdownload, rfl⟩, ?_⟩
  have hn := c.fields_nodup storage maxRam upload download
  have path : ∀ {p : PathBuf}, NormalPath p → dePath lib (.str (pathText p)) = .ok p :=
    fun hp => congrArg Except.ok (pathOf_pathText hp)
  have bounded : ∀ {n bound : Nat} (expected : String), n ≤ bound →
      deBounded lib expected bound (.int n) = .ok n :=
    fun _ hle => if_pos ⟨Int.natCast_nonneg _, by exact_mod_cast hle⟩
  refine Config.fromYaml_ok_iff.mpr ⟨?_, ?_, ?_, ?_, ?_, ?_, ?_, ?_, ?_, ?_, ?_, ?_,
    (readDuration_iff hn rfl range.statsInterval (secs_dvd _)).mpr d7, ?_, ?_⟩
  · exact (readField_written hn rfl _ _).trans (bounded _ range.port)
  · exact (readField_written hn rfl _ _).trans (path range.dataDir)
  · exact (readField_written hn (y := .seq storage) rfl _ _).trans hst
  · exact (readField_written hn rfl _ _).trans (scan_reread_of_exact range.scan hscan)
  · exact readField_written hn (y := .float c.aggressiveness) rfl _ _
  · exact (readField_written hn rfl _ _).trans (deSeq_deString c.keywordBlocklist)
  · exact readField_written hn (y := .bool c.preserveDeletedTorrents) rfl _ _
  · exact (readField_written hn rfl _ _).trans (bounded _ range.catalogCollapsePercent)
  · exact (readField_written hn rfl _ _).trans hm
  · refine (readField_present hn (v := if c.apiKey = "" then none else some (.str c.apiKey)) rfl _ _).trans ?_
    split
    next h => rw [h]; rfl
    next => rfl
  · exact (readField_written hn rfl _ _).trans hu
  · exact (readField_written hn rfl _ _).trans hd
  · exact readField_written hn (y := .bool c.debug) rfl _ _
  · refine (readField_present hn (v := c.logFile.map fun p => .str (pathText p)) rfl _ _).trans ?_
    cases hlog : c.logFile with
    | none => rfl
    | some p =>
      have hp := path (range.logFile p hlog)
      show (dePath lib (.str (pathText p))).map some = _
      rw [hp]
      rfl

/-- The written file, loaded again, has the same sizes and durations. -/
def Config.Reloads (lib : YamlLib) (fmt : Formatters) (canonicalize : PathBuf → Option PathBuf) (c : Config)
    (path : PathBuf) (files : Files) (env : LoadEnv) : Prop :=
  ∃ files' c', c.save lib fmt path files ⟨true, true, true⟩ = some (files', .ok ()) ∧
    (Config.load lib fmt canonicalize files' path env).2 = .ok c' ∧ c.SameSizes c'

theorem Config.mergeKeyFile_eq (c : Config) (files : Files) :
    ∃ k, c.mergeKeyFile files = { c with apiKey := k } := by
  unfold Config.mergeKeyFile
  split
  · exact ⟨c.apiKey, rfl⟩
  · split
    · exact ⟨c.apiKey, rfl⟩
    · split
      · exact ⟨c.apiKey, rfl⟩
      · exact ⟨_, rfl⟩

theorem Config.save_succeeds {c : Config} {path : PathBuf} {files files' : Files} :
    c.save lib fmt path files ⟨true, true, true⟩ = some (files', .ok ()) ↔
      ∃ y before, ({ c with apiKey := "" } : Config).toYaml = some y ∧
        before = (if c.apiKey ≠ "" then
          Function.update files (apiKeyFile c.dataDir) (some (c.apiKey ++ "\n")) else files) ∧
        files' = Function.update before path (some (configHeader ++ lib.emit y)) := by
  simp only [Config.save, Bool.not_true, Bool.false_eq_true, if_false]
  cases ({ c with apiKey := "" } : Config).toYaml with
  | none => simp
  | some y =>
    simp only [and_false, if_false, if_true, Option.some.injEq, Prod.mk.injEq, and_true]
    constructor
    · rintro rfl
      exact ⟨y, _, rfl, rfl, rfl⟩
    · rintro ⟨_, _, rfl, rfl, rfl⟩
      rfl

theorem Config.load_of_text {canonicalize : PathBuf → Option PathBuf} {files : Files} {path : PathBuf}
    {env : LoadEnv} {text : String} (h : files path = some text) :
    (Config.load lib fmt canonicalize files path env).2 =
      ((lib.parse text).bind (Config.fromYaml lib fmt env.home)).bind fun parsed =>
        ((parsed.mergeKeyFile files).validate fmt canonicalize).map fun _ => parsed.mergeKeyFile files := by
  simp only [Config.load, Config.loadInner, h]
  cases (lib.parse text).bind (Config.fromYaml lib fmt env.home) with
  | error message => rfl
  | ok parsed =>
    show ((parsed.mergeKeyFile files).validate fmt canonicalize >>= fun _ =>
      pure (parsed.mergeKeyFile files)) = Except.map _ ((parsed.mergeKeyFile files).validate fmt canonicalize)
    cases (parsed.mergeKeyFile files).validate fmt canonicalize <;> rfl

section Load

variable {canonicalize : PathBuf → Option PathBuf}

/-- The config file as it is written, before any key file is merged into it. -/
def fileConfig (lib : YamlLib) (fmt : Formatters) (files : Files) (home : String) (path : Option PathBuf) :
    Option Config :=
  (path.bind files).bind fun text => ((lib.parse text).bind (Config.fromYaml lib fmt home)).toOption

theorem toOption_eq_some {α : Type} {x : Except String α} {a : α} : x.toOption = some a ↔ x = .ok a := by
  cases x with
  | error message => exact ⟨fun h => (by cases h), fun h => (by cases h)⟩
  | ok b => exact ⟨fun h => congrArg _ (Option.some.inj h), fun h => congrArg _ (Except.ok.inj h)⟩

theorem fileConfig_eq_some {files : Files} {home : String} {path : PathBuf} {parsed : Config} :
    fileConfig lib fmt files home (some path) = some parsed ↔
      ∃ text y, files path = some text ∧ lib.parse text = .ok y ∧
        Config.fromYaml lib fmt home y = .ok parsed := by
  rw [fileConfig, Option.bind_some, Option.bind_eq_some_iff]
  constructor
  · rintro ⟨text, htext, h⟩
    obtain ⟨y, hy, hread⟩ := except_bind_eq_ok.mp (toOption_eq_some.mp h)
    exact ⟨text, y, htext, hy, hread⟩
  · rintro ⟨text, y, htext, hy, hread⟩
    exact ⟨text, htext, toOption_eq_some.mpr (except_bind_eq_ok.mpr ⟨y, hy, hread⟩)⟩

theorem Config.mergeKeyFile_validate (cfg : Config) (files : Files) :
    (cfg.mergeKeyFile files).validate fmt canonicalize = cfg.validate fmt canonicalize := by
  obtain ⟨k, hk⟩ := cfg.mergeKeyFile_eq files
  rw [hk]
  rfl

/-- A path without a file does not load. -/
theorem load_of_missing {files : Files} {path : PathBuf} (env : LoadEnv) (h : files path = none) (cfg : Config) :
    (Config.load lib fmt canonicalize files path env).2 ≠ .ok cfg := by
  intro hload
  rw [Config.load, Config.loadInner, h] at hload
  cases hread : env.readError with
  | notFound =>
    rw [hread] at hload
    by_cases hw : env.starterWritten <;> simp [hw] at hload
  | permissionDenied cause =>
    rw [hread] at hload
    cases hload
  | other cause =>
    rw [hread] at hload
    cases hload

/-- What loads is the file's own configuration, when it is valid, with the key file merged into it. -/
theorem load_ok_iff {files : Files} {path : PathBuf} {env : LoadEnv} {cfg : Config} :
    (Config.load lib fmt canonicalize files path env).2 = .ok cfg ↔
      ∃ parsed, fileConfig lib fmt files env.home (some path) = some parsed ∧
        parsed.validate fmt canonicalize = .ok () ∧ cfg = parsed.mergeKeyFile files := by
  cases htext : files path with
  | none =>
    refine iff_of_false (load_of_missing env htext cfg) ?_
    rintro ⟨parsed, hfile, -⟩
    rw [fileConfig, Option.bind_some, htext] at hfile
    cases hfile
  | some text =>
    rw [Config.load_of_text htext]
    simp only [Config.mergeKeyFile_validate]
    constructor
    · intro h
      obtain ⟨parsed, hparsed, hvalid⟩ := except_bind_eq_ok.mp h
      obtain ⟨y, hy, hread⟩ := except_bind_eq_ok.mp hparsed
      refine ⟨parsed, fileConfig_eq_some.mpr ⟨text, y, htext, hy, hread⟩, ?_⟩
      cases hv : parsed.validate fmt canonicalize with
      | error message =>
        rw [hv] at hvalid
        cases hvalid
      | ok _ =>
        rw [hv] at hvalid
        exact ⟨rfl, (Except.ok.inj hvalid).symm⟩
    · rintro ⟨parsed, hfile, hvalid, rfl⟩
      obtain ⟨_, y, hsame, hy, hread⟩ := fileConfig_eq_some.mp hfile
      obtain rfl := Option.some.inj (htext.symm.trans hsame)
      refine except_bind_eq_ok.mpr ⟨parsed, except_bind_eq_ok.mpr ⟨y, hy, hread⟩, ?_⟩
      rw [hvalid]
      rfl

theorem load_files {files : Files} {path : PathBuf} {env : LoadEnv} {cfg : Config}
    (h : (Config.load lib fmt canonicalize files path env).2 = .ok cfg) :
    (Config.load lib fmt canonicalize files path env).1 = files := by
  cases htext : files path with
  | none => exact absurd h (load_of_missing env htext cfg)
  | some text => simp only [Config.load, Config.loadInner, htext]

end Load

theorem Config.inRange_keyless {c : Config} (h : c.InRange) : ({ c with apiKey := "" } : Config).InRange :=
  ⟨h.port, h.dataDir, h.storage, h.scan, h.catalogCollapsePercent, h.maxRam, h.uploadRateLimit,
    h.downloadRateLimit, h.statsInterval, h.logFile⟩

theorem Config.reloads_exact {canonicalize : PathBuf → Option PathBuf} {c : Config} {path : PathBuf}
    {files : Files} {env : LoadEnv} (range : c.InRange)
    (library : ∀ y, ({ c with apiKey := "" } : Config).toYaml = some y →
      lib.parse (configHeader ++ lib.emit y) = .ok y)
    (h : c.Reloads lib fmt canonicalize path files env) : c.Exact := by
  obtain ⟨files', c', hsave, hload, same⟩ := h
  obtain ⟨y, before, hy, -, rfl⟩ := Config.save_succeeds.mp hsave
  obtain ⟨parsed, hfile, -, rfl⟩ := load_ok_iff.mp hload
  obtain ⟨text, written, htext, hwritten, hread⟩ := fileConfig_eq_some.mp hfile
  rw [Function.update_self] at htext
  obtain rfl := Option.some.inj htext
  obtain rfl := Except.ok.inj ((library y hy).symm.trans hwritten)
  obtain ⟨k, hk⟩ := parsed.mergeKeyFile_eq (Function.update before path (some (configHeader ++ lib.emit y)))
  rw [hk] at same
  have hexact := Config.exact_of_reread (Config.inRange_keyless range) hy hread
    ⟨same.limits, same.maxRam, same.uploadRateLimit, same.downloadRateLimit, same.brokenPieceDiscardBytes,
      same.durations⟩
  exact ⟨hexact.limits, hexact.maxRam, hexact.uploadRateLimit, hexact.downloadRateLimit, hexact.durations⟩

theorem Config.exact_reloads {canonicalize : PathBuf → Option PathBuf} {c : Config} (path : PathBuf)
    (files : Files) (env : LoadEnv) (valid : c.validate fmt canonicalize = .ok ()) (range : c.InRange)
    (library : ∀ y, ({ c with apiKey := "" } : Config).toYaml = some y →
      lib.parse (configHeader ++ lib.emit y) = .ok y) (exact : c.Exact) :
    c.Reloads lib fmt canonicalize path files env := by
  obtain ⟨y, hy, hread⟩ := Config.reread_of_exact lib fmt env.home
    (Config.inRange_keyless range)
    ⟨exact.limits, exact.maxRam, exact.uploadRateLimit, exact.downloadRateLimit, exact.durations⟩
    (Config.validate_limit valid)
  obtain ⟨files', hsave, htext⟩ : ∃ files', c.save lib fmt path files ⟨true, true, true⟩ =
      some (files', .ok ()) ∧ files' path = some (configHeader ++ lib.emit y) :=
    ⟨_, Config.save_succeeds.mpr ⟨y, _, hy, rfl, rfl⟩, Function.update_self _ _ _⟩
  have hload := load_ok_iff.mpr
    ⟨_, fileConfig_eq_some.mpr ⟨_, y, htext, library y hy, hread⟩, show _ = _ from valid, rfl⟩
  obtain ⟨k, hk⟩ := ({ c with apiKey := "" } : Config).mergeKeyFile_eq files'
  rw [hk] at hload
  exact ⟨files', _, hsave, hload, rfl, rfl, rfl, rfl, rfl, rfl⟩

/-- A valid configuration is loaded from its saved file with the same sizes and durations exactly
when every size is a one-decimal multiple of its unit and every duration a number of seconds. -/
theorem Config.reloads_iff (lib : YamlLib) (fmt : Formatters) (canonicalize : PathBuf → Option PathBuf)
    (c : Config) (path : PathBuf) (files : Files) (env : LoadEnv) (range : c.InRange)
    (valid : c.validate fmt canonicalize = .ok ())
    (library : ∀ y, ({ c with apiKey := "" } : Config).toYaml = some y →
      lib.parse (configHeader ++ lib.emit y) = .ok y) :
    (c.Reloads lib fmt canonicalize path files env ↔ c.Exact) ∧
      ∀ n ≤ u64Max, (serLimit (.bytes n)).map (deLimit lib fmt) = some (.ok (.bytes n)) ↔ OneDecimal n :=
  ⟨⟨Config.reloads_exact range library, Config.exact_reloads path files env valid range library⟩,
    fun _ hmax => deLimit_serLimit_iff lib fmt hmax⟩

namespace Reference

def formatters : Formatters where
  debugStr s := "\"" ++ s ++ "\""
  displayF64 _ := "0.5"
  debugDuration d := toString (asSecs d) ++ "s"
  displayPath := pathText

def config (limit : Nat) : Config :=
  { dataDir := ["/", "var"], storage := [⟨["/", "mnt", "a"], .bytes limit⟩] }

def saved (limit : String) : Yaml :=
  .map [("port", .int 37550), ("data_dir", .str "/var"),
    ("storage", .seq [.map [("path", .str "/mnt/a"), ("limit", .str limit)]]),
    ("scan", .map [("rate_limit_per_second", .float (.ofRat (5 / 10))), ("min_seed_margin", .int 4)]),
    ("aggressiveness", .float (.ofRat (6 / 10))), ("keyword_blocklist", .seq []),
    ("preserve_deleted_torrents", .bool false), ("catalog_collapse_percent", .int 30), ("max_ram", .null),
    ("upload_rate_limit", .null), ("download_rate_limit", .null), ("debug", .bool false)]

def savedText (limit : String) : String :=
  "port: 37550\ndata_dir: /var\nstorage:\n- path: /mnt/a\n  limit: " ++ limit ++
  "\nscan:\n  rate_limit_per_second: 0.5\n  min_seed_margin: 4\naggressiveness: 0.6\n" ++
  "keyword_blocklist: []\npreserve_deleted_torrents: false\ncatalog_collapse_percent: 30\n" ++
  "max_ram: null\nupload_rate_limit: null\ndownload_rate_limit: null\ndebug: false\n"

def yaml (limit : String) : YamlLib where
  emit _ := savedText limit
  parse text := if text = configHeader ++ savedText limit then .ok (saved limit) else .error "unexpected text"
  invalid expected _ := "invalid type: expected " ++ expected
  missing field := "missing field " ++ field

theorem config_toYaml {limit : Nat} {text : String} (h : formatByteSize limit = some text) :
    ({ config limit with apiKey := "" } : Config).toYaml = some (saved text) := by
  have hmnt : pathText ["/", "mnt", "a"] = "/mnt/a" := by decide
  have hvar : pathText ["/", "var"] = "/var" := by decide
  refine Config.toYaml_eq_some.mpr ⟨[.map [("path", .str "/mnt/a"), ("limit", .str text)]], .null, .null,
    .null, ?_, rfl, rfl, rfl, ?_⟩
  · simp [config, StorageLocation.toYaml, serLimit, h, hmnt]
  · simp [saved, presentFields, Config.fields, config, ScanConfig.toYaml, ScanConfig.fields, durationField,
      counterField, defaultPort, hvar, defaultRateLimitPerSec, defaultMinSeedMargin, defaultAggressiveness,
      defaultCatalogCollapsePercent]

theorem scan_inRange : ({} : ScanConfig).InRange :=
  ⟨by decide, by decide, by decide, by decide, by decide⟩

theorem config_inRange {limit : Nat} (h : limit ≤ u64Max) : (config limit).InRange where
  port := show 37550 ≤ 2 ^ 16 - 1 by decide
  dataDir := Or.inr ⟨"/", ["var"], rfl, Or.inl rfl, by unfold PlainComponent; decide⟩
  storage := by
    refine List.forall_mem_singleton.mpr ⟨Or.inr ⟨"/", ["mnt", "a"], rfl, Or.inl rfl, ?_⟩, h⟩
    unfold PlainComponent
    decide
  scan := scan_inRange
  catalogCollapsePercent := show 30 ≤ 2 ^ 32 - 1 by decide
  maxRam := Nat.zero_le _
  uploadRateLimit := Nat.zero_le _
  downloadRateLimit := Nat.zero_le _
  statsInterval := show asSecs defaultStatsInterval ≤ u64Max by decide
  logFile := by simp [config]

theorem yaml_parse {limit : Nat} {text : String} (h : formatByteSize limit = some text) (y : Yaml)
    (hy : ({ config limit with apiKey := "" } : Config).toYaml = some y) :
    (yaml text).parse (configHeader ++ (yaml text).emit y) = .ok y := by
  obtain rfl := Option.some.inj ((config_toYaml h).symm.trans hy)
  simp only [yaml, if_true]

def loadEnv : LoadEnv := { home := "/root", readError := .notFound, starterWritten := true }

end Reference

theorem Config.reloads_iff_hundred_gib :
    (Reference.config (100 * 1024 ^ 3)).Reloads (Reference.yaml "100.0GiB") Reference.formatters (fun _ => none)
      ["/", "etc", "keep-at.yaml"] (fun _ => none) Reference.loadEnv := by
  have hformat : formatByteSize (100 * 1024 ^ 3) = some "100.0GiB" := by decide +kernel
  have hdecimal : OneDecimal (100 * 1024 ^ 3) := Or.inr ⟨by norm_num, 1000, by decide +kernel⟩
  refine (Config.reloads_iff (Reference.yaml "100.0GiB") Reference.formatters (fun _ => none)
    (Reference.config (100 * 1024 ^ 3)) ["/", "etc", "keep-at.yaml"] (fun _ => none) Reference.loadEnv
    (Reference.config_inRange (by decide)) (by decide +kernel) (Reference.yaml_parse hformat)).1.mpr
    ⟨?_, Or.inl (by decide), Or.inl (by decide), Or.inl (by decide), by decide⟩
  exact List.forall_mem_singleton.mpr fun n hn => StorageLimit.bytes.inj hn ▸ hdecimal

/-- A limit of 1234567890 bytes is written as 1.1GiB, and comes back 53 MB lower. -/
theorem Config.reloads_loses_bytes :
    let c := Reference.config 1234567890
    c.validate Reference.formatters (fun _ => none) = .ok () ∧
      (serLimit (.bytes 1234567890)).map (deLimit (Reference.yaml "1.1GiB") Reference.formatters) =
        some (.ok (.bytes 1181116006)) ∧
      ¬c.Reloads (Reference.yaml "1.1GiB") Reference.formatters (fun _ => none)
        ["/", "etc", "keep-at.yaml"] (fun _ => none) Reference.loadEnv := by
  have hformat : formatByteSize 1234567890 = some "1.1GiB" := by decide +kernel
  have hparse : StorageLimit.parse Reference.formatters "1.1GiB" = .ok (.bytes 1181116006) := by
    decide +kernel
  refine ⟨by decide +kernel, ?_, fun h => ?_⟩
  · rw [serLimit, hformat, Option.map_some, Option.map_some]
    exact congrArg some hparse
  · have hexact := Config.reloads_exact (Reference.config_inRange (by decide))
      (Reference.yaml_parse hformat) h
    rcases hexact.limits _ List.mem_cons_self 1234567890 rfl with hsmall | ⟨hlt, k, hk⟩
    · norm_num at hsmall
    · have hshown := shownTenths_eq (by norm_num) hlt hk
      have heleven : shownTenths 1234567890 = 11 := by decide +kernel
      rw [← hshown, heleven] at hk
      revert hk
      decide +kernel

end KeepAt
