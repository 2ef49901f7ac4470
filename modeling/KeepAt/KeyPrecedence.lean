import KeepAt.Cli
import KeepAt.ConfigReload

namespace KeepAt

variable {lib : YamlLib} {fmt : Formatters} {canonicalize : PathBuf → Option PathBuf}

/-- The trimmed key file of a data dir, empty when it is missing or blank. -/
def keyFileText (files : Files) (dataDir : PathBuf) : String :=
  match files (apiKeyFile dataDir) with
  | none => ""
  | some k => String.ofList (trim k.toList)

theorem Config.mergeKeyFile_apiKey (cfg : Config) (files : Files) :
    (cfg.mergeKeyFile files).apiKey =
      if cfg.apiKey ≠ "" then cfg.apiKey else keyFileText files cfg.dataDir := by
  unfold Config.mergeKeyFile keyFileText
  by_cases hempty : cfg.apiKey = ""
  · rw [if_neg (not_not.mpr hempty), if_neg (not_not.mpr hempty)]
    cases files (apiKeyFile cfg.dataDir) with
    | none => exact hempty
    | some k =>
      by_cases hblank : trim k.toList = []
      · simp only [hblank, if_true]
        exact hempty
      · simp only [hblank, if_false]
  · rw [if_pos hempty, if_pos hempty]

theorem Config.mergeKeyFile_dataDir (cfg : Config) (files : Files) :
    (cfg.mergeKeyFile files).dataDir = cfg.dataDir := by
  obtain ⟨k, hk⟩ := cfg.mergeKeyFile_eq files
  rw [hk]

namespace ConfigArgs

theorem applyPlain_frame {α β : Type} {flag : Option α} {set : Config → α → Config} {f : Config → β}
    (frame : ∀ c v, f (set c v) = f c) (cfg : Config) : f (applyPlain flag set cfg) = f cfg := by
  cases flag with
  | none => rfl
  | some v => exact frame cfg v

theorem applyBytes_frame {β : Type} {flag : String} {raw : Option String} {floored : Bool}
    {set : Config → Nat → Config} {f : Config → β} {cfg cfg' : Config}
    (h : applyBytes fmt flag raw floored set cfg = .ok cfg') (frame : ∀ c v, f (set c v) = f c) :
    f cfg' = f cfg := by
  cases raw with
  | none => exact congrArg f (Except.ok.inj h).symm
  | some v =>
    simp only [applyBytes, except_bind_eq_ok] at h
    obtain ⟨bytes, -, h⟩ := h
    split at h
    next =>
      obtain ⟨-, -, h⟩ := except_bind_eq_ok.mp h
      exact Except.ok.inj h ▸ frame cfg bytes
    next => exact Except.ok.inj h ▸ frame cfg bytes

/-- Of the flags only `--api-key` touches the key and only `--cfg-data-dir` the data dir. -/
theorem applyTo_ok {args : ConfigArgs} {cfg cfg' : Config} (h : args.applyTo fmt cfg = .ok cfg') :
    cfg'.apiKey = args.apiKey.getD cfg.apiKey ∧ cfg'.dataDir = args.cfgDataDir.getD cfg.dataDir := by
  simp only [applyTo, except_bind_eq_ok] at h
  obtain ⟨c1, h1, c2, h2, c3, h3, c4, h4, hout⟩ := h
  obtain rfl := Except.ok.inj hout
  have key : ∀ {α : Type} {flag : Option α} {set : Config → α → Config},
      (∀ c v, (set c v).apiKey = c.apiKey) → ∀ c, (applyPlain flag set c).apiKey = c.apiKey :=
    fun frame c => applyPlain_frame frame c
  have dir : ∀ {α : Type} {flag : Option α} {set : Config → α → Config},
      (∀ c v, (set c v).dataDir = c.dataDir) → ∀ c, (applyPlain flag set c).dataDir = c.dataDir :=
    fun frame c => applyPlain_frame frame c
  constructor
  · have k1 := applyBytes_frame (f := Config.apiKey) h1 fun _ _ => rfl
    have k2 := applyBytes_frame (f := Config.apiKey) h2 fun _ _ => rfl
    have k3 := applyBytes_frame (f := Config.apiKey) h3 fun _ _ => rfl
    have k4 := applyBytes_frame (f := Config.apiKey) h4 fun _ _ => rfl
    simp only [key, implies_true] at k1 k2 k3 k4 ⊢
    rw [k4, k3, ← k1, ← k2]
    cases args.apiKey <;> rfl
  · have d1 := applyBytes_frame (f := Config.dataDir) h1 fun _ _ => rfl
    have d2 := applyBytes_frame (f := Config.dataDir) h2 fun _ _ => rfl
    have d3 := applyBytes_frame (f := Config.dataDir) h3 fun _ _ => rfl
    have d4 := applyBytes_frame (f := Config.dataDir) h4 fun _ _ => rfl
    simp only [dir, implies_true] at d1 d2 d3 d4 ⊢
    rw [d4, d3, d2, d1]
    cases args.cfgDataDir <;> cases args.port <;> rfl

end ConfigArgs

theorem mapError_eq_ok {α : Type} {x : Except String α} {f : String → String} {a : α}
    (h : x.mapError f = .ok a) : x = .ok a := by
  cases x with
  | error _ => cases h
  | ok _ => exact h

theorem baseConfig_ok {files : Files} {common : CommonArgs} {args : ConfigArgs} {env : LoadEnv}
    {installed : Bool} {cfg : Config}
    (h : (baseConfig lib fmt canonicalize files common args env installed).2 = .ok cfg) :
    (baseConfig lib fmt canonicalize files common args env installed).1 = files ∧
      match fileConfig lib fmt files env.home (chosenConfig common args installed) with
      | none => cfg = { dataDir := defaultDataDir env.home }
      | some parsed => cfg = parsed.mergeKeyFile files := by
  unfold baseConfig at h ⊢
  cases hpath : chosenConfig common args installed with
  | none =>
    rw [hpath] at h
    exact ⟨rfl, (Except.ok.inj h).symm⟩
  | some path =>
    rw [hpath] at h
    have hload := mapError_eq_ok h
    obtain ⟨parsed, hparsed, -, hcfg⟩ := load_ok_iff.mp hload
    rw [hparsed]
    exact ⟨load_files hload, hcfg⟩

theorem resolveStorage_ok {home : String} {args : ConfigArgs} {loaded : Option PathBuf} {cfg cfg' : Config}
    (h : resolveStorage fmt home args loaded cfg = .ok cfg') :
    cfg'.apiKey = cfg.apiKey ∧ cfg'.dataDir = cfg.dataDir := by
  unfold resolveStorage at h
  split at h
  · cases loaded with
    | some path => cases h
    | none =>
      simp only [except_bind_eq_ok] at h
      obtain ⟨locs, -, -, -, h⟩ := h
      obtain rfl := Except.ok.inj h
      exact ⟨rfl, rfl⟩
  · split at h
    · cases h
    · obtain rfl := Except.ok.inj h
      exact ⟨rfl, rfl⟩

/-- The data dir the flags settle on over the one of the config. -/
def finalDataDir (common : CommonArgs) (args : ConfigArgs) (base : PathBuf) : PathBuf :=
  common.dataDir.getD (args.cfgDataDir.getD base)

/-- The flag over the key file over the inline key. -/
def keyByPrecedence (files : Files) (flag : Option String) (inlineKey : String) (dataDir : PathBuf) : String :=
  flag.getD (if keyFileText files dataDir ≠ "" then keyFileText files dataDir else inlineKey)

/-- Where the settings do not pull apart: a passed flag is not empty or there is no key file, an inline key
agrees with the key file, and the key file of the config's own data dir agrees with the final one's. -/
def KeySettingsAgree (files : Files) (flag : Option String) (file : Option Config) (dataDir : PathBuf) : Prop :=
  match flag, file with
  | some key, _ => key ≠ "" ∨ keyFileText files dataDir = ""
  | none, none => True
  | none, some c =>
    if c.apiKey ≠ "" then keyFileText files dataDir = "" ∨ keyFileText files dataDir = c.apiKey
    else keyFileText files c.dataDir = "" ∨ keyFileText files c.dataDir = keyFileText files dataDir

theorem finishConfig_ok {files : Files} {common : CommonArgs} {args : ConfigArgs} {home : String}
    {loaded : Option PathBuf} {base cfg : Config}
    (h : finishConfig fmt canonicalize files common args home loaded base = .ok cfg) :
    cfg.dataDir = finalDataDir common args base.dataDir ∧
      cfg.apiKey = if args.apiKey.getD base.apiKey ≠ "" then args.apiKey.getD base.apiKey
        else keyFileText files cfg.dataDir := by
  simp only [finishConfig, except_bind_eq_ok] at h
  obtain ⟨applied, happly, stored, hstore, _, -, h⟩ := h
  obtain rfl := Except.ok.inj h
  obtain ⟨hkey, hdir⟩ := ConfigArgs.applyTo_ok happly
  obtain ⟨hkept, hsame⟩ := resolveStorage_ok hstore
  rw [Config.mergeKeyFile_dataDir] at hsame
  have hroot : (ConfigArgs.applyPlain common.dataDir (fun c v => { c with dataDir := v }) applied).apiKey =
      applied.apiKey := by cases common.dataDir <;> rfl
  rw [Config.mergeKeyFile_apiKey, ← hsame, hroot, hkey] at hkept
  refine ⟨hsame.trans ?_, hkept⟩
  rw [finalDataDir, ← hdir]
  cases common.dataDir <;> rfl

/-- What `resolve` makes of the key and the data dir. -/
theorem resolve_ok {files : Files} {common : CommonArgs} {args : ConfigArgs} {env : LoadEnv}
    {installed : Bool} {cfg : Config}
    (h : (resolve lib fmt canonicalize files common args env installed).2 = .ok cfg) :
    ∃ base, (baseConfig lib fmt canonicalize files common args env installed).2 = .ok base ∧
      cfg.dataDir = finalDataDir common args base.dataDir ∧
      cfg.apiKey = if args.apiKey.getD base.apiKey ≠ "" then args.apiKey.getD base.apiKey
        else keyFileText files cfg.dataDir := by
  obtain ⟨base, hbase, h⟩ := except_bind_eq_ok.mp h
  have hfinish := finishConfig_ok h
  rw [(baseConfig_ok hbase).1] at hfinish
  exact ⟨base, hbase, hfinish⟩

/-- The key `resolve` returns is the flag's, else the key file's, else the inline one, exactly where the
settings agree. -/
theorem resolve_key_precedence_iff {files : Files} {common : CommonArgs} {args : ConfigArgs} {env : LoadEnv}
    {installed : Bool} {cfg : Config}
    (h : (resolve lib fmt canonicalize files common args env installed).2 = .ok cfg) :
    (cfg.dataDir = finalDataDir common args
      (((fileConfig lib fmt files env.home (chosenConfig common args installed)).map Config.dataDir).getD
        (defaultDataDir env.home))) ∧
    (cfg.apiKey = keyByPrecedence files args.apiKey
        (((fileConfig lib fmt files env.home (chosenConfig common args installed)).map Config.apiKey).getD "")
        cfg.dataDir ↔
      KeySettingsAgree files args.apiKey
        (fileConfig lib fmt files env.home (chosenConfig common args installed)) cfg.dataDir) := by
  obtain ⟨base, hbase, hdir, hkey⟩ := resolve_ok h
  obtain ⟨-, hfile⟩ := baseConfig_ok hbase
  cases hf : fileConfig lib fmt files env.home (chosenConfig common args installed) with
  | none =>
    rw [hf] at hfile
    subst hfile
    refine ⟨hdir, ?_⟩
    rw [hkey]
    cases args.apiKey with
    | none => simp [keyByPrecedence, KeySettingsAgree]
    | some key => by_cases hk : key = "" <;> simp [keyByPrecedence, KeySettingsAgree, hk]
  | some parsed =>
    rw [hf] at hfile
    subst hfile
    refine ⟨hdir.trans (by rw [Config.mergeKeyFile_dataDir]; rfl), ?_⟩
    rw [hkey]
    cases args.apiKey with
    | some key => by_cases hk : key = "" <;> simp [keyByPrecedence, KeySettingsAgree, hk]
    | none =>
      rw [Option.getD_none, Config.mergeKeyFile_apiKey]
      by_cases hinline : parsed.apiKey = "" <;> by_cases hfinal : keyFileText files cfg.dataDir = ""
      · by_cases hown : keyFileText files parsed.dataDir = "" <;>
          simp [keyByPrecedence, KeySettingsAgree, hinline, hown, hfinal]
      · by_cases hown : keyFileText files parsed.dataDir = "" <;>
          simp [keyByPrecedence, KeySettingsAgree, hinline, hown, hfinal]
      · simp [keyByPrecedence, KeySettingsAgree, hinline, hfinal]
      · simp [keyByPrecedence, KeySettingsAgree, hinline, hfinal, eq_comm]

namespace Reference

/-- A small config file of its own data dir, with an inline key when one is given. -/
def keyedYaml (key : Option String) : Yaml :=
  .map ([("data_dir", .str "/var"),
    ("storage", .seq [.map [("path", .str "/mnt/a"), ("limit", .str "max")]])] ++
    (key.map fun k => ("api_key", .str k)).toList)

def keyedText : String := "data_dir: /var\nstorage:\n- path: /mnt/a\n  limit: max\napi_key: INLINE\n"

def keyedLib : YamlLib where
  emit _ := keyedText
  parse text := if text = keyedText then .ok (keyedYaml (some "INLINE")) else .error "unexpected text"
  invalid expected _ := "invalid type: expected " ++ expected
  missing field := "missing field " ++ field

def keyedConfig (key : String) : Config :=
  { dataDir := ["/", "var"], storage := [⟨["/", "mnt", "a"], .all⟩], apiKey := key }

def configPath : PathBuf := ["/", "etc", "keep-at.yaml"]

def keyedFiles (keyFile : Option String) : Files :=
  Function.update (Function.update (fun _ => none) configPath (some keyedText)) (apiKeyFile ["/", "var"]) keyFile

theorem keyedLib_parse : keyedLib.parse keyedText = .ok (keyedYaml (some "INLINE")) := by
  simp only [keyedLib, if_true]

theorem keyedYaml_reads :
    Config.fromYaml keyedLib formatters "/root" (keyedYaml (some "INLINE")) = .ok (keyedConfig "INLINE") := by
  decide +kernel

theorem keyedConfig_valid : (keyedConfig "INLINE").validate formatters (fun _ => none) = .ok () := by
  decide +kernel

theorem keyed_text (keyFile : Option String) : keyedFiles keyFile configPath = some keyedText := by
  rw [keyedFiles, Function.update_of_ne (by decide), Function.update_self]

theorem keyed_fileConfig (keyFile : Option String) :
    fileConfig keyedLib formatters (keyedFiles keyFile) loadEnv.home
      (chosenConfig { config := some configPath } {} false) = some (keyedConfig "INLINE") :=
  fileConfig_eq_some.mpr ⟨_, _, keyed_text keyFile, keyedLib_parse, keyedYaml_reads⟩

theorem keyed_resolves (keyFile : Option String) :
    (resolve keyedLib formatters (fun _ => none) (keyedFiles keyFile) { config := some configPath } {} loadEnv
      false).2 = .ok (keyedConfig "INLINE") := by
  have hload : (Config.load keyedLib formatters (fun _ => none) (keyedFiles keyFile) configPath loadEnv).2 =
      .ok (keyedConfig "INLINE") :=
    load_ok_iff.mpr ⟨_, keyed_fileConfig keyFile, keyedConfig_valid, rfl⟩
  have hbase : (baseConfig keyedLib formatters (fun _ => none) (keyedFiles keyFile)
      { config := some configPath } {} loadEnv false).2 = .ok (keyedConfig "INLINE") := by
    show ((Config.load keyedLib formatters (fun _ => none) (keyedFiles keyFile) configPath loadEnv).2).mapError
      _ = _
    rw [hload]
    rfl
  show ((baseConfig keyedLib formatters (fun _ => none) (keyedFiles keyFile)
      { config := some configPath } {} loadEnv false).2).bind _ = _
  rw [hbase]
  show ((keyedConfig "INLINE").validate formatters (fun _ => none) >>= fun _ => .ok (keyedConfig "INLINE")) = _
  rw [keyedConfig_valid]
  rfl

end Reference

/-- Without a key file the inline key is the key. -/
theorem resolve_key_precedence_inline :
    (Reference.keyedConfig "INLINE").apiKey =
      keyByPrecedence (Reference.keyedFiles none) none "INLINE" ["/", "var"] := by
  have hiff := (resolve_key_precedence_iff (Reference.keyed_resolves none)).2
  rw [Reference.keyed_fileConfig] at hiff
  exact hiff.mpr (.inl (by decide))

/-- With an inline key and a key file in the config's own data dir, the inline one is used. -/
theorem resolve_prefers_inline_key :
    (resolve Reference.keyedLib Reference.formatters (fun _ => none) (Reference.keyedFiles (some "FILE\n"))
      { config := some Reference.configPath } {} Reference.loadEnv false).2 =
        .ok (Reference.keyedConfig "INLINE") ∧
    keyByPrecedence (Reference.keyedFiles (some "FILE\n")) none "INLINE"
      (Reference.keyedConfig "INLINE").dataDir = "FILE" ∧
    (Reference.keyedConfig "INLINE").apiKey ≠ keyByPrecedence (Reference.keyedFiles (some "FILE\n")) none
      (((fileConfig Reference.keyedLib Reference.formatters (Reference.keyedFiles (some "FILE\n"))
        Reference.loadEnv.home (chosenConfig { config := some Reference.configPath } {} false)).map
          Config.apiKey).getD "") (Reference.keyedConfig "INLINE").dataDir := by
  have hfile : keyByPrecedence (Reference.keyedFiles (some "FILE\n")) none "INLINE"
      (Reference.keyedConfig "INLINE").dataDir = "FILE" := by decide
  refine ⟨Reference.keyed_resolves _, hfile, ?_⟩
  rw [Reference.keyed_fileConfig]
  intro heq
  have hinline : (Reference.keyedConfig "INLINE").apiKey = "FILE" := heq.trans hfile
  exact absurd hinline (by decide)

end KeepAt
