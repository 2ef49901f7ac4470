import KeepAt.ConfigReread
import KeepAt.KeyPrecedence
import Mathlib.Data.List.DropRight

namespace KeepAt

variable {lib : YamlLib} {fmt : Formatters} {canonicalize : PathBuf → Option PathBuf}

theorem trim_idempotent (s : List Char) : trim (trim s) = trim s := by
  have hhead : (trim s).dropWhile isWhiteSpace = trim s := by
    refine List.dropWhile_eq_self_iff.mpr fun hpos => ?_
    have hkept : trim s <+: s.dropWhile isWhiteSpace := List.rdropWhile_prefix isWhiteSpace _
    have hget := List.dropWhile_get_zero_not isWhiteSpace s (hpos.trans_le hkept.length_le)
    rw [hkept.getElem hpos]
    exact hget
  calc trim (trim s) = ((trim s).dropWhile isWhiteSpace).rdropWhile isWhiteSpace := rfl
    _ = ((s.dropWhile isWhiteSpace).rdropWhile isWhiteSpace).rdropWhile isWhiteSpace := by rw [hhead]; rfl
    _ = trim s := List.rdropWhile_idempotent isWhiteSpace _

theorem trim_newline (s : List Char) : trim (s ++ ['\n']) = trim s := by
  have hnl : isWhiteSpace '\n' = true := by decide
  show ((s ++ ['\n']).dropWhile isWhiteSpace).rdropWhile isWhiteSpace = _
  rw [List.dropWhile_append]
  split
  next hempty =>
    have hnil := List.isEmpty_iff.mp hempty
    rw [List.dropWhile_cons_of_pos hnl, trim, hnil]
    rfl
  next => exact List.rdropWhile_concat_pos isWhiteSpace _ _ hnl

theorem keyFileText_trimmed (files : Files) (dataDir : PathBuf) :
    trim (keyFileText files dataDir).toList = (keyFileText files dataDir).toList := by
  unfold keyFileText
  cases files (apiKeyFile dataDir) with
  | none => rfl
  | some k => simp only [String.toList_ofList, trim_idempotent]

theorem keyFileText_written {files : Files} {dataDir : PathBuf} {key : String}
    (h : files (apiKeyFile dataDir) = some (key ++ "\n")) :
    keyFileText files dataDir = String.ofList (trim key.toList) := by
  rw [keyFileText, h]
  show String.ofList (trim (key ++ "\n").toList) = _
  rw [String.toList_append]
  exact congrArg String.ofList (trim_newline key.toList)

/-- Loading the path yields a configuration of this key. -/
def LoadsKey (lib : YamlLib) (fmt : Formatters) (canonicalize : PathBuf → Option PathBuf) (path : PathBuf)
    (env : LoadEnv) (key : String) (files : Files) : Prop :=
  ∃ cfg, (Config.load lib fmt canonicalize files path env).2 = .ok cfg ∧ cfg.apiKey = key

theorem loadsKey_iff {path : PathBuf} {env : LoadEnv} {key : String} {files : Files} :
    LoadsKey lib fmt canonicalize path env key files ↔
      ∃ parsed, fileConfig lib fmt files env.home (some path) = some parsed ∧
        parsed.validate fmt canonicalize = .ok () ∧
        (if parsed.apiKey ≠ "" then parsed.apiKey else keyFileText files parsed.dataDir) = key := by
  constructor
  · rintro ⟨cfg, hload, hkey⟩
    obtain ⟨parsed, hfile, hvalid, rfl⟩ := load_ok_iff.mp hload
    exact ⟨parsed, hfile, hvalid, by rw [← Config.mergeKeyFile_apiKey, hkey]⟩
  · rintro ⟨parsed, hfile, hvalid, hkey⟩
    exact ⟨_, load_ok_iff.mpr ⟨parsed, hfile, hvalid, rfl⟩, by rw [Config.mergeKeyFile_apiKey, hkey]⟩

/-- The disk once the key file is written. -/
def Config.keyed (cfg : Config) (files : Files) : Files :=
  if cfg.apiKey ≠ "" then Function.update files (apiKeyFile cfg.dataDir) (some (cfg.apiKey ++ "\n")) else files

/-- The disk once the config file is written as well. -/
def Config.saved (lib : YamlLib) (cfg : Config) (path : PathBuf) (files : Files) (y : Yaml) : Files :=
  Function.update (cfg.keyed files) path (some (configHeader ++ lib.emit y))

/-- The disk after each atomic write of `save`: whatever stops it leaves one of these. -/
def Config.saveStates (lib : YamlLib) (cfg : Config) (path : PathBuf) (files : Files) : List Files :=
  files :: cfg.keyed files ::
    (({ cfg with apiKey := "" } : Config).toYaml.map (cfg.saved lib path files)).toList

/-- What `save` returns with is one of its states, the last one when it succeeds. -/
theorem Config.save_mem_saveStates {cfg : Config} {path : PathBuf} {files left : Files} {env : SaveEnv}
    {r : Except String Unit} (h : cfg.save lib fmt path files env = some (left, r)) :
    left ∈ cfg.saveStates lib path files ∧ (r = .ok () →
      ∃ y, ({ cfg with apiKey := "" } : Config).toYaml = some y ∧ left = cfg.saved lib path files y) := by
  unfold Config.save at h
  split at h
  next =>
    obtain ⟨rfl, rfl⟩ := Prod.mk.inj (Option.some.inj h)
    exact ⟨List.mem_cons_self, fun hok => by cases hok⟩
  next =>
    split at h
    next =>
      obtain ⟨rfl, rfl⟩ := Prod.mk.inj (Option.some.inj h)
      exact ⟨List.mem_cons_self, fun hok => by cases hok⟩
    next =>
      cases hy : ({ cfg with apiKey := "" } : Config).toYaml with
      | none =>
        rw [hy] at h
        cases h
      | some y =>
        rw [hy] at h
        have h : (if env.written = true then some (cfg.saved lib path files y, .ok ())
          else some (cfg.keyed files, .error ("writing " ++ fmt.displayPath path))) = some (left, r) := h
        by_cases hw : env.written = true
        · rw [if_pos hw] at h
          obtain ⟨rfl, rfl⟩ := Prod.mk.inj (Option.some.inj h)
          refine ⟨?_, fun _ => ⟨y, rfl, rfl⟩⟩
          rw [Config.saveStates, hy]
          exact List.mem_cons_of_mem _ (List.mem_cons_of_mem _ List.mem_cons_self)
        · rw [if_neg hw] at h
          obtain ⟨rfl, rfl⟩ := Prod.mk.inj (Option.some.inj h)
          exact ⟨List.mem_cons_of_mem _ List.mem_cons_self, fun hok => by cases hok⟩

/-- Every state is one `save` stops in: it returns there, or dies there rendering a size. -/
theorem Config.saveStates_reached (lib : YamlLib) (fmt : Formatters) (cfg : Config) (path : PathBuf)
    (files : Files) : ∀ left ∈ cfg.saveStates lib path files,
      (∃ env r, cfg.save lib fmt path files env = some (left, r)) ∨
        left = cfg.keyed files ∧ cfg.save lib fmt path files ⟨true, true, true⟩ = none := by
  intro left hleft
  rcases List.mem_cons.mp hleft with rfl | hleft
  · exact .inl ⟨⟨false, false, false⟩, _, rfl⟩
  cases hy : ({ cfg with apiKey := "" } : Config).toYaml with
  | none =>
    have hnone : cfg.save lib fmt path files ⟨true, true, true⟩ = none := by simp [Config.save, hy]
    rw [hy] at hleft
    exact .inr ⟨List.mem_singleton.mp hleft, hnone⟩
  | some y =>
    rw [hy] at hleft
    rcases List.mem_cons.mp hleft with rfl | hleft
    · exact .inl ⟨⟨true, true, false⟩, .error ("writing " ++ fmt.displayPath path),
        by simp [Config.save, hy, Config.keyed]⟩
    · obtain rfl := List.mem_singleton.mp hleft
      exact .inl ⟨⟨true, true, true⟩, .ok (), by simp [Config.save, hy, Config.keyed, Config.saved]⟩

theorem trim_key_of_keyFile {files : Files} {dataDir : PathBuf} {key : String}
    (h : keyFileText files dataDir = key) : String.ofList (trim key.toList) = key := by
  rw [← h, keyFileText_trimmed, String.ofList_toList]

/-- Writing the key file keeps the key, wherever the config file took it from. -/
theorem LoadsKey.keyed {cfg : Config} {path : PathBuf} {env : LoadEnv} {files : Files}
    (apart : path ≠ apiKeyFile cfg.dataDir)
    (prior : LoadsKey lib fmt canonicalize path env cfg.apiKey files) :
    LoadsKey lib fmt canonicalize path env cfg.apiKey (cfg.keyed files) := by
  obtain ⟨parsed, hfile, hvalid, hkey⟩ := loadsKey_iff.mp prior
  unfold Config.keyed
  split
  next hset =>
    refine loadsKey_iff.mpr ⟨parsed, ?_, hvalid, ?_⟩
    · rw [← hfile, fileConfig, fileConfig, Option.bind_some, Option.bind_some, Function.update_of_ne apart]
    split at hkey
    next hinline => rw [if_pos hinline, hkey]
    next hblank =>
      rw [if_neg hblank]
      by_cases hsame : apiKeyFile parsed.dataDir = apiKeyFile cfg.dataDir
      · rw [keyFileText_written (by rw [hsame, Function.update_self]), trim_key_of_keyFile hkey]
      · rw [← hkey, keyFileText, Function.update_of_ne hsame]
        rfl
  next => exact prior

theorem saved_fileConfig {cfg : Config} {path : PathBuf} {home : String} {files : Files} {y : Yaml}
    (hparse : lib.parse (configHeader ++ lib.emit y) = .ok y) (parsed : Config) :
    fileConfig lib fmt (cfg.saved lib path files y) home (some path) = some parsed ↔
      Config.fromYaml lib fmt home y = .ok parsed := by
  rw [fileConfig_eq_some, Config.saved, Function.update_self]
  constructor
  · rintro ⟨text, written, htext, hwritten, hread⟩
    obtain rfl := Option.some.inj htext
    obtain rfl := Except.ok.inj (hparse.symm.trans hwritten)
    exact hread
  · intro hread
    exact ⟨_, y, rfl, hparse, hread⟩

/-- What is read back of a saved configuration takes its key from the key file, trimmed. -/
theorem saved_key {cfg parsed : Config} {path : PathBuf} {files : Files} {y : Yaml} {text : String}
    (hfile : cfg.saved lib path files y (apiKeyFile cfg.dataDir) = some text)
    (reads : ({ cfg with apiKey := "" } : Config).ReadsAs fmt parsed) :
    (if parsed.apiKey ≠ "" then parsed.apiKey
      else keyFileText (cfg.saved lib path files y) parsed.dataDir) = String.ofList (trim text.toList) := by
  rw [if_neg (not_not.mpr reads.apiKey), reads.dataDir]
  show keyFileText (cfg.saved lib path files y) cfg.dataDir = _
  rw [keyFileText, hfile]

/-- The key file of a save that has one of its own. -/
theorem saved_apart {cfg : Config} {path : PathBuf} (files : Files) (y : Yaml)
    (apart : path ≠ apiKeyFile cfg.dataDir) (hkey : cfg.apiKey ≠ "") :
    cfg.saved lib path files y (apiKeyFile cfg.dataDir) = some (cfg.apiKey ++ "\n") := by
  rw [Config.saved, Function.update_of_ne apart.symm, Config.keyed, if_pos hkey, Function.update_self]

/-- The keyless configuration is read back from its text, and is valid as it is read. -/
def Config.RereadValid (fmt : Formatters) (canonicalize : PathBuf → Option PathBuf) (cfg : Config) : Prop :=
  ∃ read, ({ cfg with apiKey := "" } : Config).ReadsAs fmt read ∧ read.validate fmt canonicalize = .ok ()

/-- A valid configuration stays valid unless a size is out of the range its text can show. -/
theorem Config.rereadValid_iff (lib : YamlLib) {cfg : Config}
    (valid : cfg.validate fmt canonicalize = .ok ()) (range : cfg.InRange) :
    cfg.RereadValid fmt canonicalize ↔ ∀ n ∈ cfg.sizes, n < 2 ^ 63 := by
  have hrange := Config.inRange_keyless range
  constructor
  · rintro ⟨read, reads, -⟩
    exact (reads.written hrange).2
  · intro hsmall
    obtain ⟨_, read, -, -, reads⟩ := Config.read_of_sizes_lt lib fmt "" hrange rfl
      (Config.validate_limit (c := cfg) valid) hsmall
    exact ⟨read, reads, reads.validate valid⟩

/-- The saved file gives the key back exactly when the text of the key file is the key, trimmed, and the rest is
valid as it is read. -/
theorem loadsKey_saved_iff {cfg : Config} {path : PathBuf} {env : LoadEnv} {files : Files} {y : Yaml}
    {text : String} (hfile : cfg.saved lib path files y (apiKeyFile cfg.dataDir) = some text) (range : cfg.InRange)
    (hy : ({ cfg with apiKey := "" } : Config).toYaml = some y)
    (hparse : lib.parse (configHeader ++ lib.emit y) = .ok y) :
    LoadsKey lib fmt canonicalize path env cfg.apiKey (cfg.saved lib path files y) ↔
      trim text.toList = cfg.apiKey.toList ∧ cfg.RereadValid fmt canonicalize := by
  have hrange := Config.inRange_keyless range
  simp only [loadsKey_iff, saved_fileConfig hparse]
  constructor
  · rintro ⟨parsed, hfrom, hvalid, hloaded⟩
    obtain ⟨hset, hsmall⟩ := Config.sizes_lt_of_read hrange hy hfrom
    obtain ⟨y', read, hy', hfrom', reads⟩ := Config.read_of_sizes_lt lib fmt env.home hrange rfl hset hsmall
    obtain rfl := Option.some.inj (hy.symm.trans hy')
    obtain rfl := Except.ok.inj (hfrom.symm.trans hfrom')
    refine ⟨?_, parsed, reads, hvalid⟩
    rw [saved_key hfile reads] at hloaded
    rw [← hloaded, String.toList_ofList]
  · rintro ⟨htrim, read, reads, hvalid⟩
    obtain ⟨hset, hsmall⟩ := reads.written hrange
    obtain ⟨y', parsed, hy', hfrom, reads'⟩ := Config.read_of_sizes_lt lib fmt env.home hrange rfl hset hsmall
    obtain rfl := Option.some.inj (hy.symm.trans hy')
    obtain rfl := reads.unique reads'
    refine ⟨read, hfrom, hvalid, ?_⟩
    rw [saved_key hfile reads, htrim, String.ofList_toList]

/-- Whatever stops `save` the path still loads the key, and the file of a finished `save` has no key in it. -/
def Config.KeepsKey (lib : YamlLib) (fmt : Formatters) (canonicalize : PathBuf → Option PathBuf) (cfg : Config)
    (path : PathBuf) (env : LoadEnv) (files : Files) : Prop :=
  (∀ left ∈ cfg.saveStates lib path files, LoadsKey lib fmt canonicalize path env cfg.apiKey left) ∧
    ∀ saveEnv left, cfg.save lib fmt path files saveEnv = some (left, .ok ()) →
      ∃ fields, (left path).map lib.parse = some (.ok (.map fields)) ∧ fields.lookup "api_key" = none

theorem Config.toYaml_keyless {cfg : Config} {y : Yaml}
    (hy : ({ cfg with apiKey := "" } : Config).toYaml = some y) :
    ∃ fields, y = .map fields ∧ fields.lookup "api_key" = none := by
  obtain ⟨storage, maxRam, upload, download, -, -, -, -, rfl⟩ := Config.toYaml_eq_some.mp hy
  exact ⟨_, rfl, lookup_presentFields (Config.fields_nodup _ storage maxRam upload download) "api_key"⟩

/-- Saving keeps the key exactly when the key is trimmed and the rest is valid as it is read back, or when a
size of 2^63 keeps the config file from being rendered at all. Where the config file is the key file itself, only
when the key is the text of the saved config file and loads as one. -/
theorem Config.save_keeps_key_iff (lib : YamlLib) (fmt : Formatters)
    (canonicalize : PathBuf → Option PathBuf) (cfg : Config) (path : PathBuf) (env : LoadEnv) (files : Files)
    (hkey : cfg.apiKey ≠ "") (range : cfg.InRange)
    (library : ∀ y, ({ cfg with apiKey := "" } : Config).toYaml = some y →
      lib.parse (configHeader ++ lib.emit y) = .ok y)
    (prior : LoadsKey lib fmt canonicalize path env cfg.apiKey files) :
    (path ≠ apiKeyFile cfg.dataDir →
      (cfg.KeepsKey lib fmt canonicalize path env files ↔
        2 ^ 63 ∈ cfg.sizes ∨
          trim cfg.apiKey.toList = cfg.apiKey.toList ∧ cfg.RereadValid fmt canonicalize)) ∧
    (path = apiKeyFile cfg.dataDir → (cfg.KeepsKey lib fmt canonicalize path env files ↔
      LoadsKey lib fmt canonicalize path env cfg.apiKey
        (Function.update files path (some (cfg.apiKey ++ "\n"))) ∧
      ∀ y, ({ cfg with apiKey := "" } : Config).toYaml = some y →
        trim (configHeader ++ lib.emit y).toList = cfg.apiKey.toList ∧ cfg.RereadValid fmt canonicalize)) ∧
    (cfg.validate fmt canonicalize = .ok () →
      (cfg.RereadValid fmt canonicalize ↔ ∀ n ∈ cfg.sizes, n < 2 ^ 63)) := by
  have hnone := Config.toYaml_eq_none_iff (Config.inRange_keyless range)
  have hkeyless : ∀ saveEnv left, cfg.save lib fmt path files saveEnv = some (left, .ok ()) →
      ∃ fields, (left path).map lib.parse = some (.ok (.map fields)) ∧ fields.lookup "api_key" = none := by
    intro saveEnv left hsave
    obtain ⟨y, hy, rfl⟩ := (Config.save_mem_saveStates hsave).2 rfl
    obtain ⟨fields, rfl, hlookup⟩ := Config.toYaml_keyless hy
    exact ⟨fields, by rw [Config.saved, Function.update_self, Option.map_some, library _ hy], hlookup⟩
  refine ⟨fun apart => ?_, fun hsame => ?_, fun valid => Config.rereadValid_iff lib valid range⟩
  · cases hy : ({ cfg with apiKey := "" } : Config).toYaml with
    | none =>
      refine iff_of_true ⟨?_, hkeyless⟩ (.inl (hnone.mp hy))
      rw [Config.saveStates, hy]
      exact List.forall_mem_cons.mpr ⟨prior, List.forall_mem_singleton.mpr (prior.keyed apart)⟩
    | some y =>
      have hnot : 2 ^ 63 ∉ cfg.sizes := fun hmem => by
        rw [hnone.mpr hmem] at hy
        cases hy
      have htrim : trim (cfg.apiKey ++ "\n").toList = trim cfg.apiKey.toList := by
        rw [String.toList_append]
        exact trim_newline cfg.apiKey.toList
      have hsaved := @loadsKey_saved_iff lib fmt canonicalize cfg path env files y _
        (saved_apart files y apart hkey) range hy (library y hy)
      rw [htrim] at hsaved
      rw [or_iff_right hnot, ← hsaved, Config.KeepsKey, Config.saveStates, hy]
      constructor
      · rintro ⟨hall, -⟩
        exact hall _ (List.mem_cons_of_mem _ (List.mem_cons_of_mem _ List.mem_cons_self))
      · intro hlast
        exact ⟨List.forall_mem_cons.mpr ⟨prior, List.forall_mem_cons.mpr
          ⟨prior.keyed apart, List.forall_mem_singleton.mpr hlast⟩⟩, hkeyless⟩
  · have hkeyed : cfg.keyed files = Function.update files path (some (cfg.apiKey ++ "\n")) := by
      rw [Config.keyed, if_pos hkey, ← hsame]
    have hsaved : ∀ y, ({ cfg with apiKey := "" } : Config).toYaml = some y →
        (LoadsKey lib fmt canonicalize path env cfg.apiKey (cfg.saved lib path files y) ↔
          trim (configHeader ++ lib.emit y).toList = cfg.apiKey.toList ∧ cfg.RereadValid fmt canonicalize) :=
      fun y hy => loadsKey_saved_iff (by rw [← hsame, Config.saved, Function.update_self]) range hy (library y hy)
    rw [← hkeyed, Config.KeepsKey, Config.saveStates]
    constructor
    · rintro ⟨hall, -⟩
      refine ⟨hall _ (List.mem_cons_of_mem _ List.mem_cons_self), fun y hy => (hsaved y hy).mp (hall _ ?_)⟩
      rw [hy]
      exact List.mem_cons_of_mem _ (List.mem_cons_of_mem _ List.mem_cons_self)
    · rintro ⟨hfirst, hlast⟩
      refine ⟨List.forall_mem_cons.mpr ⟨prior, List.forall_mem_cons.mpr ⟨hfirst, fun left hleft => ?_⟩⟩, hkeyless⟩
      obtain ⟨y, hy, rfl⟩ := Option.map_eq_some_iff.mp (Option.mem_toList.mp hleft)
      exact (hsaved y hy).mpr (hlast y hy)

namespace Reference

def inlineText : String := savedText "100.0GiB" ++ "api_key: 'KEY '\n"

def savedFields : Yaml → List (String × Yaml)
  | .map fields => fields
  | _ => []

/-- The parser of the saved file that also knows the same file with an inline key. -/
def inlineYaml : YamlLib where
  emit _ := savedText "100.0GiB"
  parse text :=
    if text = inlineText then .ok (.map (savedFields (saved "100.0GiB") ++ [("api_key", .str "KEY ")]))
    else (yaml "100.0GiB").parse text
  invalid expected _ := "invalid type: expected " ++ expected
  missing field := "missing field " ++ field

def withKey (key : String) : Config := { config (100 * 1024 ^ 3) with apiKey := key }

def filesWith (text : String) (keyFile : Option String) : Files :=
  Function.update (Function.update (fun _ => none) configPath (some text)) (apiKeyFile ["/", "var"]) keyFile

theorem filesWith_config (text : String) (keyFile : Option String) :
    filesWith text keyFile configPath = some text := by
  rw [filesWith, Function.update_of_ne (by decide), Function.update_self]

theorem withKey_valid (key : String) : (withKey key).validate formatters (fun _ => none) = .ok () := by
  have hvalid : (config (100 * 1024 ^ 3)).validate formatters (fun _ => none) = .ok () := by decide +kernel
  exact hvalid

theorem withKey_inRange (key : String) : (withKey key).InRange := by
  have h : (config (100 * 1024 ^ 3)).InRange := config_inRange (by decide)
  exact ⟨h.port, h.dataDir, h.storage, h.scan, h.catalogCollapsePercent, h.maxRam, h.uploadRateLimit,
    h.downloadRateLimit, h.statsInterval, h.logFile⟩

theorem saved_ne_inline : configHeader ++ savedText "100.0GiB" ≠ inlineText := by decide +kernel

theorem inlineYaml_parse_saved :
    inlineYaml.parse (configHeader ++ savedText "100.0GiB") = .ok (saved "100.0GiB") := by
  simp only [inlineYaml, if_neg saved_ne_inline, yaml, if_true]

theorem inlineYaml_parse_inline : inlineYaml.parse inlineText =
    .ok (.map (savedFields (saved "100.0GiB") ++ [("api_key", .str "KEY ")])) := by
  simp only [inlineYaml, if_true]

theorem withKey_toYaml (key : String) :
    ({ withKey key with apiKey := "" } : Config).toYaml = some (saved "100.0GiB") := by
  have hformat : formatByteSize (100 * 1024 ^ 3) = some "100.0GiB" := by decide +kernel
  exact config_toYaml hformat

theorem saved_reads :
    Config.fromYaml inlineYaml formatters "/root" (saved "100.0GiB") = .ok (withKey "") := by
  decide +kernel

theorem saved_loads {files : Files} {key : String} (htext : files configPath =
      some (configHeader ++ savedText "100.0GiB")) (hkey : keyFileText files ["/", "var"] = key) :
    LoadsKey inlineYaml formatters (fun _ => none) configPath loadEnv key files := by
  exact loadsKey_iff.mpr ⟨withKey "", fileConfig_eq_some.mpr ⟨_, _, htext, inlineYaml_parse_saved, saved_reads⟩,
    withKey_valid "", hkey⟩

end Reference

/-- A saved configuration whose key is in its key file keeps it when it is saved again. -/
theorem Config.save_keeps_key_file :
    (Reference.withKey "KEY").KeepsKey Reference.inlineYaml Reference.formatters (fun _ => none)
      Reference.configPath Reference.loadEnv
      (Reference.filesWith (configHeader ++ Reference.savedText "100.0GiB") (some "KEY\n")) := by
  have hkey : keyFileText (Reference.filesWith (configHeader ++ Reference.savedText "100.0GiB") (some "KEY\n"))
      ["/", "var"] = "KEY" := by decide
  have hprior := Reference.saved_loads (Reference.filesWith_config
    (configHeader ++ Reference.savedText "100.0GiB") (some "KEY\n")) hkey
  have hlibrary : ∀ y, ({ Reference.withKey "KEY" with apiKey := "" } : Config).toYaml = some y →
      Reference.inlineYaml.parse (configHeader ++ Reference.inlineYaml.emit y) = .ok y := by
    intro y hy
    obtain rfl := Option.some.inj ((Reference.withKey_toYaml "KEY").symm.trans hy)
    exact Reference.inlineYaml_parse_saved
  obtain ⟨hkeeps, -, hreread⟩ := Config.save_keeps_key_iff Reference.inlineYaml Reference.formatters
    (fun _ => none) (Reference.withKey "KEY") Reference.configPath Reference.loadEnv _ (by decide)
    (Reference.withKey_inRange "KEY") hlibrary hprior
  have hsizes : (Reference.withKey "KEY").RereadValid Reference.formatters (fun _ => none) :=
    (hreread (Reference.withKey_valid "KEY")).mpr (by decide +kernel)
  exact (hkeeps (by decide)).mpr (.inr ⟨by decide, hsizes⟩)

/-- An inline key that ends in a blank loses the blank on its way through the key file. -/
theorem Config.save_strips_padded_key :
    LoadsKey Reference.inlineYaml Reference.formatters (fun _ => none) Reference.configPath Reference.loadEnv
      (Reference.withKey "KEY ").apiKey (Reference.filesWith Reference.inlineText none) ∧
    (Reference.withKey "KEY ").validate Reference.formatters (fun _ => none) = .ok () ∧
    ¬(Reference.withKey "KEY ").KeepsKey Reference.inlineYaml Reference.formatters (fun _ => none)
      Reference.configPath Reference.loadEnv (Reference.filesWith Reference.inlineText none) := by
  refine ⟨?_, Reference.withKey_valid "KEY ", fun keeps => ?_⟩
  · have hread : Config.fromYaml Reference.inlineYaml Reference.formatters "/root" (.map
        (Reference.savedFields (Reference.saved "100.0GiB") ++ [("api_key", .str "KEY ")])) =
        .ok (Reference.withKey "KEY ") := by decide +kernel
    have hfile := fileConfig_eq_some.mpr ⟨_, _, Reference.filesWith_config Reference.inlineText none,
      Reference.inlineYaml_parse_inline, hread⟩
    exact loadsKey_iff.mpr ⟨Reference.withKey "KEY ", hfile, Reference.withKey_valid "KEY ", by decide⟩
  · have hstates := keeps.1
    rw [Config.saveStates, Reference.withKey_toYaml] at hstates
    obtain ⟨cfg, hload, hkey⟩ := hstates _ (List.mem_cons_of_mem _ (List.mem_cons_of_mem _ List.mem_cons_self))
    have hfile : keyFileText ((Reference.withKey "KEY ").saved Reference.inlineYaml Reference.configPath
        (Reference.filesWith Reference.inlineText none) (Reference.saved "100.0GiB")) ["/", "var"] = "KEY" := by
      decide
    obtain ⟨stripped, hload', hkey'⟩ := Reference.saved_loads (Function.update_self _ _ _) hfile
    obtain rfl := Except.ok.inj (hload.symm.trans hload')
    exact absurd (hkey.symm.trans hkey') (by decide)

end KeepAt
