import KeepAt.ArgvScan
import KeepAt.KeyPrecedence

namespace KeepAt

open Utf8

variable {lib : YamlLib} {fmt : Formatters} {canonicalize : PathBuf → Option PathBuf}

def utf8 (s : String) : OsString := s.toByteArray.data.toList

/-- `join` of a relative text. -/
def joinText (base rel : String) : String :=
  if base.toList.getLast? = some '/' then base ++ rel else base ++ "/" ++ rel

/-- `default_data_dir` as the text it is. -/
def defaultDirText (home : String) : String :=
  if home = "" then "/var/lib/keep-at" else joinText home ".local/share/keep-at"

theorem keptComponents_append (xs ys : List (List Char)) :
    keptComponents (xs ++ ys) = keptComponents xs ++ keptComponents ys := by
  rw [keptComponents, List.filter_append, List.map_append]
  rfl

theorem pathOf_relative {c : Char} (hc : c ≠ '/') (rest : List Char) :
    pathOf (String.ofList (c :: rest)) =
      match (c :: rest).splitOn '/' with
      | ['.'] :: chunks => "." :: keptComponents chunks
      | chunks => keptComponents chunks := by
  simp only [pathOf, String.toList_ofList]
  split
  next heq =>
    cases heq
    exact absurd rfl hc
  next => rfl

theorem pathOf_append_slash {base : List Char} (h : base ≠ []) (rel : List Char) :
    pathOf (String.ofList (base ++ '/' :: rel)) =
      pathOf (String.ofList base) ++ keptComponents (rel.splitOn '/') := by
  cases base with
  | nil => exact absurd rfl h
  | cons c base =>
    by_cases hc : c = '/'
    · subst hc
      simp only [pathOf, String.toList_ofList, List.cons_append, List.splitOn_append_cons_self,
        keptComponents_append]
    · have hsplit : (c :: (base ++ '/' :: rel)).splitOn '/' = (c :: base).splitOn '/' ++ rel.splitOn '/' :=
        List.splitOn_append_cons_self (c :: base) rel
      obtain ⟨chunk, chunks, hchunks⟩ := List.exists_cons_of_ne_nil (List.splitOn_ne_nil '/' (c :: base))
      rw [List.cons_append, pathOf_relative hc, pathOf_relative hc, hsplit, hchunks]
      by_cases hdot : chunk = ['.']
      · subst hdot
        exact congrArg _ (keptComponents_append chunks _)
      · rw [List.cons_append]
        split
        next heq => exact absurd (List.cons.inj heq).1 hdot
        next =>
          split
          next heq => exact absurd (List.cons.inj heq).1 hdot
          next => exact keptComponents_append (chunk :: chunks) _

/-- The default data dir has the components the text spells. -/
theorem pathOf_defaultDirText (home : String) : pathOf (defaultDirText home) = defaultDataDir home := by
  unfold defaultDirText defaultDataDir
  by_cases hempty : home = ""
  · rw [if_pos hempty, if_pos hempty]
    decide
  have hne : home.toList ≠ [] := fun hnil => hempty (by rw [← String.ofList_toList (s := home), hnil])
  have hrel : keptComponents ((".local/share/keep-at".toList).splitOn '/') = [".local", "share", "keep-at"] := by
    decide
  rw [if_neg hempty, if_neg hempty, joinText]
  split
  next hlast =>
    obtain ⟨base, hbase⟩ := List.getLast?_eq_some_iff.mp hlast
    have htext : home ++ ".local/share/keep-at" =
        String.ofList (base ++ '/' :: ".local/share/keep-at".toList) := by
      rw [← String.ofList_toList (s := home ++ ".local/share/keep-at"), String.toList_append, hbase,
        List.append_assoc]
      rfl
    have hhome : home = String.ofList (base ++ '/' :: []) := by rw [← hbase, String.ofList_toList]
    rw [htext, hhome]
    by_cases hroot : base = []
    · subst hroot
      decide
    · rw [pathOf_append_slash hroot, pathOf_append_slash hroot, hrel, List.append_assoc]
      rfl
  next =>
    have htext : home ++ "/" ++ ".local/share/keep-at" =
        String.ofList (home.toList ++ '/' :: ".local/share/keep-at".toList) := by
      rw [← String.ofList_toList (s := home ++ "/" ++ ".local/share/keep-at"), String.toList_append,
        String.toList_append, List.append_assoc]
      rfl
    rw [htext, pathOf_append_slash hne, hrel, String.ofList_toList]

/-- The text of the data dir in a parsed config file. -/
def fileDirText (home : String) : Yaml → Option String
  | .map fields =>
    match fields.lookup "data_dir" with
    | none => some (defaultDirText home)
    | some (.str text) => some text
    | some _ => none
  | _ => none

/-- The data dir of the config that `load_readonly` gives for a path. -/
def loadedDir (lib : YamlLib) (fmt : Formatters) (canonicalize : PathBuf → Option PathBuf) (files : Files)
    (env : LoadEnv) (components : OsString → PathBuf) (path : OsString) : Option OsString :=
  match (Config.loadInner lib fmt canonicalize files (components path) env false).2 with
  | .error _ => none
  | .ok _ => ((files (components path)).bind fun text =>
      (lib.parse text).toOption.bind (fileDirText env.home)).map utf8

theorem fileDirText_of_reads {home : String} {y : Yaml} {parsed : Config}
    (h : Config.fromYaml lib fmt home y = .ok parsed) :
    ∃ text, fileDirText home y = some text ∧ pathOf text = parsed.dataDir := by
  cases y with
  | map fields =>
    obtain ⟨-, hdir, -⟩ := Config.fromYaml_ok_iff.mp h
    unfold readField at hdir
    rw [fileDirText]
    cases hlookup : fields.lookup "data_dir" with
    | none =>
      rw [hlookup] at hdir
      exact ⟨_, rfl, (pathOf_defaultDirText home).trans (Except.ok.inj hdir)⟩
    | some v =>
      rw [hlookup] at hdir
      cases v with
      | str text => exact ⟨text, rfl, Except.ok.inj hdir⟩
      | _ => cases hdir
  | _ => cases h

theorem loadedDir_of_load {files : Files} {env : LoadEnv} {components : OsString → PathBuf} {path : OsString}
    {cfg : Config} (h : (Config.load lib fmt canonicalize files (components path) env).2 = .ok cfg) :
    ∃ text, loadedDir lib fmt canonicalize files env components path = some (utf8 text) ∧
      pathOf text = cfg.dataDir := by
  obtain ⟨parsed, hfile, -, rfl⟩ := load_ok_iff.mp h
  obtain ⟨text, y, htext, hy, hread⟩ := fileConfig_eq_some.mp hfile
  have hquiet : (Config.loadInner lib fmt canonicalize files (components path) env false).2 =
      .ok (parsed.mergeKeyFile files) := by
    rw [← h, Config.load]
    simp only [Config.loadInner, htext]
  obtain ⟨dir, hdir, hpath⟩ := fileDirText_of_reads hread
  refine ⟨dir, ?_, hpath.trans (Config.mergeKeyFile_dataDir parsed files).symm⟩
  simp only [loadedDir, hquiet, htext, Option.bind_some, hy, Except.toOption, hdir, Option.map_some]

/-- What the argument parser hands to `run` and `start`: the paths as they were passed. -/
structure RunFlags where
  config : Option OsString := none
  dataDir : Option OsString := none
  cfgDataDir : Option OsString := none
  rest : ConfigArgs := {}

namespace RunFlags

variable (components : OsString → PathBuf) (flags : RunFlags)

def common : CommonArgs :=
  { config := flags.config.map components
    dataDir := flags.dataDir.map components }

def configArgs : ConfigArgs := { flags.rest with cfgDataDir := flags.cfgDataDir.map components }

/-- The path of the config file `resolve` loads. -/
def configPath (installed : Bool) : Option OsString :=
  match flags.config with
  | some path => some path
  | none =>
    if !(flags.configArgs components).storageFlagsSet && !(flags.configArgs components).anySet then
      if installed then some (utf8 "/etc/keep-at/config.yaml") else none
    else none

/-- The data dir `resolve` settles on, as text. -/
def resolvedDir (loaded : OsString → Option OsString) (defaultDir : OsString) (installed : Bool) : OsString :=
  flags.dataDir.getD (flags.cfgDataDir.getD
    (((flags.configPath components installed).bind loaded).getD defaultDir))

/-- Where the scan sees what `resolve` does: the data dir is text that only it is read as, and, unless
`--data-dir` names it, it is also what the `--config` file, or else the default, says. -/
def SeenByScan (loaded : OsString → Option OsString) (defaultDir : OsString) (installed : Bool) : Prop :=
  match flags.dataDir, flags.cfgDataDir, flags.config with
  | some dir, _, _ => Plain dir
  | none, some dir, some path => Plain dir ∧ loaded (lossy path) = some dir
  | none, some dir, none => Plain dir ∧ defaultDir = dir
  | none, none, some path => loaded (lossy path) = loaded path ∧ ∀ dir ∈ loaded path, Plain dir
  | none, none, none =>
    Plain defaultDir ∧ ∀ path ∈ flags.configPath components installed, loaded path = some defaultDir

end RunFlags

/-- How the argument parser reads a command line: every argument belongs to an occurrence of a flag of the
command, a flag with one value occurs at most once, and a last `--` may end them. -/
def RunFlags.SpelledBy (flags : RunFlags) (args : List OsString) : Prop :=
  ∃ (occurrences : List Occurrence) (escape : List OsString),
    args = occurrences.flatMap Occurrence.args ++ escape ∧ (escape = [] ∨ escape = [ascii "--"]) ∧
    (∀ o ∈ occurrences, o.Accepted) ∧
    occurrences.filterMap (Occurrence.valueOf (ascii "config")) = flags.config.toList ∧
    occurrences.filterMap (Occurrence.valueOf (ascii "data-dir")) = flags.dataDir.toList ∧
    occurrences.filterMap (Occurrence.valueOf (ascii "cfg-data-dir")) = flags.cfgDataDir.toList

/-- The scan of a running process finds the values of the two flags, read lossily. -/
theorem RunFlags.SpelledBy.scanned {flags : RunFlags} {args : List OsString} (h : flags.SpelledBy args)
    (argv0 sub : OsString) : dataDirAndConfigFromArgv (argv0 :: sub :: (args.map lossy ++ [[]])) =
      (flags.dataDir.map lossy, flags.config.map lossy) := by
  obtain ⟨occurrences, escape, rfl, hescape, haccepted, hconfig, hdir, -⟩ := h
  show scanFlags ((occurrences.flatMap Occurrence.args ++ escape).map lossy ++ [[]]) (none, none) = _
  rw [List.map_append, List.append_assoc, scanFlags_occurrences haccepted, foldl_note hdir hconfig]
  have hempty : ∀ found, scanFlags [[]] found = found := fun found => by
    rw [scanFlags_not_flag (by decide), scanFlags]
  rcases hescape with rfl | rfl
  · exact hempty _
  · have hescaped : lossy (ascii "--") = ascii "--" := by decide
    rw [List.map_singleton, hescaped, List.singleton_append, scanFlags_other (by decide) (by decide)
      (by decide) (by decide), hempty]

section Agreement

variable {loaded : OsString → Option OsString} {defaultDir : OsString} {components : OsString → PathBuf}
variable {installed : Bool} {flags : RunFlags} {parts : List OsString}

theorem plain_iff_alone {dir : OsString} : (∀ w, lossy dir = lossy w ↔ w = dir) ↔ Plain dir := by
  rw [← lossy_unique_iff]
  exact forall_congr' fun w => by rw [eq_comm (a := lossy dir)]

theorem reports_alone_iff {reported : Option OsString} {dir : OsString} :
    (reported = some dir ∧ ∀ w, reported.elim false (fun d => decide (lossy d = lossy w)) = true ↔ w = dir) ↔
      Plain dir ∧ reported = some dir := by
  rw [and_comm, and_congr_left_iff]
  rintro rfl
  simp only [Option.elim_some, decide_eq_true_eq]
  exact plain_iff_alone

/-- With `--data-dir` the scan reports its lossy reading. -/
theorem seen_dataDir {dir : OsString} {configArg : Option OsString}
    (hscan : dataDirAndConfigFromArgv parts = (some (lossy dir), configArg)) :
    (reportedDir loaded defaultDir parts = some dir ∧
      ∀ w, foregroundMatches loaded defaultDir parts (lossy w) = true ↔ w = dir) ↔ Plain dir := by
  simp only [reportedDir, foregroundMatches, hscan, decide_eq_true_eq, Option.some.injEq]
  constructor
  · rintro ⟨-, hall⟩
    exact plain_iff_alone.mp hall
  · intro h
    exact ⟨lossy_of_valid h.valid, plain_iff_alone.mpr h⟩

/-- Without it the scan reports what the config file says, or else the default. -/
theorem seen_elsewhere {dir : OsString} {configArg : Option OsString}
    (hscan : dataDirAndConfigFromArgv parts = (none, configArg)) :
    (reportedDir loaded defaultDir parts = some dir ∧
      ∀ w, foregroundMatches loaded defaultDir parts (lossy w) = true ↔ w = dir) ↔
      Plain dir ∧ configArg.elim (some defaultDir) loaded = some dir := by
  rw [← reports_alone_iff]
  cases configArg with
  | none =>
    simp only [reportedDir, foregroundMatches, hscan, Option.elim_none, Option.elim_some, eq_comm]
  | some path => simp only [reportedDir, foregroundMatches, hscan, Option.elim_some]

/-- Given what the scan finds, it reports the data dir of `resolve` and matches it alone exactly where it sees
what `resolve` does. -/
theorem seen_iff (hscan : dataDirAndConfigFromArgv parts = (flags.dataDir.map lossy, flags.config.map lossy))
    (hloads : ∀ path ∈ flags.configPath components installed, ∃ dir, loaded path = some dir) :
    (reportedDir loaded defaultDir parts = some (flags.resolvedDir components loaded defaultDir installed) ∧
      ∀ w, foregroundMatches loaded defaultDir parts (lossy w) = true ↔
        w = flags.resolvedDir components loaded defaultDir installed) ↔
      flags.SeenByScan components loaded defaultDir installed := by
  unfold RunFlags.SeenByScan RunFlags.resolvedDir
  cases hdata : flags.dataDir with
  | some dir =>
    rw [hdata] at hscan
    exact seen_dataDir hscan
  | none =>
    rw [hdata] at hscan
    rw [seen_elsewhere hscan]
    cases hcfg : flags.cfgDataDir with
    | some dir =>
      cases hconfig : flags.config with
      | some path => rfl
      | none => simp
    | none =>
      cases hconfig : flags.config with
      | some path =>
        have hpath : flags.configPath components installed = some path := by
          rw [RunFlags.configPath, hconfig]
        obtain ⟨dir, hdir⟩ := hloads path hpath
        simp [hpath, hdir, and_comm]
      | none =>
        cases hpath : flags.configPath components installed with
        | none => simp
        | some path =>
          obtain ⟨dir, hdir⟩ := hloads path hpath
          simp only [Option.map_none, Option.elim_none, Option.bind_some, hdir, Option.getD_some,
            Option.getD_none, Option.some.injEq, Option.mem_some, forall_eq']
          constructor
          · rintro ⟨hplain, rfl⟩
            exact ⟨hplain, rfl⟩
          · rintro ⟨hplain, rfl⟩
            exact ⟨hplain, rfl⟩

theorem chosenConfig_eq_map (utf8Paths : ∀ text, components (utf8 text) = pathOf text) :
    chosenConfig (flags.common components) (flags.configArgs components) installed =
      (flags.configPath components installed).map components := by
  have hservice : components (utf8 "/etc/keep-at/config.yaml") = serviceConfigPath := by
    rw [utf8Paths]
    decide
  unfold chosenConfig RunFlags.configPath RunFlags.common serviceConfigIfPresent
  cases flags.config with
  | some path => rfl
  | none =>
    simp only [Option.map_none]
    split
    next => cases installed <;> simp [hservice]
    next => rfl

/-- The data dir of `resolve` has the components of the one settled on as text, and the config file it used is
one that loads. -/
theorem resolve_dir {files : Files} {env : LoadEnv} {cfg : Config}
    (utf8Paths : ∀ text, components (utf8 text) = pathOf text)
    (h : (resolve lib fmt canonicalize files (flags.common components) (flags.configArgs components) env
      installed).2 = .ok cfg) :
    cfg.dataDir = components (flags.resolvedDir components
        (loadedDir lib fmt canonicalize files env components) (utf8 (defaultDirText env.home)) installed) ∧
      ∀ path ∈ flags.configPath components installed,
        ∃ dir, loadedDir lib fmt canonicalize files env components path = some dir := by
  obtain ⟨base, hbase, hdir, -⟩ := resolve_ok h
  have hfinal : ∀ dir, components dir = base.dataDir →
      cfg.dataDir = components (flags.dataDir.getD (flags.cfgDataDir.getD dir)) := by
    intro dir hcomponents
    rw [hdir, finalDataDir, RunFlags.common, RunFlags.configArgs, ← hcomponents]
    cases flags.dataDir <;> cases flags.cfgDataDir <;> rfl
  unfold baseConfig at hbase
  rw [chosenConfig_eq_map utf8Paths] at hbase
  unfold RunFlags.resolvedDir
  cases hpath : flags.configPath components installed with
  | none =>
    rw [hpath] at hbase
    obtain rfl := Except.ok.inj hbase
    exact ⟨hfinal _ ((utf8Paths _).trans (pathOf_defaultDirText env.home)), fun _ hmem => by cases hmem⟩
  | some path =>
    rw [hpath] at hbase
    obtain ⟨text, hloaded, htext⟩ := loadedDir_of_load (mapError_eq_ok hbase)
    rw [Option.bind_some, hloaded]
    refine ⟨hfinal _ ((utf8Paths text).trans htext), fun other hmem => ?_⟩
    obtain rfl := Option.some.inj hmem
    exact ⟨_, hloaded⟩

end Agreement

/-- Of a running process both scans give the data dir that `resolve` computes from its arguments, exactly where
the scan sees what `resolve` does. -/
theorem process_scan_agrees_iff {parse : List OsString → Option RunFlags} {components : OsString → PathBuf}
    {files : Files} {env : LoadEnv} {installed : Bool} {own pid : Nat} {entry : ProcEntry}
    {argv0 sub : OsString} {args : List OsString} {flags : RunFlags} {cfg : Config}
    (parser : ∀ args flags, parse args = some flags → flags.SpelledBy args)
    (utf8Paths : ∀ text, components (utf8 text) = pathOf text)
    (accepted : parse args = some flags) (running : entry.Runs own pid argv0 sub args)
    (resolved : (resolve lib fmt canonicalize files (flags.common components) (flags.configArgs components) env
      installed).2 = .ok cfg) :
    cfg.dataDir = components (flags.resolvedDir components
        (loadedDir lib fmt canonicalize files env components) (utf8 (defaultDirText env.home)) installed) ∧
    (ScansAs (loadedDir lib fmt canonicalize files env components) (utf8 (defaultDirText env.home)) own entry pid
        (flags.resolvedDir components (loadedDir lib fmt canonicalize files env components)
          (utf8 (defaultDirText env.home)) installed) ↔
      flags.SeenByScan components (loadedDir lib fmt canonicalize files env components)
        (utf8 (defaultDirText env.home)) installed) := by
  obtain ⟨hdir, hloads⟩ := resolve_dir utf8Paths resolved
  have hscan := (parser args flags accepted).scanned (lossy argv0) (lossy sub)
  exact ⟨hdir, (scansAs_iff running.candidate).trans (seen_iff hscan hloads)⟩

namespace Reference

/-- The components of a path that is text. -/
def components (path : OsString) : PathBuf :=
  if h : (ByteArray.mk path.toArray).IsValidUTF8 then pathOf (String.ofByteArray ⟨path.toArray⟩ h) else []

theorem components_utf8 (text : String) : components (utf8 text) = pathOf text := by
  have hbytes : ByteArray.mk (utf8 text).toArray = text.toByteArray := by
    rw [utf8, Array.toArray_toList]
  have hvalid : (ByteArray.mk (utf8 text).toArray).IsValidUTF8 := hbytes ▸ text.isValidUTF8
  rw [components, dif_pos hvalid]
  simp only [hbytes]

/-- `keep-at run --FLAG=/srv/keep-at --storage-limit max`. -/
def scanOccurrences (flag : String) : List Occurrence :=
  [.joined (ascii flag) (utf8 "/srv/keep-at"), .spaced (ascii "storage-limit") (ascii "max")]

def scanArgs (flag : String) : List OsString := (scanOccurrences flag).flatMap Occurrence.args

def scanEntry (flag : String) : ProcEntry :=
  { name := ascii "7"
    cmdline := cmdlineOf (ascii "/usr/bin/keep-at" :: ascii "run" :: scanArgs flag) }

def dataDirFlags : RunFlags :=
  { dataDir := some (utf8 "/srv/keep-at"), rest := { storageLimit := ["max"] } }

def cfgDataDirFlags : RunFlags :=
  { cfgDataDir := some (utf8 "/srv/keep-at"), rest := { storageLimit := ["max"] } }

def scanParse (args : List OsString) : Option RunFlags :=
  if args = scanArgs "data-dir" then some dataDirFlags
  else if args = scanArgs "cfg-data-dir" then some cfgDataDirFlags
  else none

def scanConfig : Config :=
  { dataDir := ["/", "srv", "keep-at"]
    storage := [⟨["/", "root", ".local", "share", "keep-at", "storage"], .all⟩] }

theorem scanArgs_spelled (flags : RunFlags) (flag : String) (h : ascii flag ∈ valueFlags)
    (hconfig : (scanOccurrences flag).filterMap (Occurrence.valueOf (ascii "config")) = flags.config.toList)
    (hdir : (scanOccurrences flag).filterMap (Occurrence.valueOf (ascii "data-dir")) = flags.dataDir.toList)
    (hcfg : (scanOccurrences flag).filterMap (Occurrence.valueOf (ascii "cfg-data-dir")) =
      flags.cfgDataDir.toList) : flags.SpelledBy (scanArgs flag) := by
  refine ⟨scanOccurrences flag, [], (List.append_nil _).symm, .inl rfl, ?_, hconfig, hdir, hcfg⟩
  refine List.forall_mem_cons.mpr ⟨h, List.forall_mem_singleton.mpr ⟨by decide +kernel, .inl (by decide)⟩⟩

theorem scanParse_spelled (args : List OsString) (flags : RunFlags) (h : scanParse args = some flags) :
    flags.SpelledBy args := by
  unfold scanParse at h
  split at h
  next hargs =>
    obtain rfl := Option.some.inj h
    rw [hargs]
    exact scanArgs_spelled _ "data-dir" (by decide +kernel) (by decide +kernel) (by decide +kernel)
      (by decide +kernel)
  next =>
    split at h
    next hargs =>
      obtain rfl := Option.some.inj h
      rw [hargs]
      exact scanArgs_spelled _ "cfg-data-dir" (by decide +kernel) (by decide +kernel) (by decide +kernel)
        (by decide +kernel)
    next => cases h

theorem scanEntry_runs (flag : String) (h : ∀ a ∈ scanArgs flag, 0 ∉ a) :
    (scanEntry flag).Runs 1 7 (ascii "/usr/bin/keep-at") (ascii "run") (scanArgs flag) where
  name := show parsePid (lossy (ascii "7")) = some 7 by decide +kernel
  other := by decide
  line := rfl
  program := ⟨ascii "/usr/bin/", by decide +kernel⟩
  subcommand := .inl rfl
  noNul := List.forall_mem_cons.mpr ⟨by decide +kernel, List.forall_mem_cons.mpr ⟨by decide +kernel, h⟩⟩

theorem scanConfig_resolved (common : CommonArgs) (args : ConfigArgs)
    (h : common = { dataDir := some ["/", "srv", "keep-at"] } ∧ args = { storageLimit := ["max"] } ∨
      common = {} ∧ args = { storageLimit := ["max"], cfgDataDir := some ["/", "srv", "keep-at"] }) :
    (resolve keyedLib formatters (fun _ => none) (fun _ => none) common args loadEnv false).2 =
      .ok scanConfig := by
  rcases h with ⟨rfl, rfl⟩ | ⟨rfl, rfl⟩
  · decide +kernel
  · decide +kernel

end Reference

theorem process_scan_sees_data_dir :
    ScansAs (loadedDir Reference.keyedLib Reference.formatters (fun _ => none) (fun _ => none) Reference.loadEnv
        Reference.components) (utf8 (defaultDirText "/root")) 1 (Reference.scanEntry "data-dir") 7
      (utf8 "/srv/keep-at") := by
  have hcommon : Reference.dataDirFlags.common Reference.components =
      { dataDir := some ["/", "srv", "keep-at"] } := by
    simp only [RunFlags.common, Reference.dataDirFlags, Option.map_some, Option.map_none,
      Reference.components_utf8]
    rw [show pathOf "/srv/keep-at" = ["/", "srv", "keep-at"] by decide]
  refine (process_scan_agrees_iff Reference.scanParse_spelled Reference.components_utf8
    (show Reference.scanParse (Reference.scanArgs "data-dir") = some Reference.dataDirFlags from if_pos rfl)
    (Reference.scanEntry_runs "data-dir" (by decide +kernel))
    (Reference.scanConfig_resolved _ _ (.inl ⟨hcommon, rfl⟩))).2.mpr ?_
  show Plain (utf8 "/srv/keep-at")
  decide +kernel

/-- With `--cfg-data-dir` the daemon runs in that directory, and the scan reports the default one. -/
theorem process_scan_misses_cfg_data_dir :
    Reference.scanParse (Reference.scanArgs "cfg-data-dir") = some Reference.cfgDataDirFlags ∧
    (Reference.scanEntry "cfg-data-dir").Runs 1 7 (ascii "/usr/bin/keep-at") (ascii "run")
      (Reference.scanArgs "cfg-data-dir") ∧
    (resolve Reference.keyedLib Reference.formatters (fun _ => none) (fun _ => none)
      (Reference.cfgDataDirFlags.common Reference.components)
      (Reference.cfgDataDirFlags.configArgs Reference.components) Reference.loadEnv false).2 =
        .ok Reference.scanConfig ∧
    Reference.scanConfig.dataDir = Reference.components (utf8 "/srv/keep-at") ∧
    findAnyDaemonIn (loadedDir Reference.keyedLib Reference.formatters (fun _ => none) (fun _ => none)
      Reference.loadEnv Reference.components) (utf8 (defaultDirText "/root")) 1
        [Reference.scanEntry "cfg-data-dir"] = some (7, utf8 "/root/.local/share/keep-at") ∧
    ¬ScansAs (loadedDir Reference.keyedLib Reference.formatters (fun _ => none) (fun _ => none)
      Reference.loadEnv Reference.components) (utf8 (defaultDirText "/root")) 1
        (Reference.scanEntry "cfg-data-dir") 7 (utf8 "/srv/keep-at") := by
  have hreport : findAnyDaemonIn (loadedDir Reference.keyedLib Reference.formatters (fun _ => none)
      (fun _ => none) Reference.loadEnv Reference.components) (utf8 (defaultDirText "/root")) 1
        [Reference.scanEntry "cfg-data-dir"] = some (7, utf8 "/root/.local/share/keep-at") := by
    decide +kernel
  have hcfg : Reference.cfgDataDirFlags.configArgs Reference.components =
      { storageLimit := ["max"], cfgDataDir := some ["/", "srv", "keep-at"] } := by
    simp only [RunFlags.configArgs, Reference.cfgDataDirFlags, Option.map_some, Reference.components_utf8]
    rw [show pathOf "/srv/keep-at" = ["/", "srv", "keep-at"] by decide]
  have hother : Reference.scanArgs "cfg-data-dir" ≠ Reference.scanArgs "data-dir" := by decide +kernel
  refine ⟨(if_neg hother).trans (if_pos rfl), Reference.scanEntry_runs "cfg-data-dir" (by decide +kernel),
    Reference.scanConfig_resolved _ _ (.inr ⟨rfl, hcfg⟩), ?_, hreport, fun scans => ?_⟩
  · rw [Reference.components_utf8]
    decide
  · have hsays := scans.1 [] [] rfl
    rw [List.nil_append, hreport] at hsays
    exact absurd hsays (by decide +kernel)

end KeepAt
