import KeepAt.ConfigReload
import KeepAt.SizeReread

namespace KeepAt

variable {lib : YamlLib} {fmt : Formatters} {canonicalize : PathBuf → Option PathBuf}

/-- What a duration keeps in a file of seconds. -/
def wholeSecs (d : Duration) : Duration := secs (asSecs d)

def ScanConfig.reread (s : ScanConfig) : ScanConfig :=
  { s with
    interval := wholeSecs s.interval
    moderationDelay := wholeSecs s.moderationDelay
    stallEvictionTimeout := wholeSecs s.stallEvictionTimeout
    vanishedEvictionTimeout := wholeSecs s.vanishedEvictionTimeout
    quarantineCheckInterval := wholeSecs s.quarantineCheckInterval
    quarantineCooldown := wholeSecs s.quarantineCooldown }

theorem readDuration_reread {fields : List (String × Option Yaml)} {name : String} {d default : Duration}
    (hnodup : (fields.map Prod.fst).Nodup) (hv : fields.lookup name = some (durationField d default))
    (hmax : asSecs d ≤ u64Max) (hdefault : 10 ^ 9 ∣ default) :
    readDuration lib (presentFields fields) name default = .ok (wholeSecs d) := by
  rw [readDuration, readField_present hnodup hv, durationField]
  split
  next h =>
    rw [h]
    exact congrArg Except.ok (Nat.div_mul_cancel hdefault).symm
  next =>
    simp only [serDurationSecsOpt, Option.elim_some, deDurationSecs, deOption, deU64, deBounded]
    rw [if_pos ⟨by omega, by exact_mod_cast hmax⟩]
    rfl

theorem ScanConfig.fromYaml_reread {s : ScanConfig} (range : s.InRange) :
    ScanConfig.fromYaml lib s.toYaml = .ok s.reread := by
  have hd := range.durations
  simp only [ScanConfig.durations, List.forall_mem_cons, List.not_mem_nil, false_imp_iff, implies_true,
    and_true] at hd
  obtain ⟨r1, r2, r3, r4, r5, r6⟩ := hd
  have hn := s.fields_nodup
  refine ScanConfig.fromYaml_ok_iff.mpr ⟨readDuration_reread hn rfl r1 (secs_dvd _), ?_, ?_,
    readDuration_reread hn rfl r2 (secs_dvd _), readDuration_reread hn rfl r3 (secs_dvd _),
    readDuration_reread hn rfl r4 (secs_dvd _), readDuration_reread hn rfl r5 (secs_dvd _),
    readCounter hn rfl range.brokenPieceDiscardBytes, readCounter hn rfl range.brokenPieceMinWindows,
    readDuration_reread hn rfl r6 (secs_dvd _), readCounter hn rfl range.quarantineMaxRetries⟩
  · exact readField_written hn (y := .float s.rateLimitPerSecond) rfl _ _
  · exact (readField_written hn (y := .int s.minSeedMargin) rfl _ _).trans (if_pos range.minSeedMargin)

theorem optionalSize_reread (lib : YamlLib) (fmt : Formatters) {n : Nat} (h : n < 2 ^ 63) :
    ∃ v m, serBytesizeOpt n = some v ∧ deBytesizeOpt lib fmt v = .ok m ∧ SizeKept fmt n m := by
  unfold serBytesizeOpt
  split
  next hzero =>
    subst hzero
    exact ⟨.null, 0, rfl, rfl, sizeKept_small fmt (by norm_num)⟩
  next =>
    obtain ⟨m, hm⟩ := exists_sizeKept fmt h
    obtain ⟨s, hs, hparse⟩ := Option.map_eq_some_iff.mp hm.text
    exact ⟨.str s, m, by rw [hs]; rfl, hparse, hm⟩

theorem optionalSize_lt {n m : Nat} {v : Yaml} (hmax : n ≤ u64Max) (hv : serBytesizeOpt n = some v)
    (hm : deBytesizeOpt lib fmt v = .ok m) : n < 2 ^ 63 := by
  unfold serBytesizeOpt at hv
  split at hv
  next hzero =>
    rw [hzero]
    norm_num
  next =>
    obtain ⟨s, hs, rfl⟩ := Option.map_eq_some_iff.mp hv
    exact @lt_of_reread fmt _ m hmax (by rw [hs]; exact congrArg some hm)

theorem optionalSize_eq_none_iff {n : Nat} (hmax : n ≤ u64Max) : serBytesizeOpt n = none ↔ n = 2 ^ 63 := by
  unfold serBytesizeOpt
  split
  next hzero =>
    subst hzero
    exact iff_of_false (by simp) (by norm_num)
  next => rw [Option.map_eq_none_iff, formatByteSize_eq_none_iff hmax]

/-- The byte counts of a limit. -/
def StorageLimit.sizes : StorageLimit → List Nat
  | .bytes n => [n]
  | _ => []

def LimitKept (fmt : Formatters) : StorageLimit → StorageLimit → Prop
  | .bytes n, .bytes m => SizeKept fmt n m
  | .all, .all => True
  | _, _ => False

def LocationKept (fmt : Formatters) (l l' : StorageLocation) : Prop :=
  l'.path = l.path ∧ LimitKept fmt l.limit l'.limit

theorem limit_reread (lib : YamlLib) (fmt : Formatters) {l : StorageLimit} (hmax : LimitInRange l)
    (hset : l ≠ .unset) (small : ∀ n ∈ l.sizes, n < 2 ^ 63) :
    ∃ v l', serLimit l = some v ∧ deLimit lib fmt v = .ok l' ∧ LimitKept fmt l l' := by
  cases l with
  | unset => exact absurd rfl hset
  | all => exact ⟨.str "max", .all, rfl, rfl, trivial⟩
  | bytes n =>
    obtain ⟨m, hm⟩ := exists_sizeKept fmt (small n List.mem_cons_self)
    obtain ⟨s, hs, hparse⟩ := Option.map_eq_some_iff.mp hm.text
    refine ⟨.str s, .bytes m, by rw [serLimit, hs]; rfl, ?_, hm⟩
    show StorageLimit.parse fmt s = _
    rw [storageLimit_parse_size hmax hs, hparse]
    rfl

/-- A limit that is read back was set, and shows no size from 2^63 on. -/
theorem limit_of_read {l l' : StorageLimit} {v : Yaml} (hmax : LimitInRange l) (hv : serLimit l = some v)
    (hl : deLimit lib fmt v = .ok l') : l ≠ .unset ∧ ∀ n ∈ l.sizes, n < 2 ^ 63 := by
  cases l with
  | unset =>
    obtain rfl := Option.some.inj hv
    cases hl
  | all => exact ⟨by simp, by simp [StorageLimit.sizes]⟩
  | bytes n =>
    obtain ⟨s, hs, rfl⟩ := Option.map_eq_some_iff.mp hv
    have hparse : (parseByteSize fmt s).map .bytes = .ok l' := by
      rw [← storageLimit_parse_size hmax hs]
      exact hl
    refine ⟨by simp, List.forall_mem_singleton.mpr ?_⟩
    cases hp : parseByteSize fmt s with
    | error message =>
      rw [hp] at hparse
      cases hparse
    | ok m => exact @lt_of_reread fmt _ m hmax (by rw [hs, Option.map_some, hp])

theorem limit_eq_none_iff {l : StorageLimit} (hmax : LimitInRange l) :
    serLimit l = none ↔ 2 ^ 63 ∈ l.sizes := by
  cases l with
  | unset => simp [serLimit, StorageLimit.sizes]
  | all => simp [serLimit, StorageLimit.sizes]
  | bytes n =>
    rw [serLimit, Option.map_eq_none_iff, formatByteSize_eq_none_iff hmax, StorageLimit.sizes,
      List.mem_singleton, eq_comm]

theorem storage_reread (lib : YamlLib) (fmt : Formatters) {storage : List StorageLocation}
    (range : ∀ l ∈ storage, LocationInRange l) (set : ∀ l ∈ storage, l.limit ≠ .unset)
    (small : ∀ l ∈ storage, ∀ n ∈ l.limit.sizes, n < 2 ^ 63) :
    ∃ ys storage', storage.mapM StorageLocation.toYaml = some ys ∧
      ys.mapM (StorageLocation.fromYaml lib fmt) = .ok storage' ∧
      List.Forall₂ (LocationKept fmt) storage storage' := by
  induction storage with
  | nil => exact ⟨[], [], rfl, rfl, .nil⟩
  | cons l storage ih =>
    obtain ⟨⟨hpath, hmax⟩, range⟩ := List.forall_mem_cons.mp range
    obtain ⟨hset, set⟩ := List.forall_mem_cons.mp set
    obtain ⟨hsmall, small⟩ := List.forall_mem_cons.mp small
    obtain ⟨ys, storage', hys, hrest, kept⟩ := ih range set small
    obtain ⟨v, limit', hv, hd, hkept⟩ := limit_reread lib fmt hmax hset hsmall
    have hy : l.toYaml = some (.map [("path", .str (pathText l.path)), ("limit", v)]) := by
      rw [StorageLocation.toYaml, hv]
      rfl
    obtain ⟨v', hv', hfrom⟩ := StorageLocation.fromYaml_toYaml lib fmt hpath hy
    obtain rfl := Option.some.inj (hv.symm.trans hv')
    refine ⟨.map [("path", .str (pathText l.path)), ("limit", v)] :: ys, ⟨l.path, limit'⟩ :: storage', ?_, ?_,
      .cons ⟨rfl, hkept⟩ kept⟩
    · rw [List.mapM_cons, hy, hys]
      rfl
    · rw [List.mapM_cons, hfrom, hd, hrest]
      rfl

theorem storage_of_read {storage storage' : List StorageLocation} {ys : List Yaml}
    (range : ∀ l ∈ storage, LocationInRange l) (hs : storage.mapM StorageLocation.toYaml = some ys)
    (hr : ys.mapM (StorageLocation.fromYaml lib fmt) = .ok storage') :
    ∀ l ∈ storage, l.limit ≠ .unset ∧ ∀ n ∈ l.limit.sizes, n < 2 ^ 63 := by
  induction storage generalizing ys storage' with
  | nil => simp
  | cons l storage ih =>
    obtain ⟨⟨hpath, hmax⟩, range⟩ := List.forall_mem_cons.mp range
    obtain ⟨y, hy, hs⟩ := Option.bind_eq_some_iff.mp (List.mapM_cons.symm.trans hs)
    obtain ⟨zs, hzs, heq⟩ := Option.bind_eq_some_iff.mp hs
    obtain rfl := Option.some.inj heq
    rw [List.mapM_cons] at hr
    obtain ⟨l', hl', hr⟩ := except_bind_eq_ok.mp hr
    obtain ⟨rest, hrest, -⟩ := except_bind_eq_ok.mp hr
    obtain ⟨v, hv, hfrom⟩ := StorageLocation.fromYaml_toYaml lib fmt hpath hy
    refine List.forall_mem_cons.mpr ⟨?_, ih range hzs hrest⟩
    rw [hfrom] at hl'
    cases hd : deLimit lib fmt v with
    | error message =>
      rw [hd] at hl'
      cases hl'
    | ok limit' => exact limit_of_read hmax hv hd

theorem storage_eq_none_iff {storage : List StorageLocation} (range : ∀ l ∈ storage, LocationInRange l) :
    storage.mapM StorageLocation.toYaml = none ↔ ∃ l ∈ storage, 2 ^ 63 ∈ l.limit.sizes := by
  induction storage with
  | nil => simp
  | cons l storage ih =>
    obtain ⟨⟨-, hmax⟩, range⟩ := List.forall_mem_cons.mp range
    have hl : l.toYaml = none ↔ 2 ^ 63 ∈ l.limit.sizes := by
      rw [StorageLocation.toYaml, Option.map_eq_none_iff, limit_eq_none_iff hmax]
    have hcons : (∃ x ∈ l :: storage, 2 ^ 63 ∈ x.limit.sizes) ↔
        2 ^ 63 ∈ l.limit.sizes ∨ ∃ x ∈ storage, 2 ^ 63 ∈ x.limit.sizes := by simp
    rw [List.mapM_cons, hcons, ← hl, ← ih range]
    cases l.toYaml with
    | none => simp
    | some y => cases storage.mapM StorageLocation.toYaml <;> simp

/-- Every byte count of a configuration. -/
def Config.sizes (c : Config) : List Nat :=
  c.storage.flatMap (fun l => l.limit.sizes) ++ [c.maxRam, c.uploadRateLimit, c.downloadRateLimit]

theorem Config.forall_sizes {c : Config} {P : Nat → Prop} :
    (∀ n ∈ c.sizes, P n) ↔ (∀ l ∈ c.storage, ∀ n ∈ l.limit.sizes, P n) ∧ P c.maxRam ∧ P c.uploadRateLimit ∧
      P c.downloadRateLimit := by
  simp only [Config.sizes, List.forall_mem_append, List.forall_mem_cons, List.not_mem_nil, false_imp_iff,
    implies_true, and_true, List.mem_flatMap, forall_exists_index, and_imp]
  constructor
  · rintro ⟨h, rest⟩
    exact ⟨fun l hl n hn => h n l hl hn, rest⟩
  · rintro ⟨h, rest⟩
    exact ⟨fun n l hl hn => h l hl n hn, rest⟩

/-- A keyless configuration as its file is read back. -/
structure Config.ReadsAs (fmt : Formatters) (c c' : Config) : Prop where
  shape : c' = { c with
    storage := c'.storage, scan := c.scan.reread, maxRam := c'.maxRam, uploadRateLimit := c'.uploadRateLimit,
    downloadRateLimit := c'.downloadRateLimit, statsInterval := wholeSecs c.statsInterval }
  storage : List.Forall₂ (LocationKept fmt) c.storage c'.storage
  maxRam : SizeKept fmt c.maxRam c'.maxRam
  uploadRateLimit : SizeKept fmt c.uploadRateLimit c'.uploadRateLimit
  downloadRateLimit : SizeKept fmt c.downloadRateLimit c'.downloadRateLimit

theorem Config.ReadsAs.apiKey {c c' : Config} (reads : c.ReadsAs fmt c') : c'.apiKey = c.apiKey := by
  rw [reads.shape]

theorem Config.ReadsAs.dataDir {c c' : Config} (reads : c.ReadsAs fmt c') : c'.dataDir = c.dataDir := by
  rw [reads.shape]

theorem Config.toYaml_eq_none_iff {c : Config} (range : c.InRange) : c.toYaml = none ↔ 2 ^ 63 ∈ c.sizes := by
  have hm := optionalSize_eq_none_iff range.maxRam
  have hu := optionalSize_eq_none_iff range.uploadRateLimit
  have hd := optionalSize_eq_none_iff range.downloadRateLimit
  have hs := storage_eq_none_iff range.storage
  have hmem : 2 ^ 63 ∈ c.sizes ↔ (∃ l ∈ c.storage, 2 ^ 63 ∈ l.limit.sizes) ∨ c.maxRam = 2 ^ 63 ∨
      c.uploadRateLimit = 2 ^ 63 ∨ c.downloadRateLimit = 2 ^ 63 := by
    simp only [Config.sizes, List.mem_append, List.mem_flatMap, List.mem_cons, List.not_mem_nil, or_false,
      eq_comm]
  rw [hmem, ← hs, ← hm, ← hu, ← hd, Config.toYaml]
  cases c.storage.mapM StorageLocation.toYaml with
  | none => simp
  | some ys =>
    cases serBytesizeOpt c.maxRam with
    | none => simp
    | some m =>
      cases serBytesizeOpt c.uploadRateLimit with
      | none => simp
      | some u => cases serBytesizeOpt c.downloadRateLimit <;> simp

/-- What is read back had every limit set and no size from 2^63 on. -/
theorem Config.sizes_lt_of_read {c c' : Config} {home : String} {y : Yaml} (range : c.InRange)
    (hy : c.toYaml = some y) (hread : Config.fromYaml lib fmt home y = .ok c') :
    (∀ l ∈ c.storage, l.limit ≠ .unset) ∧ ∀ n ∈ c.sizes, n < 2 ^ 63 := by
  obtain ⟨storage, maxRam, upload, download, hstorage, hmaxRam, hupload, hdownload, rfl⟩ :=
    Config.toYaml_eq_some.mp hy
  obtain ⟨-, -, h3, -, -, -, -, -, h9, -, h11, h12, -⟩ := Config.fromYaml_ok_iff.mp hread
  have hn := c.fields_nodup storage maxRam upload download
  rw [readField_written hn rfl] at h3 h9 h11 h12
  have hlimits := storage_of_read range.storage hstorage h3
  exact ⟨fun l hl => (hlimits l hl).1, Config.forall_sizes.mpr ⟨fun l hl => (hlimits l hl).2,
    optionalSize_lt range.maxRam hmaxRam h9, optionalSize_lt range.uploadRateLimit hupload h11,
    optionalSize_lt range.downloadRateLimit hdownload h12⟩⟩

/-- With every size below 2^63 a keyless configuration is written, and read back with its data dir. -/
theorem Config.read_of_sizes_lt (lib : YamlLib) (fmt : Formatters) (home : String) {c : Config}
    (range : c.InRange) (keyless : c.apiKey = "") (set : ∀ l ∈ c.storage, l.limit ≠ .unset)
    (small : ∀ n ∈ c.sizes, n < 2 ^ 63) :
    ∃ y c', c.toYaml = some y ∧ Config.fromYaml lib fmt home y = .ok c' ∧ c.ReadsAs fmt c' := by
  obtain ⟨hlimits, hram, hup, hdown⟩ := Config.forall_sizes.mp small
  obtain ⟨ys, storage', hys, hst, kept⟩ := storage_reread lib fmt range.storage set hlimits
  obtain ⟨maxRam, m, hmaxRam, hm, hmKept⟩ := optionalSize_reread lib fmt hram
  obtain ⟨upload, u, hupload, hu, huKept⟩ := optionalSize_reread lib fmt hup
  obtain ⟨download, d, hdownload, hd, hdKept⟩ := optionalSize_reread lib fmt hdown
  refine ⟨_, { c with
      storage := storage', scan := c.scan.reread, maxRam := m, uploadRateLimit := u, downloadRateLimit := d,
      statsInterval := wholeSecs c.statsInterval },
    Config.toYaml_eq_some.mpr ⟨ys, maxRam, upload, download, hys, hmaxRam, hupload, hdownload, rfl⟩, ?_,
    ⟨rfl, kept, hmKept, huKept, hdKept⟩⟩
  have hn := c.fields_nodup ys maxRam upload download
  have path : ∀ {p : PathBuf}, NormalPath p → dePath lib (.str (pathText p)) = .ok p :=
    fun hp => congrArg Except.ok (pathOf_pathText hp)
  have bounded : ∀ {n bound : Nat} (expected : String), n ≤ bound →
      deBounded lib expected bound (.int n) = .ok n :=
    fun _ hle => if_pos ⟨Int.natCast_nonneg _, by exact_mod_cast hle⟩
  refine Config.fromYaml_ok_iff.mpr ⟨?_, ?_, ?_, ?_, ?_, ?_, ?_, ?_, ?_, ?_, ?_, ?_,
    readDuration_reread hn rfl range.statsInterval (secs_dvd _), ?_, ?_⟩
  · exact (readField_written hn rfl _ _).trans (bounded _ range.port)
  · exact (readField_written hn rfl _ _).trans (path range.dataDir)
  · exact (readField_written hn (y := .seq ys) rfl _ _).trans hst
  · exact (readField_written hn rfl _ _).trans (ScanConfig.fromYaml_reread range.scan)
  · exact readField_written hn (y := .float c.aggressiveness) rfl _ _
  · exact (readField_written hn rfl _ _).trans (deSeq_deString c.keywordBlocklist)
  · exact readField_written hn (y := .bool c.preserveDeletedTorrents) rfl _ _
  · exact (readField_written hn rfl _ _).trans (bounded _ range.catalogCollapsePercent)
  · exact (readField_written hn rfl _ _).trans hm
  · refine (readField_present hn (v := if c.apiKey = "" then none else some (.str c.apiKey)) rfl _ _).trans ?_
    rw [if_pos keyless]
    exact congrArg Except.ok keyless.symm
  · exact (readField_written hn rfl _ _).trans hu
  · exact (readField_written hn rfl _ _).trans hd
  · exact readField_written hn (y := .bool c.debug) rfl _ _
  · refine (readField_present hn (v := c.logFile.map fun p => .str (pathText p)) rfl _ _).trans ?_
    cases hlog : c.logFile with
    | none => rfl
    | some p =>
      have hp := path (range.logFile p hlog)
      show (dePath lib (.str (pathText p))).map some = _
      rw [hp]
      rfl

theorem SizeKept.lt {n m : Nat} (kept : SizeKept fmt n m) (hmax : n ≤ u64Max) : n < 2 ^ 63 :=
  lt_of_reread hmax kept.text

theorem SizeKept.unique {n m m' : Nat} (kept : SizeKept fmt n m) (kept' : SizeKept fmt n m') : m = m' :=
  Except.ok.inj (Option.some.inj (kept.text.symm.trans kept'.text))

theorem LimitKept.unique {l m m' : StorageLimit} (kept : LimitKept fmt l m) (kept' : LimitKept fmt l m') :
    m = m' := by
  cases l with
  | unset => exact absurd kept id
  | all => cases m <;> cases m' <;> first | rfl | exact absurd kept id | exact absurd kept' id
  | bytes n =>
    cases m with
    | bytes k =>
      cases m' with
      | bytes k' => exact congrArg _ (SizeKept.unique kept kept')
      | _ => exact absurd kept' id
    | _ => exact absurd kept id

theorem storage_unique {storage ls ls' : List StorageLocation}
    (kept : List.Forall₂ (LocationKept fmt) storage ls) (kept' : List.Forall₂ (LocationKept fmt) storage ls') :
    ls = ls' := by
  induction kept generalizing ls' with
  | nil => exact (List.forall₂_nil_left_iff.mp kept').symm
  | @cons l a storage ls hl _ ih =>
    obtain ⟨a', rest', hl', hrest', rfl⟩ := List.forall₂_cons_left_iff.mp kept'
    obtain rfl := ih hrest'
    obtain ⟨path, limit⟩ := a
    obtain ⟨path', limit'⟩ := a'
    obtain rfl : path = path' := hl.1.trans hl'.1.symm
    obtain rfl : limit = limit' := LimitKept.unique hl.2 hl'.2
    rfl

theorem Config.ReadsAs.unique {c c' c'' : Config} (reads : c.ReadsAs fmt c') (reads' : c.ReadsAs fmt c'') :
    c' = c'' := by
  rw [reads.shape, reads'.shape, storage_unique reads.storage reads'.storage,
    reads.maxRam.unique reads'.maxRam, reads.uploadRateLimit.unique reads'.uploadRateLimit,
    reads.downloadRateLimit.unique reads'.downloadRateLimit]

theorem LimitKept.written {l l' : StorageLimit} (kept : LimitKept fmt l l') (hmax : LimitInRange l) :
    l ≠ .unset ∧ ∀ n ∈ l.sizes, n < 2 ^ 63 := by
  cases l with
  | unset => exact absurd kept id
  | all => exact ⟨by simp, by simp [StorageLimit.sizes]⟩
  | bytes n =>
    cases l' with
    | bytes m => exact ⟨by simp, List.forall_mem_singleton.mpr (SizeKept.lt kept hmax)⟩
    | _ => exact absurd kept id

theorem storage_written {storage storage' : List StorageLocation} (range : ∀ l ∈ storage, LocationInRange l)
    (kept : List.Forall₂ (LocationKept fmt) storage storage') :
    ∀ l ∈ storage, l.limit ≠ .unset ∧ ∀ n ∈ l.limit.sizes, n < 2 ^ 63 := by
  induction kept with
  | nil => simp
  | cons hl _ ih =>
    obtain ⟨⟨-, hmax⟩, range⟩ := List.forall_mem_cons.mp range
    exact List.forall_mem_cons.mpr ⟨hl.2.written hmax, ih range⟩

/-- A configuration that is read back had every limit set and no size from 2^63 on. -/
theorem Config.ReadsAs.written {c c' : Config} (reads : c.ReadsAs fmt c') (range : c.InRange) :
    (∀ l ∈ c.storage, l.limit ≠ .unset) ∧ ∀ n ∈ c.sizes, n < 2 ^ 63 := by
  have hlimits := storage_written range.storage reads.storage
  exact ⟨fun l hl => (hlimits l hl).1, Config.forall_sizes.mpr ⟨fun l hl => (hlimits l hl).2,
    reads.maxRam.lt range.maxRam, reads.uploadRateLimit.lt range.uploadRateLimit,
    reads.downloadRateLimit.lt range.downloadRateLimit⟩⟩

theorem checkStorageLimit_kept {path : PathBuf} {l l' : StorageLimit} (kept : LimitKept fmt l l')
    (h : checkStorageLimit fmt path l = .ok ()) : checkStorageLimit fmt path l' = .ok () := by
  cases l with
  | unset => exact absurd kept (by simp [LimitKept])
  | all => cases l' <;> simp_all [LimitKept, checkStorageLimit]
  | bytes n =>
    cases l' with
    | unset => exact absurd kept id
    | all => exact absurd kept id
    | bytes m =>
      have hle := of_decide_eq_true (ensure_ok_iff.mp h)
      have hfloor := SizeKept.floor kept 2 (by norm_num) (show 100 * 1024 ^ 2 ≤ n by
        unfold minStorageLimit at hle
        omega)
      refine ensure_ok_iff.mpr (decide_eq_true ?_)
      unfold minStorageLimit
      omega

theorem limit_set {path : PathBuf} {l l' : StorageLimit} (kept : LimitKept fmt l l')
    (h : checkStorageLimit fmt path l' = .ok ()) : l' ≠ .unset ∧ l' ≠ .bytes 0 := by
  cases l' with
  | unset => cases l <;> exact absurd kept id
  | all => exact ⟨by simp, by simp⟩
  | bytes m =>
    have hle := of_decide_eq_true (ensure_ok_iff.mp h)
    refine ⟨by simp, fun hzero => ?_⟩
    rw [StorageLimit.bytes.inj hzero] at hle
    exact absurd hle (by decide)

theorem checkLocation_kept {seen out : List PathBuf} {l l' : StorageLocation} (kept : LocationKept fmt l l')
    (h : checkLocation fmt canonicalize seen l = .ok out) :
    checkLocation fmt canonicalize seen l' = .ok out := by
  obtain ⟨hpath, hkept⟩ := kept
  simp only [checkLocation, except_bind_eq_ok, hpath] at h ⊢
  obtain ⟨_, h1, _, h2, _, h3, _, h4, h5⟩ := h
  have hfloor := checkStorageLimit_kept hkept h3
  exact ⟨_, h1, (), ensure_ok_iff.mpr (decide_eq_true (limit_set hkept hfloor)), _, hfloor, _, h4, h5⟩

theorem storage_kept {seen out : List PathBuf} {storage storage' : List StorageLocation}
    (kept : List.Forall₂ (LocationKept fmt) storage storage')
    (h : storage.foldlM (checkLocation fmt canonicalize) seen = .ok out) :
    storage'.foldlM (checkLocation fmt canonicalize) seen = .ok out := by
  induction kept generalizing seen with
  | nil => exact h
  | cons hkept _ ih =>
    rw [List.foldlM_cons] at h ⊢
    obtain ⟨seen', hl, hrest⟩ := except_bind_eq_ok.mp h
    exact except_bind_eq_ok.mpr ⟨seen', checkLocation_kept hkept hl, ih hrest⟩

theorem checkBandwidthLimit_kept {flag : String} {n m : Nat} (kept : SizeKept fmt n m)
    (h : checkBandwidthLimit flag n = .ok ()) : checkBandwidthLimit flag m = .ok () := by
  refine ensure_ok_iff.mpr (decide_eq_true ?_)
  rcases of_decide_eq_true (ensure_ok_iff.mp h) with hzero | hle
  · exact .inl (kept.zero hzero)
  · have hfloor := kept.floor 1 (by norm_num) (show 100 * 1024 ^ 1 ≤ n by
      unfold minBandwidthLimit at hle
      omega)
    unfold minBandwidthLimit
    omega

theorem wholeSecs_le (d : Duration) : wholeSecs d ≤ d := Nat.div_mul_le_self d (10 ^ 9)

theorem checkDurationKnob_wholeSecs {name : String} {d : Duration} (h : checkDurationKnob name d = .ok ()) :
    checkDurationKnob name (wholeSecs d) = .ok () := by
  have hle := of_decide_eq_true (ensure_ok_iff.mp h)
  exact ensure_ok_iff.mpr (decide_eq_true ((wholeSecs_le d).trans hle))

theorem durations_kept {ds : List (String × Duration)} {u : PUnit}
    (h : (ds.forM fun p => checkDurationKnob p.1 p.2) = .ok u) :
    ((ds.map fun p => (p.1, wholeSecs p.2)).forM fun p => checkDurationKnob p.1 p.2) = .ok () := by
  induction ds with
  | nil => rfl
  | cons p ds ih =>
    rw [List.forM_eq_forM, List.forM_cons] at h
    obtain ⟨_, hp, hrest⟩ := except_bind_eq_ok.mp h
    rw [List.map_cons, List.forM_eq_forM, List.forM_cons]
    exact except_bind_eq_ok.mpr ⟨(), checkDurationKnob_wholeSecs hp, ih hrest⟩

theorem wholeSecs_gap {d : Duration} (h : ¬(d > 0 ∧ d < secs 60)) : ¬(wholeSecs d > 0 ∧ wholeSecs d < secs 60) := by
  rintro ⟨hpos, hlt⟩
  have hsecs : secs 60 ≤ d := not_lt.mp fun hd => h ⟨hpos.trans_le (wholeSecs_le d), hd⟩
  have hkept : secs 60 ≤ wholeSecs d := Nat.mul_le_mul_right _ ((Nat.le_div_iff_mul_le (by norm_num)).mpr hsecs)
  exact absurd hlt (not_lt.mpr hkept)

/-- A valid configuration is valid again as it is read back. -/
theorem Config.ReadsAs.validate {c c' : Config} (reads : c.ReadsAs fmt c')
    (valid : c.validate fmt canonicalize = .ok ()) : c'.validate fmt canonicalize = .ok () := by
  obtain ⟨shape, hstorage, hram, hup, hdown⟩ := reads
  rw [shape]
  simp only [Config.validate, except_bind_eq_ok] at valid ⊢
  obtain ⟨_, h1, _, h2, _, h3, _, h4, _, h5, _, h6, _, h7, _, h8, _, h9, _, h10, _, h11, _, h12, _, h13, h14⟩ :=
    valid
  refine ⟨(), ?_, _, storage_kept hstorage h2, _, h3, _, h4, _, h5, _, h6, _, h7, (), ?_, _, h9, _, h10, (),
    durations_kept h11, _, checkBandwidthLimit_kept hram h12, _, checkBandwidthLimit_kept hup h13,
    checkBandwidthLimit_kept hdown h14⟩
  · have hne := of_decide_eq_true (ensure_ok_iff.mp h1)
    refine ensure_ok_iff.mpr (decide_eq_true fun hnil => hne ?_)
    rw [hnil] at hstorage
    exact List.forall₂_nil_right_iff.mp hstorage
  · exact ensure_ok_iff.mpr (decide_eq_true (wholeSecs_gap (of_decide_eq_true (ensure_ok_iff.mp h8))))

end KeepAt
