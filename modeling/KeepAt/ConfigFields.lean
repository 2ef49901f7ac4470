import KeepAt.ConfigFile
import KeepAt.SizeRoundTrip

namespace KeepAt

variable {lib : YamlLib} {fmt : Formatters}

theorem except_bind_eq_ok {ε α β : Type} {x : Except ε α} {f : α → Except ε β} {b : β} :
    x >>= f = .ok b ↔ ∃ a, x = .ok a ∧ f a = .ok b := by
  cases x with
  | error e => exact ⟨fun h => (by cases h), fun ⟨_, h, _⟩ => (by cases h)⟩
  | ok a => exact ⟨fun h => ⟨a, rfl, h⟩, fun ⟨_, h, h'⟩ => Except.ok.inj h ▸ h'⟩

theorem lookup_presentFields {fields : List (String × Option Yaml)} (h : (fields.map Prod.fst).Nodup)
    (name : String) : (presentFields fields).lookup name = (fields.lookup name).join := by
  induction fields with
  | nil => rfl
  | cons f fields ih =>
    obtain ⟨k, v⟩ := f
    obtain ⟨hk, hrest⟩ := List.nodup_cons.mp h
    have hi := ih hrest
    by_cases hname : name = k
    · subst hname
      have hnone : fields.lookup name = none := List.lookup_eq_none_iff.mpr fun p hp =>
        bne_iff_ne.mpr fun he => hk (List.mem_map.mpr ⟨p, hp, he.symm⟩)
      cases v with
      | none =>
        rw [presentFields, List.filterMap_cons, Option.map_none, List.lookup_cons_self]
        exact hi.trans (by rw [hnone]; rfl)
      | some y => simp [presentFields]
    · have hne : (name == k) = false := beq_false_of_ne hname
      have hcons : List.lookup name ((k, v) :: fields) = fields.lookup name := by
        rw [List.lookup_cons, hne]
      rw [hcons, ← hi]
      cases v with
      | none => rfl
      | some y =>
        rw [presentFields, List.filterMap_cons, Option.map_some, List.lookup_cons, hne]
        rfl

theorem readField_present {α : Type} {fields : List (String × Option Yaml)} {name : String}
    {v : Option Yaml} (h : (fields.map Prod.fst).Nodup) (hv : fields.lookup name = some v)
    (absent : Except String α) (de : Yaml → Except String α) :
    readField (presentFields fields) name absent de = v.elim absent de := by
  rw [readField, lookup_presentFields h, hv]
  cases v <;> rfl

theorem readField_written {α : Type} {fields : List (String × Option Yaml)} {name : String} {y : Yaml}
    (h : (fields.map Prod.fst).Nodup) (hv : fields.lookup name = some (some y))
    (absent : Except String α) (de : Yaml → Except String α) :
    readField (presentFields fields) name absent de = de y :=
  readField_present h hv absent de

theorem Config.fields_nodup (c : Config) (storage : List Yaml) (maxRam upload download : Yaml) :
    ((c.fields storage maxRam upload download).map Prod.fst).Nodup := by
  show (["port", "data_dir", "storage", "scan", "aggressiveness", "keyword_blocklist",
    "preserve_deleted_torrents", "catalog_collapse_percent", "max_ram", "api_key", "upload_rate_limit",
    "download_rate_limit", "stats_interval", "debug", "log_file"] : List String).Nodup
  decide

theorem ScanConfig.fields_nodup (s : ScanConfig) : (s.fields.map Prod.fst).Nodup := by
  show (["interval", "rate_limit_per_second", "min_seed_margin", "moderation_delay",
    "stall_eviction_timeout", "vanished_eviction_timeout", "quarantine_check_interval",
    "broken_piece_discard_bytes", "broken_piece_min_windows", "quarantine_cooldown",
    "quarantine_max_retries"] : List String).Nodup
  decide

theorem toLower_of_isNumberChar {c : Char} (h : isNumberChar c = true) : c.toLower = c := by
  rcases Bool.or_eq_true_iff.mp h with h | h
  · have hr : c.toNat ≤ 57 := (Char.isDigit_iff_toNat.mp h).2
    refine dif_neg fun hc => ?_
    have h65 : 65 ≤ c.toNat := UInt32.le_iff_toNat_le.mp hc.1
    omega
  · rw [beq_iff_eq.mp h]
    rfl

/-- The text of a size is no keyword. -/
theorem storageLimit_parse_size {n : Nat} (hmax : n ≤ u64Max) {s : String} (h : formatByteSize n = some s) :
    StorageLimit.parse fmt s = (parseByteSize fmt s).map .bytes := by
  obtain ⟨c, l, rfl, hc, hplain⟩ := formatByteSize_plain hmax h
  have hlower : c.toLower = c := by
    rcases hc with hc | rfl
    · exact toLower_of_isNumberChar hc
    · rfl
  have hletter : c ≠ 'm' ∧ c ≠ 'a' := by
    constructor <;> rintro rfl <;> revert hc <;> decide
  have hmax : ¬((c :: l).map Char.toLower = "max".toList ∨ (c :: l).map Char.toLower = "all".toList) := by
    rintro (h | h)
    · exact hletter.1 (hlower.symm.trans (List.cons.inj h).1)
    · exact hletter.2 (hlower.symm.trans (List.cons.inj h).1)
  simp only [StorageLimit.parse, String.toList_ofList, trim_eq_self hplain, if_neg hmax]

/-- The limits a file can carry. -/
def LimitExact : StorageLimit → Prop
  | .bytes n => OneDecimal n
  | .all => True
  | .unset => False

def LimitInRange : StorageLimit → Prop
  | .bytes n => n ≤ u64Max
  | _ => True

theorem deLimit_serLimit_iff (lib : YamlLib) (fmt : Formatters) {l : StorageLimit} (hmax : LimitInRange l) :
    (serLimit l).map (deLimit lib fmt) = some (.ok l) ↔ LimitExact l := by
  cases l with
  | unset =>
    refine iff_of_false ?_ id
    have hempty : StorageLimit.parse fmt "" =
        .error "empty byte size (e.g. 500G, 2T, or max for a dedicated drive)" := rfl
    simp only [serLimit, Option.map_some, deLimit, deString, Except.bind, hempty, Option.some.injEq]
    exact fun h => (by cases h)
  | all => exact iff_of_true rfl trivial
  | bytes n =>
    have hiff := parseByteSize_formatByteSize_iff fmt (n := n) hmax
    simp only [serLimit, LimitExact, ← hiff]
    cases hs : formatByteSize n with
    | none => simp
    | some s =>
      simp only [Option.map_some, deLimit, deString, Except.bind, storageLimit_parse_size hmax hs,
        Option.some.injEq]
      cases parseByteSize fmt s with
      | error e => simp [Except.map]
      | ok m => simp [Except.map]

theorem deBytesizeOpt_serBytesizeOpt_iff (lib : YamlLib) (fmt : Formatters) {n : Nat}
    (hmax : n ≤ u64Max) :
    (serBytesizeOpt n).map (deBytesizeOpt lib fmt) = some (.ok n) ↔ OneDecimal n := by
  unfold serBytesizeOpt
  split
  next h => exact iff_of_true (by subst h; rfl) (Or.inl (by omega))
  next =>
    rw [← parseByteSize_formatByteSize_iff fmt hmax, Option.map_map]
    rfl

theorem readDuration_iff {fields : List (String × Option Yaml)} {name : String} {d default : Duration}
    (hnodup : (fields.map Prod.fst).Nodup) (hv : fields.lookup name = some (durationField d default))
    (hmax : asSecs d ≤ u64Max) (hdefault : 10 ^ 9 ∣ default) :
    readDuration lib (presentFields fields) name default = .ok d ↔ 10 ^ 9 ∣ d := by
  rw [readDuration, readField_present hnodup hv, durationField]
  split
  next h => exact iff_of_true (by rw [h]; rfl) (h ▸ hdefault)
  next h =>
    have hread : deDurationSecs lib default (serDurationSecsOpt d) = .ok (secs (asSecs d)) := by
      simp only [serDurationSecsOpt, deDurationSecs, deOption, deU64, deBounded]
      rw [if_pos ⟨by omega, by exact_mod_cast hmax⟩]
      rfl
    rw [Option.elim_some, hread, Except.ok.injEq, secs, asSecs]
    exact ⟨fun heq => ⟨d / 10 ^ 9, by rw [mul_comm]; exact heq.symm⟩, Nat.div_mul_cancel⟩

theorem StorageLocation.fromYaml_toYaml (lib : YamlLib) (fmt : Formatters) {l : StorageLocation}
    (hp : NormalPath l.path) {y : Yaml} (h : l.toYaml = some y) : ∃ v, serLimit l.limit = some v ∧
      StorageLocation.fromYaml lib fmt y = (deLimit lib fmt v).map (⟨l.path, ·⟩) := by
  obtain ⟨v, hv, rfl⟩ := Option.map_eq_some_iff.mp h
  refine ⟨v, hv, ?_⟩
  have hpath : dePath lib (.str (pathText l.path)) = .ok l.path := congrArg Except.ok (pathOf_pathText hp)
  show (dePath lib (.str (pathText l.path)) >>= fun path => deLimit lib fmt v >>= fun limit =>
    pure (⟨path, limit⟩ : StorageLocation)) = _
  rw [hpath]
  cases deLimit lib fmt v <;> rfl

def LocationInRange (l : StorageLocation) : Prop := NormalPath l.path ∧ LimitInRange l.limit

theorem storage_reread_exact {storage st' : List StorageLocation} {ys : List Yaml}
    (range : ∀ l ∈ storage, LocationInRange l) (hs : storage.mapM StorageLocation.toYaml = some ys)
    (hr : ys.mapM (StorageLocation.fromYaml lib fmt) = .ok st')
    (same : st'.map StorageLocation.limit = storage.map StorageLocation.limit) :
    ∀ l ∈ storage, LimitExact l.limit := by
  induction storage generalizing ys st' with
  | nil => simp
  | cons l storage ih =>
    obtain ⟨y, hy, hs⟩ := Option.bind_eq_some_iff.mp (List.mapM_cons.symm.trans hs)
    obtain ⟨zs, hzs, heq⟩ := Option.bind_eq_some_iff.mp hs
    obtain rfl := Option.some.inj heq
    rw [List.mapM_cons] at hr
    obtain ⟨l', hl', hr⟩ := except_bind_eq_ok.mp hr
    obtain ⟨rest, hrest, heq⟩ := except_bind_eq_ok.mp hr
    obtain rfl := Except.ok.inj heq
    obtain ⟨hlimit, hsame⟩ := List.cons.inj same
    obtain ⟨v, hv, hfrom⟩ := StorageLocation.fromYaml_toYaml lib fmt
      (range l List.mem_cons_self).1 hy
    refine List.forall_mem_cons.mpr ⟨?_, ih (fun l hl => range l (List.mem_cons_of_mem _ hl)) hzs hrest hsame⟩
    rw [hfrom] at hl'
    rw [← deLimit_serLimit_iff lib fmt (range l List.mem_cons_self).2, hv, Option.map_some,
      Option.some.injEq]
    cases hd : deLimit lib fmt v with
    | error e =>
      rw [hd] at hl'
      cases hl'
    | ok limit =>
      rw [hd] at hl'
      obtain rfl := Except.ok.inj hl'
      exact congrArg Except.ok hlimit

theorem storage_reread_of_exact (lib : YamlLib) (fmt : Formatters) {storage : List StorageLocation}
    (range : ∀ l ∈ storage, LocationInRange l) (exact : ∀ l ∈ storage, LimitExact l.limit) :
    ∃ ys, storage.mapM StorageLocation.toYaml = some ys ∧
      ys.mapM (StorageLocation.fromYaml lib fmt) = .ok storage := by
  induction storage with
  | nil => exact ⟨[], rfl, rfl⟩
  | cons l storage ih =>
    obtain ⟨zs, hzs, hrest⟩ := ih (fun l hl => range l (List.mem_cons_of_mem _ hl))
      (fun l hl => exact l (List.mem_cons_of_mem _ hl))
    have hlimit := (deLimit_serLimit_iff lib fmt (range l List.mem_cons_self).2).mpr
      (exact l List.mem_cons_self)
    obtain ⟨v, hv, hd⟩ := Option.map_eq_some_iff.mp hlimit
    have hy : l.toYaml = some (.map [("path", .str (pathText l.path)), ("limit", v)]) := by
      rw [StorageLocation.toYaml, hv]
      rfl
    obtain ⟨v', hv', hfrom⟩ := StorageLocation.fromYaml_toYaml lib fmt
      (range l List.mem_cons_self).1 hy
    obtain rfl := Option.some.inj (hv.symm.trans hv')
    refine ⟨_ :: zs, by rw [List.mapM_cons, hy, hzs]; rfl, ?_⟩
    rw [List.mapM_cons, hfrom, hd, hrest]
    rfl

theorem ScanConfig.fromYaml_ok_iff {fields : List (String × Yaml)} {s : ScanConfig} :
    ScanConfig.fromYaml lib (.map fields) = .ok s ↔
      readDuration lib fields "interval" defaultScanInterval = .ok s.interval ∧
      readField fields "rate_limit_per_second" (.ok defaultRateLimitPerSec) (deF64 lib) =
        .ok s.rateLimitPerSecond ∧
      readField fields "min_seed_margin" (.ok defaultMinSeedMargin) (deI32 lib) = .ok s.minSeedMargin ∧
      readDuration lib fields "moderation_delay" defaultModerationDelay = .ok s.moderationDelay ∧
      readDuration lib fields "stall_eviction_timeout" defaultStallEvictionTimeout =
        .ok s.stallEvictionTimeout ∧
      readDuration lib fields "vanished_eviction_timeout" defaultVanishedEvictionTimeout =
        .ok s.vanishedEvictionTimeout ∧
      readDuration lib fields "quarantine_check_interval" defaultQuarantineCheckInterval =
        .ok s.quarantineCheckInterval ∧
      readField fields "broken_piece_discard_bytes" (.ok defaultBrokenPieceDiscardBytes) (deU64 lib) =
        .ok s.brokenPieceDiscardBytes ∧
      readField fields "broken_piece_min_windows" (.ok defaultBrokenPieceMinWindows) (deU32 lib) =
        .ok s.brokenPieceMinWindows ∧
      readDuration lib fields "quarantine_cooldown" defaultQuarantineCooldown = .ok s.quarantineCooldown ∧
      readField fields "quarantine_max_retries" (.ok defaultQuarantineMaxRetries) (deU32 lib) =
        .ok s.quarantineMaxRetries := by
  simp only [ScanConfig.fromYaml, except_bind_eq_ok, deFields]
  constructor
  · rintro ⟨_, ⟨⟩, _, h1, _, h2, _, h3, _, h4, _, h5, _, h6, _, h7, _, h8, _, h9, _, h10, _, h11, ⟨⟩⟩
    exact ⟨h1, h2, h3, h4, h5, h6, h7, h8, h9, h10, h11⟩
  · rintro ⟨h1, h2, h3, h4, h5, h6, h7, h8, h9, h10, h11⟩
    exact ⟨_, rfl, _, h1, _, h2, _, h3, _, h4, _, h5, _, h6, _, h7, _, h8, _, h9, _, h10, _, h11, rfl⟩

theorem secs_dvd (n : Nat) : 10 ^ 9 ∣ secs n := Dvd.intro_left n rfl

theorem readCounter {fields : List (String × Option Yaml)} {name expected : String}
    {n default bound : Nat} (hnodup : (fields.map Prod.fst).Nodup)
    (hv : fields.lookup name = some (counterField n default)) (hmax : n ≤ bound) :
    readField (presentFields fields) name (.ok default) (deBounded lib expected bound) = .ok n := by
  rw [readField_present hnodup hv, counterField]
  split
  next h => rw [h]; rfl
  next => exact if_pos ⟨Int.natCast_nonneg n, by exact_mod_cast hmax⟩

def ScanConfig.durations (s : ScanConfig) : List Duration :=
  [s.interval, s.moderationDelay, s.stallEvictionTimeout, s.vanishedEvictionTimeout,
   s.quarantineCheckInterval, s.quarantineCooldown]

structure ScanConfig.InRange (s : ScanConfig) : Prop where
  durations : ∀ d ∈ s.durations, asSecs d ≤ u64Max
  minSeedMargin : -2 ^ 31 ≤ s.minSeedMargin ∧ s.minSeedMargin < 2 ^ 31
  brokenPieceDiscardBytes : s.brokenPieceDiscardBytes ≤ u64Max
  brokenPieceMinWindows : s.brokenPieceMinWindows ≤ 2 ^ 32 - 1
  quarantineMaxRetries : s.quarantineMaxRetries ≤ 2 ^ 32 - 1

theorem scan_durations_iff {s s' : ScanConfig} (range : s.InRange)
    (h : ScanConfig.fromYaml lib s.toYaml = .ok s') (same : s'.durations = s.durations) :
    ∀ d ∈ s.durations, 10 ^ 9 ∣ d := by
  obtain ⟨h1, -, -, h4, h5, h6, h7, -, -, h10, -⟩ := ScanConfig.fromYaml_ok_iff.mp h
  simp only [ScanConfig.durations, List.cons.injEq, and_true] at same
  obtain ⟨e1, e2, e3, e4, e5, e6⟩ := same
  have hd := range.durations
  simp only [ScanConfig.durations, List.forall_mem_cons, List.not_mem_nil, false_imp_iff, implies_true,
    and_true] at hd ⊢
  obtain ⟨r1, r2, r3, r4, r5, r6⟩ := hd
  have hn := s.fields_nodup
  exact ⟨(readDuration_iff hn rfl r1 (secs_dvd _)).mp (e1 ▸ h1),
    (readDuration_iff hn rfl r2 (secs_dvd _)).mp (e2 ▸ h4),
    (readDuration_iff hn rfl r3 (secs_dvd _)).mp (e3 ▸ h5),
    (readDuration_iff hn rfl r4 (secs_dvd _)).mp (e4 ▸ h6),
    (readDuration_iff hn rfl r5 (secs_dvd _)).mp (e5 ▸ h7),
    (readDuration_iff hn rfl r6 (secs_dvd _)).mp (e6 ▸ h10)⟩

theorem scan_reread_of_exact {s : ScanConfig} (range : s.InRange)
    (exact : ∀ d ∈ s.durations, 10 ^ 9 ∣ d) : ScanConfig.fromYaml lib s.toYaml = .ok s := by
  have hd := range.durations
  simp only [ScanConfig.durations, List.forall_mem_cons, List.not_mem_nil, false_imp_iff, implies_true,
    and_true] at hd exact
  obtain ⟨r1, r2, r3, r4, r5, r6⟩ := hd
  obtain ⟨x1, x2, x3, x4, x5, x6⟩ := exact
  have hn := s.fields_nodup
  refine ScanConfig.fromYaml_ok_iff.mpr ⟨(readDuration_iff hn rfl r1 (secs_dvd _)).mpr x1, ?_, ?_,
    (readDuration_iff hn rfl r2 (secs_dvd _)).mpr x2, (readDuration_iff hn rfl r3 (secs_dvd _)).mpr x3,
    (readDuration_iff hn rfl r4 (secs_dvd _)).mpr x4, (readDuration_iff hn rfl r5 (secs_dvd _)).mpr x5,
    readCounter hn rfl range.brokenPieceDiscardBytes, readCounter hn rfl range.brokenPieceMinWindows,
    (readDuration_iff hn rfl r6 (secs_dvd _)).mpr x6, readCounter hn rfl range.quarantineMaxRetries⟩
  · exact readField_written hn (y := .float s.rateLimitPerSecond) rfl _ _
  · exact (readField_written hn (y := .int s.minSeedMargin) rfl _ _).trans (if_pos range.minSeedMargin)

end KeepAt
