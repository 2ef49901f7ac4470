import KeepAt.Cli
import KeepAt.ConfigReload

namespace KeepAt

/-- Each location stands at a path of the list with the limit that the text at the same place stands
for. -/
def Carries (fmt : Formatters) (paths : List PathBuf) (limits : List String)
    (locs : List StorageLocation) : Prop :=
  locs.map StorageLocation.path = paths ∧
    locs.map (fun l => Except.ok l.limit) = limits.map (StorageLimit.parse fmt)

theorem Carries.append {fmt : Formatters} {ps qs : List PathBuf} {ls ms : List String}
    {as bs : List StorageLocation} (ha : Carries fmt ps ls as) (hb : Carries fmt qs ms bs) :
    Carries fmt (ps ++ qs) (ls ++ ms) (as ++ bs) := by
  unfold Carries
  simp only [List.map_append, ha.1, ha.2, hb.1, hb.2, and_self]

theorem carries_single {fmt : Formatters} {raw : String} {limit : StorageLimit}
    (h : StorageLimit.parse fmt raw = .ok limit) (path : PathBuf) :
    Carries fmt [path] [raw] [⟨path, limit⟩] :=
  ⟨rfl, congrArg (fun x => [x]) h.symm⟩

namespace ConfigArgs

variable {fmt : Formatters} {home : String}

theorem pairLocations_of_le {paths : List PathBuf} {limits : List String}
    (parses : ∀ raw ∈ limits, ∃ limit, StorageLimit.parse fmt raw = .ok limit)
    (h : paths.length ≤ limits.length) :
    ∃ locs, pairLocations fmt paths limits = .ok (locs, limits.drop paths.length) ∧
      Carries fmt paths (limits.take paths.length) locs := by
  induction paths generalizing limits with
  | nil => exact ⟨[], rfl, rfl, rfl⟩
  | cons path paths ih =>
    cases limits with
    | nil => exact absurd h (by simp)
    | cons raw limits =>
      obtain ⟨limit, hlimit⟩ := parses raw List.mem_cons_self
      obtain ⟨locs, hlocs, hcarries⟩ := ih (fun r hr => parses r (List.mem_cons_of_mem _ hr))
        (Nat.le_of_succ_le_succ h)
      refine ⟨⟨path, limit⟩ :: locs, ?_, (carries_single hlimit path).append hcarries⟩
      simp only [pairLocations, hlimit, hlocs]
      rfl

/-- A location without a limit is an error, whatever the limits before it are. -/
theorem pairLocations_short {paths : List PathBuf} {limits : List String}
    (h : limits.length < paths.length) : ∃ e, pairLocations fmt paths limits = .error e := by
  induction paths generalizing limits with
  | nil => exact absurd h (Nat.not_lt_zero _)
  | cons path paths ih =>
    cases limits with
    | nil => exact ⟨_, rfl⟩
    | cons raw limits =>
      obtain ⟨e, he⟩ := ih (Nat.lt_of_succ_lt_succ h)
      cases hlimit : StorageLimit.parse fmt raw with
      | error cause => exact ⟨cause, by simp only [pairLocations, hlimit]; rfl⟩
      | ok limit => exact ⟨e, by simp only [pairLocations, hlimit, he]; rfl⟩

/-- The locations the flags name, in the order the flags pair them with limits. -/
def named (args : ConfigArgs) : List PathBuf := args.storageLocation ++ args.storage.toList

/-- A limit alone, which is meant for the default location. -/
def LimitAlone (args : ConfigArgs) : Prop := args.named = [] ∧ args.storageLimit.length = 1

instance (args : ConfigArgs) : Decidable args.LimitAlone :=
  inferInstanceAs (Decidable (args.named = [] ∧ args.storageLimit.length = 1))

/-- The flags succeed exactly when every named location has a limit of its own and no limit is left, or
with one limit alone, and then carry exactly these locations with these limits. -/
def PairsOneToOne (fmt : Formatters) (home : String) (args : ConfigArgs) : Prop :=
  ((∃ locs, args.storageFromFlags fmt home = .ok locs) ↔
    args.storageLimit.length = args.storageLocation.length + args.storage.toList.length ∨
      args.LimitAlone) ∧
  ∀ locs, args.storageFromFlags fmt home = .ok locs →
    Carries fmt (if args.LimitAlone then [defaultStorageLocation home] else args.named)
      args.storageLimit locs

/-- More locations than limits. -/
theorem pairsOneToOne_short {args : ConfigArgs}
    (h : args.storageLimit.length < args.storageLocation.length) : args.PairsOneToOne fmt home := by
  obtain ⟨e, he⟩ := @pairLocations_short fmt _ _ h
  have hfail : args.storageFromFlags fmt home = .error e := by
    simp only [storageFromFlags, he]
    rfl
  have halone : ¬args.LimitAlone := by
    rintro ⟨hnamed, -⟩
    have hlen := congrArg List.length hnamed
    simp only [named, List.length_append, List.length_nil] at hlen
    omega
  refine ⟨?_, fun locs hlocs => ?_⟩
  · rw [hfail]
    simp only [reduceCtorEq, exists_false, false_iff, not_or]
    exact ⟨by omega, halone⟩
  · rw [hfail] at hlocs
    cases hlocs

/-- With a limit for every location, what is left decides. -/
theorem storageFromFlags_of_le {args : ConfigArgs}
    (parses : ∀ raw ∈ args.storageLimit, ∃ limit, StorageLimit.parse fmt raw = .ok limit)
    (h : args.storageLocation.length ≤ args.storageLimit.length) :
    ∃ locs leftover, args.storageLimit = args.storageLimit.take args.storageLocation.length ++ leftover ∧
      args.storageLimit.length = args.storageLocation.length + leftover.length ∧
      Carries fmt args.storageLocation (args.storageLimit.take args.storageLocation.length) locs ∧
      args.storageFromFlags fmt home = placeLeftover fmt home locs args.storage leftover := by
  obtain ⟨locs, hpair, hcarries⟩ := pairLocations_of_le parses h
  refine ⟨locs, _, (List.take_append_drop _ _).symm, ?_, hcarries, ?_⟩
  · rw [List.length_drop]
    omega
  · simp only [storageFromFlags, hpair]
    rfl

theorem PairsOneToOne.of_error {args : ConfigArgs} {e : String}
    (fails : args.storageFromFlags fmt home = .error e)
    (hlen : args.storageLimit.length ≠ args.storageLocation.length + args.storage.toList.length)
    (halone : ¬args.LimitAlone) : args.PairsOneToOne fmt home := by
  refine ⟨?_, fun locs hlocs => ?_⟩
  · rw [fails]
    simp only [reduceCtorEq, exists_false, false_iff, not_or]
    exact ⟨hlen, halone⟩
  · rw [fails] at hlocs
    cases hlocs

theorem PairsOneToOne.of_ok {args : ConfigArgs} {locs : List StorageLocation}
    (succeeds : args.storageFromFlags fmt home = .ok locs)
    (hlen : args.storageLimit.length = args.storageLocation.length + args.storage.toList.length ∨
      args.LimitAlone)
    (carries : Carries fmt (if args.LimitAlone then [defaultStorageLocation home] else args.named)
      args.storageLimit locs) : args.PairsOneToOne fmt home := by
  refine ⟨iff_of_true ⟨locs, succeeds⟩ hlen, fun locs' hlocs' => ?_⟩
  obtain rfl := Except.ok.inj (succeeds.symm.trans hlocs')
  exact carries

theorem not_limitAlone_of_storage {args : ConfigArgs} {path : PathBuf} (h : args.storage = some path) :
    ¬args.LimitAlone := by
  rintro ⟨hnamed, -⟩
  simp [named, h] at hnamed

/-- `--storage` takes the one limit that is left. -/
theorem pairsOneToOne_storage {args : ConfigArgs} {path : PathBuf} (storage : args.storage = some path)
    (parses : ∀ raw ∈ args.storageLimit, ∃ limit, StorageLimit.parse fmt raw = .ok limit)
    (h : args.storageLocation.length ≤ args.storageLimit.length) : args.PairsOneToOne fmt home := by
  obtain ⟨locs, leftover, hsplit, hlen, hcarries, hflags⟩ := @storageFromFlags_of_le fmt home _ parses h
  have halone := not_limitAlone_of_storage storage
  have hone : args.storage.toList.length = 1 := by rw [storage]; rfl
  rw [storage] at hflags
  match leftover, hsplit, hlen, hflags with
  | [], _, hlen, hflags =>
    refine .of_error hflags ?_ halone
    rw [hone, hlen]
    exact Nat.ne_of_lt (Nat.lt_succ_self _)
  | [raw], hsplit, hlen, hflags =>
    obtain ⟨limit, hlimit⟩ := parses raw (hsplit ▸ List.mem_append_right _ List.mem_cons_self)
    rw [placeLeftover, hlimit] at hflags
    refine .of_ok hflags (.inl (hlen.trans (by rw [hone]; rfl))) ?_
    rw [if_neg halone, named, storage, hsplit]
    exact hcarries.append (carries_single hlimit path)
  | _ :: _ :: _, _, hlen, hflags =>
    refine .of_error hflags ?_ halone
    rw [hone, hlen, List.length_cons, List.length_cons]
    omega

/-- Without `--storage` one limit left over goes to the default location, named or not. -/
theorem pairsOneToOne_bare_iff {args : ConfigArgs} (storage : args.storage = none)
    (parses : ∀ raw ∈ args.storageLimit, ∃ limit, StorageLimit.parse fmt raw = .ok limit)
    (h : args.storageLocation.length ≤ args.storageLimit.length) :
    args.PairsOneToOne fmt home ↔
      ¬(args.storageLocation ≠ [] ∧ args.storageLimit.length = args.storageLocation.length + 1) := by
  obtain ⟨locs, leftover, hsplit, hlen, hcarries, hflags⟩ := @storageFromFlags_of_le fmt home _ parses h
  have hnone : args.storage.toList.length = 0 := by rw [storage]; rfl
  have hnamed : args.named = args.storageLocation := by rw [named, storage]; exact List.append_nil _
  rw [storage] at hflags
  match leftover, hsplit, hlen, hflags with
  | [], hsplit, hlen, hflags =>
    refine iff_of_true (.of_ok hflags (.inl (by rw [hnone]; exact hlen)) ?_) ?_
    · have halone : ¬args.LimitAlone := by
        rintro ⟨hempty, hone⟩
        rw [hnamed] at hempty
        rw [hempty, hone] at hlen
        cases hlen
      rw [if_neg halone, hnamed, hsplit, List.append_nil]
      exact hcarries
    · rw [hlen]
      simp
  | [raw], hsplit, hlen, hflags =>
    obtain ⟨limit, hlimit⟩ := parses raw (hsplit ▸ List.mem_append_right _ List.mem_cons_self)
    rw [placeLeftover, hlimit] at hflags
    by_cases hempty : args.storageLocation = []
    · have halone : args.LimitAlone := ⟨hnamed.trans hempty, by rw [hlen, hempty]; rfl⟩
      refine iff_of_true (.of_ok hflags (.inr halone) ?_) (fun hsurplus => hsurplus.1 hempty)
      have hcarried := hcarries.append (carries_single hlimit (defaultStorageLocation home))
      rw [if_pos halone, hsplit]
      rwa [hempty] at hcarried ⊢
    · refine iff_of_false (fun hpairs => ?_) (fun hright => hright ⟨hempty, hlen⟩)
      rcases hpairs.1.mp ⟨_, hflags⟩ with heq | ⟨halone, -⟩
      · rw [hnone, hlen] at heq
        exact absurd heq (Nat.succ_ne_self _)
      · exact hempty (hnamed.symm.trans halone)
  | _ :: _ :: _, _, hlen, hflags =>
    rw [List.length_cons, List.length_cons] at hlen
    refine iff_of_true (.of_error hflags (by omega) ?_) (fun hsurplus => by omega)
    rintro ⟨-, hone⟩
    omega

/-- The flags pair up one to one except where one limit more than the named locations is given and
`--storage` is not: that limit goes to the default location nobody named. -/
theorem storage_flags_pair_iff (fmt : Formatters) (home : String) (args : ConfigArgs)
    (parses : ∀ raw ∈ args.storageLimit, ∃ limit, StorageLimit.parse fmt raw = .ok limit) :
    args.PairsOneToOne fmt home ↔
      ¬(args.storageLocation ≠ [] ∧ args.storage = none ∧
        args.storageLimit.length = args.storageLocation.length + 1) := by
  rcases Nat.lt_or_ge args.storageLimit.length args.storageLocation.length with hlt | hge
  · exact iff_of_true (pairsOneToOne_short hlt) (fun h => by omega)
  · cases hstorage : args.storage with
    | none =>
      rw [pairsOneToOne_bare_iff hstorage parses hge]
      simp
    | some path => exact iff_of_true (pairsOneToOne_storage hstorage parses hge) (by simp)

end ConfigArgs

namespace Reference

def storageArgs (limits : List String) : ConfigArgs :=
  { storageLocation := [["/", "mnt", "a"]], storageLimit := limits }

theorem max_parses : ∀ raw ∈ ["max", "max"], ∃ limit, StorageLimit.parse formatters raw = .ok limit := by
  intro raw hraw
  have hmax : raw = "max" := by simpa using hraw
  exact ⟨.all, hmax ▸ by decide⟩

end Reference

theorem ConfigArgs.storage_flags_pair_single :
    (Reference.storageArgs ["max"]).PairsOneToOne Reference.formatters "/root" :=
  (ConfigArgs.storage_flags_pair_iff Reference.formatters "/root" (Reference.storageArgs ["max"])
    fun raw hraw => Reference.max_parses raw (List.mem_cons_of_mem _ hraw)).mpr (by decide)

/-- Of two limits for one location the second fills a directory under the home. -/
theorem ConfigArgs.surplus_limit_fills_default :
    (∀ raw ∈ (Reference.storageArgs ["max", "max"]).storageLimit,
      ∃ limit, StorageLimit.parse Reference.formatters raw = .ok limit) ∧
    (Reference.storageArgs ["max", "max"]).storageFromFlags Reference.formatters "/root" =
      .ok [⟨["/", "mnt", "a"], .all⟩,
        ⟨["/", "root", ".local", "share", "keep-at", "storage"], .all⟩] ∧
    ¬(Reference.storageArgs ["max", "max"]).PairsOneToOne Reference.formatters "/root" := by
  have hfills : (Reference.storageArgs ["max", "max"]).storageFromFlags Reference.formatters "/root" =
      .ok [⟨["/", "mnt", "a"], .all⟩,
        ⟨["/", "root", ".local", "share", "keep-at", "storage"], .all⟩] := by decide
  refine ⟨Reference.max_parses, hfills, fun hpairs => ?_⟩
  rcases hpairs.1.mp ⟨_, hfills⟩ with hlen | halone
  · exact absurd hlen (by decide)
  · exact absurd halone (by decide)

end KeepAt
