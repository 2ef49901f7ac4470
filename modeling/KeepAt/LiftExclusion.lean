import KeepAt.DetectorHistory
import KeepAt.LiveWatch

namespace KeepAt

/-- Nothing was verified since the last observation, and it makes the discarded bytes and the passes without
progress enough. -/
def WatchState.Stuck (ws : WatchState) (checked fetched discardThreshold minWindows : Nat) : Prop :=
  checked = ws.lastChecked ∧ ws.lastFetched ≤ fetched ∧
    discardThreshold ≤ saturatingAdd ws.wastedSinceProgress (fetched - ws.lastFetched) ∧
    max minWindows 1 ≤ min (ws.windowsWithoutProgress + 1) u32Max

theorem WatchState.observe_isSome {ws : WatchState} {checked fetched discardThreshold minWindows : Nat} :
    (ws.observe checked fetched discardThreshold minWindows).2.isSome ↔
      ws.Stuck checked fetched discardThreshold minWindows := by
  unfold WatchState.observe WatchState.Stuck
  split
  next hregressed =>
    refine ⟨fun h => absurd h (by simp), fun ⟨hsame, hrisen, _⟩ => ?_⟩
    omega
  next hunregressed =>
    split
    next hprogress =>
      refine ⟨fun h => absurd h (by simp), fun ⟨hsame, _⟩ => ?_⟩
      omega
    next hidle =>
      dsimp only
      split
      next htrips => exact ⟨fun _ => ⟨by omega, by omega, htrips⟩, fun _ => rfl⟩
      next hquiet => exact ⟨fun h => absurd h (by simp), fun ⟨_, _, htrips⟩ => absurd htrips hquiet⟩

section Sweep

variable {scan : ScanConfig} {quarantined : List String} {stats : String → SessionStats}

theorem tripAt_congr {d d' : Detector} {hex : String} (h : d.find hex = d'.find hex) :
    tripAt scan stats d hex = tripAt scan stats d' hex := by
  unfold tripAt Detector.observe
  rw [h]
  cases d'.find hex <;> rfl

theorem sweepOne_find (acc : Sweep) {hex key : String} (h : key ≠ hex) :
    (sweepOne scan quarantined stats acc hex).detector.find key = acc.detector.find key := by
  unfold sweepOne
  dsimp only
  split
  next =>
    rw [Detector.forget, KeyedList.find_erase, if_neg h]
  next =>
    split
    next => rfl
    next => exact Detector.observe_find_other h _ _

theorem foldl_sweepOne_trips {hexes : List String} (distinct : hexes.Nodup) (acc : Sweep) :
    (hexes.foldl (sweepOne scan quarantined stats) acc).trips =
      acc.trips ++ hexes.filterMap (tripAt scan stats acc.detector) := by
  induction hexes generalizing acc with
  | nil => exact (List.append_nil _).symm
  | cons hex hexes ih =>
    obtain ⟨hfresh, hdistinct⟩ := List.nodup_cons.mp distinct
    have hrest : hexes.filterMap (tripAt scan stats (sweepOne scan quarantined stats acc hex).detector) =
        hexes.filterMap (tripAt scan stats acc.detector) := by
      refine List.filterMap_congr fun key hkey => tripAt_congr (sweepOne_find acc fun heq => ?_)
      exact hfresh (heq ▸ hkey)
    rw [List.foldl_cons, ih hdistinct, sweepOne_trips, hrest, List.append_assoc, List.filterMap_cons]
    cases tripAt scan stats acc.detector hex <;> rfl

end Sweep

variable {s : Settings} {e : Engine} {stats : String → SessionStats} {hex : String}

/-- The detector's memory of a hash and its readings make it trip. -/
def TripsOn (s : Settings) (e : Engine) (stats : String → SessionStats) (hex : String) : Prop :=
  ∃ checked fetched key ws, liveCounters (stats hex) = some (checked, fetched) ∧
    e.detector.find hex = some (key, ws) ∧
    ws.Stuck checked fetched s.scan.brokenPieceDiscardBytes s.scan.brokenPieceMinWindows

theorem tripAt_isSome : (tripAt s.scan stats e.detector hex).isSome ↔ TripsOn s e stats hex := by
  unfold tripAt TripsOn
  cases hlive : liveCounters (stats hex) with
  | none => simp
  | some p =>
    rw [Option.bind_some, Option.isSome_map]
    unfold Detector.observe
    cases hfind : e.detector.find hex with
    | none => simp
    | some entry =>
      dsimp only
      rw [WatchState.observe_isSome]
      constructor
      · intro hstuck
        exact ⟨p.1, p.2, entry.1, entry.2, rfl, rfl, hstuck⟩
      · rintro ⟨checked, fetched, key, ws, hp, hentry, hstuck⟩
        rw [Option.some.inj hp, Option.some.inj hentry]
        exact hstuck

theorem mem_sweep_trips (distinct : e.session.Nodup) :
    hex ∈ (sweep s.scan e stats).trips.map Prod.fst ↔ hex ∈ e.session ∧ TripsOn s e stats hex := by
  rw [sweep, foldl_sweepOne_trips distinct, List.nil_append, ← tripAt_isSome, List.mem_map]
  constructor
  · rintro ⟨p, hp, rfl⟩
    obtain ⟨key, hmem, htrip⟩ := List.mem_filterMap.mp hp
    have heq := tripAt_key htrip
    rw [heq]
    exact ⟨hmem, by rw [htrip]; rfl⟩
  · rintro ⟨hmem, hsome⟩
    obtain ⟨p, hp⟩ := Option.isSome_iff_exists.mp hsome
    exact ⟨p, List.mem_filterMap.mpr ⟨hex, hmem, hp⟩, tripAt_key hp⟩

theorem enforceTrip_has (now : Time) (env : String → EvictEnv) (p : String × Trip) (key : String) :
    (enforceTrip s now env e p).state.torrents.Has key ↔ e.state.torrents.Has key ∧ key ≠ p.1 := by
  obtain ⟨hex, trip⟩ := p
  cases hget : e.state.get hex with
  | none =>
    have hfree := KeyedList.find_eq_none.mp hget
    rw [(enforceTrip_untracked s now env trip hget).1]
    exact ⟨fun h => ⟨h, fun heq : key = hex => hfree (heq ▸ h)⟩, And.left⟩
  | some held =>
    rw [(enforceTrip_tracked s now env trip hget).1]
    exact KeyedList.has_erase

theorem enforceTrips_has (now : Time) (env : String → EvictEnv) (trips : List (String × Trip)) (e : Engine)
    (key : String) : (trips.foldl (enforceTrip s now env) e).state.torrents.Has key ↔
      e.state.torrents.Has key ∧ key ∉ trips.map Prod.fst := by
  induction trips generalizing e with
  | nil => simp
  | cons p trips ih =>
    rw [List.foldl_cons, ih, enforceTrip_has, List.map_cons, List.mem_cons, not_or, and_assoc]

/-- The pass is on, and takes the entry of the hash off the registry because its torrent is complete. -/
def LiftedBy (s : Settings) (e : Engine) (env : PassEnv) (hex : String) : Prop :=
  s.scan.quarantineCheckInterval ≠ 0 ∧ hex ∈ lifts s e env.bookkeep.stats

/-- The pass is on, and trips the hash. -/
def QuarantinedBy (s : Settings) (e : Engine) (env : PassEnv) (hex : String) : Prop :=
  s.scan.quarantineCheckInterval ≠ 0 ∧ hex ∈ (bookkeep s e env.bookkeep).2.1.map Prod.fst

/-- What a pass no longer holds is what it trips. -/
theorem quarantinePass_has {env : PassEnv}
    (spelled : ∀ listed, e.lastCatalog.or env.reprobe.catalog = some listed → SpelledList listed)
    (held : e.state.torrents.Has hex) :
    (quarantinePass s e env).state.torrents.Has hex ↔ ¬QuarantinedBy s e env hex := by
  have hcatalog : (bookkeep s e env.bookkeep).1.lastCatalog = e.lastCatalog := rfl
  have hbooked : (quarantineReprobe s (bookkeep s e env.bookkeep).1 env.reprobe).state.torrents.Has hex := by
    rw [← hcatalog] at spelled
    obtain ⟨t, ht, rfl⟩ := KeyedList.has_iff.mp ((bookkeep_has (s := s) env.bookkeep hex).mpr held)
    exact KeyedList.has_of_mem (quarantineReprobe_keeps_held spelled ht)
  unfold QuarantinedBy quarantinePass
  by_cases hoff : s.scan.quarantineCheckInterval = 0
  · rw [if_pos hoff]
    exact ⟨fun _ h => h.1 hoff, fun _ => held⟩
  · rw [if_neg hoff]
    dsimp only
    split
    next hnone =>
      have htrips : (bookkeep s e env.bookkeep).2.1 = [] := List.isEmpty_iff.mp hnone
      rw [htrips]
      refine ⟨fun _ h => List.not_mem_nil h.2, fun _ => ?_⟩
      split
      next =>
        rw [Engine.pushLive_state]
        exact hbooked
      next => exact hbooked
    next =>
      rw [Engine.pushLive_state]
      have hfold := enforceTrips_has (s := s) env.tripNow env.trip (bookkeep s e env.bookkeep).2.1
        (quarantineReprobe s (bookkeep s e env.bookkeep).1 env.reprobe) hex
      refine hfold.trans ⟨fun h hq => h.2 hq.2, fun h => ⟨hbooked, fun hm => h ⟨hoff, hm⟩⟩⟩

theorem quarantinedBy_iff {env : PassEnv} (distinct : e.session.Nodup) : QuarantinedBy s e env hex ↔
    s.scan.quarantineCheckInterval ≠ 0 ∧ hex ∈ e.session ∧ TripsOn s e env.bookkeep.stats hex :=
  and_congr_right fun _ => mem_sweep_trips distinct

/-- A lifted torrent that trips is not flagged as finished, and its checked bytes cover its size. -/
theorem complete_of_lifted_trips (lifted : hex ∈ lifts s e stats) (trips : TripsOn s e stats hex) :
    ∃ t, e.state.get hex = some t ∧ completionLifts (stats hex).progressBytes t.sizeBytes = true := by
  obtain ⟨checked, fetched, key, ws, hlive, -, -⟩ := trips
  have hunfinished : ¬(stats hex).finished = true := by
    intro hfinished
    rw [liveCounters, if_pos hfinished] at hlive
    cases hlive
  obtain ⟨t, checked', fetched', hget, hlive', hpos, hle⟩ :=
    (completed_of_lifted lifted).2.resolve_left hunfinished
  rw [liveCounters, if_neg hunfinished] at hlive'
  obtain ⟨_, -, hcounters⟩ := Option.map_eq_some_iff.mp hlive'
  have hchecked : (stats hex).progressBytes = checked' := congrArg Prod.fst hcounters
  refine ⟨t, hget, ?_⟩
  rw [hchecked]
  exact decide_eq_true ⟨hpos, hle⟩

/-- The pass neither lifts and quarantines one hash nor removes a torrent whose verified bytes cover its
registered size, exactly when it is off or no such torrent is stuck by the detector's memory. -/
theorem lift_excludes_trip_iff (s : Settings) (e : Engine) (env : PassEnv) (distinct : e.session.Nodup)
    (spelled : ∀ listed, e.lastCatalog.or env.reprobe.catalog = some listed → SpelledList listed) :
    let complete := fun (hex : String) (t : Torrent) => e.state.get hex = some t ∧
      completionLifts (env.bookkeep.stats hex).progressBytes t.sizeBytes = true
    ((∀ hex, LiftedBy s e env hex → ¬QuarantinedBy s e env hex) ∧
        ∀ hex t, complete hex t → ((quarantinePass s e env).state.get hex).isSome) ↔
      (s.scan.quarantineCheckInterval ≠ 0 → ∀ hex ∈ e.session, ∀ t, complete hex t →
        ¬TripsOn s e env.bookkeep.stats hex) := by
  intro complete
  have hheld : ∀ {hex t}, complete hex t → e.state.torrents.Has hex := by
    intro hex t h
    obtain ⟨hmem, hkey⟩ := KeyedList.find_eq_some.mp h.1
    exact hkey ▸ KeyedList.has_of_mem hmem
  have hkept : ∀ {hex t}, complete hex t →
      (((quarantinePass s e env).state.get hex).isSome ↔ ¬QuarantinedBy s e env hex) := by
    intro hex t h
    rw [← quarantinePass_has spelled (hheld h), State.get, Option.isSome_iff_ne_none, ne_eq,
      KeyedList.find_eq_none, not_not]
  constructor
  · rintro ⟨-, hkeeps⟩ hon hex hsession t hcomplete htrips
    exact (hkept hcomplete).mp (hkeeps hex t hcomplete)
      ((quarantinedBy_iff distinct).mpr ⟨hon, hsession, htrips⟩)
  · intro hnone
    refine ⟨fun hex hlifted hquarantined => ?_, fun hex t hcomplete => ?_⟩
    · obtain ⟨hon, hsession, htrips⟩ := (quarantinedBy_iff distinct).mp hquarantined
      obtain ⟨t, hcomplete⟩ := complete_of_lifted_trips hlifted.2 htrips
      exact hnone hon hex hsession t hcomplete htrips
    · refine (hkept hcomplete).mpr fun hquarantined => ?_
      obtain ⟨hon, hsession, htrips⟩ := (quarantinedBy_iff distinct).mp hquarantined
      exact hnone hon hex hsession t hcomplete htrips

namespace Reference

/-- A torrent whose third re-probe is complete, last seen with the bytes of a trip discarded. -/
def completed : Engine :=
  { quarantined (engine [held (hexEncode hashA) location] (by simp)) (hexEncode hashA) (quarantine 9 3) with
    detector := ⟨[(hexEncode hashA, ⟨150 * mib, 0, defaultBrokenPieceDiscardBytes, 1⟩)],
      List.nodup_singleton _⟩ }

def completedPass (fetched : Nat) : PassEnv where
  bookkeep :=
    { stats := fun _ => ⟨false, false, some fetched, 150 * mib⟩, now := 1, progressSaved := true,
      liftsSaved := true, orphansSaved := true }
  reprobe :=
    { now := 1, catalog := none, seederFloor := 0,
      probe := fun _ => ⟨⟨none, true⟩, fun _ _ => none, Reference.env true, true⟩ }
  tripNow := 2
  trip _ := ⟨⟨true, true, true⟩, 2⟩

theorem completed_unspelled : ∀ listed, completed.lastCatalog.or (completedPass 0).reprobe.catalog = some listed →
    SpelledList listed := by
  intro listed h
  cases h

end Reference

theorem lift_excludes_trip_iff_one :
    let idle := { Reference.completed with detector := .empty }
    ((quarantinePass Reference.settings idle (Reference.completedPass 0)).state.get
      (hexEncode Reference.hashA)).isSome := by
  intro idle
  have hexcludes := (lift_excludes_trip_iff Reference.settings idle (Reference.completedPass 0)
    (List.nodup_singleton _) Reference.completed_unspelled).mpr fun _ hex _ t _ htrips => by
      obtain ⟨_, _, _, _, -, hfind, -⟩ := htrips
      cases hfind
  exact hexcludes.2 (hexEncode Reference.hashA) (Reference.held (hexEncode Reference.hashA) Reference.location)
    ⟨by decide, by decide⟩

/-- A complete re-probe, not flagged as finished yet, that is lifted and tripped in one pass: its data is
removed, and its fourth attempt counts as the first. -/
theorem lifted_and_quarantined :
    let hex := hexEncode Reference.hashA
    let after := quarantinePass Reference.settings Reference.completed (Reference.completedPass 0)
    (∃ t, Reference.completed.state.get hex = some t ∧
        completionLifts ((Reference.completedPass 0).bookkeep.stats hex).progressBytes t.sizeBytes = true) ∧
      LiftedBy Reference.settings Reference.completed (Reference.completedPass 0) hex ∧
      QuarantinedBy Reference.settings Reference.completed (Reference.completedPass 0) hex ∧
      after.state.get hex = none ∧ (after.state.quarantineGet hex).map Quarantine.attempts = some 1 := by
  intro hex after
  refine ⟨⟨Reference.held hex Reference.location, by decide, by decide⟩, ?_, ?_, ?_, ?_⟩
  · exact ⟨by decide, by decide⟩
  · exact ⟨by decide, by decide⟩
  · decide
  · decide

end KeepAt
