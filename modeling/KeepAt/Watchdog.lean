import KeepAt.Maintenance
import KeepAt.Placement

namespace KeepAt

structure Sweep where
  detector : Detector
  trips : List (String × Trip)
  progress : List (String × Nat)
  seen : List String
  lifts : List String

def liveCounters (stats : SessionStats) : Option (Nat × Nat) :=
  if stats.finished then none else stats.live.map (stats.progressBytes, ·)

def sweepOne (scan : ScanConfig) (quarantined : List String) (stats : String → SessionStats) (acc : Sweep)
    (hex : String) : Sweep :=
  let acc := { acc with seen := acc.seen ++ [hex] }
  if (stats hex).finished then
    { acc with
      detector := acc.detector.forget hex
      lifts := if hex ∈ quarantined then acc.lifts ++ [hex] else acc.lifts }
  else
    match liveCounters (stats hex) with
    | none => acc
    | some (checked, fetched) =>
      let (detector, trip) := acc.detector.observe hex checked fetched scan.brokenPieceDiscardBytes
        scan.brokenPieceMinWindows
      { acc with
        detector
        trips := acc.trips ++ (trip.map (hex, ·)).toList
        progress := if checked > 0 then acc.progress ++ [(hex, checked)] else acc.progress }

def sweep (scan : ScanConfig) (e : Engine) (stats : String → SessionStats) : Sweep :=
  e.session.foldl (sweepOne scan e.state.quarantinedKeys stats) ⟨e.detector, [], [], [], []⟩

def raceLifts (st : State) (progress : List (String × Nat)) : List String :=
  (progress.filter fun p =>
    decide (p.1 ∈ st.quarantinedKeys) &&
      completionLifts p.2 (((st.get p.1).map Torrent.sizeBytes).getD 0)).map Prod.fst

/-- Lapsed entries of hashes neither held, managed nor in the last fetched catalog. -/
def orphaned (st : State) (seen : List String) (lastCatalog : Option (List String)) (now : Time) :
    List String :=
  (st.quarantinedKeys.filter fun hex =>
    decide (hex ∉ seen) && (st.get hex).isNone && lastCatalog.any (fun c => hex ∉ c) &&
      (st.quarantineGet hex).any fun q => now ≥ q.cooldownUntil).insertionSort (· ≤ ·)

structure BookkeepEnv where
  stats : String → SessionStats
  now : Time
  progressSaved : Bool
  liftsSaved : Bool
  orphansSaved : Bool

/-- The first part of a pass: observe, stamp progress, lift and collect registry entries. The trips
come back with whether anything else changed. -/
def bookkeep (s : Settings) (e : Engine) (env : BookkeepEnv) : Engine × List (String × Trip) × Bool :=
  let swept := sweep s.scan e env.stats
  let lifts := swept.lifts ++ raceLifts e.state swept.progress
  let (state, progressed) := e.state.updateProgressMany swept.progress env.now env.progressSaved
  let (state, lifted) := state.quarantineRemoveMany lifts env.liftsSaved
  let orphans := orphaned state swept.seen e.lastCatalog env.now
  let (state, collected) :=
    if orphans.isEmpty then (state, some 0) else state.quarantineRemoveMany orphans env.orphansSaved
  ({ e with state, detector := swept.detector.retainOnly swept.seen }, swept.trips,
    progressed.getD false || decide (lifted.getD 0 > 0) || decide (collected.getD 0 > 0))

/-- `from_std`, falling back to ten years where the count of milliseconds would not fit. -/
def fromStd (d : Duration) : Duration := if d ≤ (2 ^ 63 - 1) * 10 ^ 6 then d else 520 * week

/-- When a re-armed entry may be probed again: a cooldown, but at least a watchdog tick, away. -/
def rearmUntil (scan : ScanConfig) (now : Time) : Time :=
  (checkedAdd now (max (fromStd scan.quarantineCooldown)
    (fromStd (max scan.quarantineCheckInterval scan.quarantineCooldown)))).getD (farFuture now)

structure ProbeEnv where
  fetch : FetchEnv
  scrape : List String → InfoHash → Option SwarmCounts
  act : ActEnv
  rearmSaved : Bool

def lapsed (st : State) (now : Time) : List (String × Quarantine) :=
  (st.quarantinedKeys.filterMap fun hex =>
    (st.quarantineGet hex).bind fun q =>
      if now ≥ q.cooldownUntil ∧ (st.get hex).isNone then some (hex, q) else none).insertionSort
    (·.1 ≤ ·.1)

def probeCandidate (hash : InfoHash) (title : String) (md : TorrentMeta) (swarm : SwarmCounts)
    (seederFloor : Nat) : Candidate :=
  { infoHash := hash, title, sizeBytes := md.totalLength, pieceCount := md.pieceCount,
    seeders := swarm.seeders, leechers := swarm.leechers, seederFloor }

def probeReads (s : Settings) (cache : TorrentCache) (hex : String) (env : ProbeEnv) :
    TorrentCache × Option (TorrentMeta × SwarmCounts) :=
  let (cache, metadata) := fetchMetadata s cache hex env.fetch
  (cache, metadata.bind fun md =>
    (env.scrape md.trackers ((decodeHash hex).getD zeroHash)).map (md, ·))

/-- One re-probe: act on the hash as on a scan candidate, then re-arm its cooldown. -/
def reprobeOne (s : Settings) (listed : List String) (seederFloor : Nat) (now : Time)
    (env : String → ProbeEnv) (acc : Engine × Nat) (entry : String × Quarantine) : Engine × Nat :=
  let (hex, q) := entry
  if (acc.1.state.get hex).isSome || decide (hex ∉ listed) then acc
  else
    let (torrentCache, reads) := probeReads s acc.1.torrentCache hex (env hex)
    let e := { acc.1 with torrentCache }
    match reads with
    | none => (e, acc.2)
    | some (md, swarm) =>
      let c := probeCandidate ((decodeHash hex).getD zeroHash) q.title md swarm seederFloor
      let (e, heldCount) := actOnCandidate s e c acc.2 seederFloor (env hex).act
      let rearmed := { q with cooldownUntil := rearmUntil s.scan now }
      ({ e with state := (e.state.quarantinePut hex rearmed (env hex).rearmSaved).1 }, heldCount)

structure ReprobeEnv where
  now : Time
  catalog : Option (List String)
  seederFloor : Nat
  probe : String → ProbeEnv

/-- Re-probe the lapsed entries that the catalog still lists. Without a catalog nothing is probed. -/
def quarantineReprobe (s : Settings) (e : Engine) (env : ReprobeEnv) : Engine :=
  let entries := lapsed e.state env.now
  if entries.isEmpty then e
  else
    match e.lastCatalog.or env.catalog with
    | none => e
    | some listed =>
      let e := { e with lastCatalog := some listed }
      (entries.foldl (reprobeOne s listed env.seederFloor env.now env.probe) (e, e.state.torrents.size)).1

def tripReason (trip : Trip) (suffix : String) (attempts : Nat) : String :=
  "discarded " ++ humanBytesText trip.wastedBytes ++ " across " ++ toString trip.windows ++
    " zero-progress pass" ++ (if trip.windows = 1 then "" else "es") ++ " (attempt " ++
    toString attempts ++ suffix ++ ")"

def tripEntry (s : Settings) (prev : Option Quarantine) (title suffix : String) (trip : Trip)
    (now : Time) : Quarantine :=
  nextQuarantineEntry prev title (tripReason trip suffix) trip now (fromStd s.scan.quarantineCooldown)
    s.scan.quarantineMaxRetries

/-- Remove a torrent that keeps discarding and gate its hash. One without a state entry is gated all
the same, but leaves no ledger line. -/
def enforceTrip (s : Settings) (now : Time) (env : String → EvictEnv) (e : Engine)
    (p : String × Trip) : Engine :=
  let (hex, trip) := p
  let prev := e.state.quarantineGet hex
  let session := removeTorrent e.session hex (env hex).remove.deleted
  let torrentCache := if (env hex).remove.cacheUnlinked then e.torrentCache.erase hex else e.torrentCache
  let detector := e.detector.forget hex
  match e.state.get hex with
  | none =>
    let title := (prev.map Quarantine.title).getD ("untracked " ++ hex)
    let q := tripEntry s prev title ", untracked ghost" trip now
    { e with session, torrentCache, detector, state := (e.state.quarantinePut hex q (env hex).remove.saved).1 }
  | some held =>
    let q := tripEntry s prev held.title "" trip now
    let (state, result) := e.state.quarantineAndRemove hex q (env hex).remove.saved
    let e := { e with session, torrentCache, detector, state }
    if result.isSome then e.record (removeEvent held .quarantined q.reason (env hex).recordedAt) else e

structure PassEnv where
  bookkeep : BookkeepEnv
  reprobe : ReprobeEnv
  tripNow : Time
  trip : String → EvictEnv

def quarantinePass (s : Settings) (e : Engine) (env : PassEnv) : Engine :=
  if s.scan.quarantineCheckInterval = 0 then e
  else
    let (e, trips, changed) := bookkeep s e env.bookkeep
    let e := quarantineReprobe s e env.reprobe
    if trips.isEmpty then (if changed then e.pushLive else e)
    else (trips.foldl (enforceTrip s env.tripNow env.trip) e).pushLive

section Sweep

variable {scan : ScanConfig} {quarantined : List String} {stats : String → SessionStats}
  {e : Engine} {hex : String} {checked : Nat}

/-- The trip that a sweep finds at a hash, from what the detector remembers of it. -/
def tripAt (scan : ScanConfig) (stats : String → SessionStats) (d : Detector) (hex : String) :
    Option (String × Trip) :=
  (liveCounters (stats hex)).bind fun p =>
    (d.observe hex p.1 p.2 scan.brokenPieceDiscardBytes scan.brokenPieceMinWindows).2.map (hex, ·)

theorem tripAt_key {d : Detector} {p : String × Trip} (h : tripAt scan stats d hex = some p) : p.1 = hex := by
  obtain ⟨_, -, hp⟩ := Option.bind_eq_some_iff.mp h
  obtain ⟨_, -, rfl⟩ := Option.map_eq_some_iff.mp hp
  rfl

theorem sweepOne_trips (acc : Sweep) (hex : String) :
    (sweepOne scan quarantined stats acc hex).trips =
      acc.trips ++ (tripAt scan stats acc.detector hex).toList := by
  unfold sweepOne tripAt
  dsimp only
  by_cases hfinished : (stats hex).finished = true
  · have hnone : liveCounters (stats hex) = none := if_pos hfinished
    rw [if_pos hfinished, hnone]
    exact (List.append_nil _).symm
  · rw [if_neg hfinished]
    cases hlive : liveCounters (stats hex) with
    | none => exact (List.append_nil _).symm
    | some p => rfl

theorem foldl_sweepOne_progress (hexes : List String) (acc : Sweep) :
    (hexes.foldl (sweepOne scan quarantined stats) acc).progress = acc.progress ++
      hexes.filterMap fun hex =>
        (liveCounters (stats hex)).bind fun p => if p.1 > 0 then some (hex, p.1) else none := by
  induction hexes generalizing acc with
  | nil => simp
  | cons hex hexes ih =>
    rw [List.foldl_cons, ih, List.filterMap_cons]
    by_cases hf : (stats hex).finished = true
    · simp [sweepOne, liveCounters, hf]
    · cases hl : liveCounters (stats hex) with
      | none => simp [sweepOne, hf, hl]
      | some p =>
        by_cases hp : p.1 > 0 <;> simp [sweepOne, hf, hl, hp]

theorem foldl_sweepOne_lifts (hexes : List String) (acc : Sweep) :
    (hexes.foldl (sweepOne scan quarantined stats) acc).lifts = acc.lifts ++
      hexes.filter fun hex => (stats hex).finished && decide (hex ∈ quarantined) := by
  induction hexes generalizing acc with
  | nil => simp
  | cons hex hexes ih =>
    rw [List.foldl_cons, ih, List.filter_cons]
    by_cases hf : (stats hex).finished = true
    · by_cases hq : hex ∈ quarantined <;> simp [sweepOne, hf, hq]
    · cases hl : liveCounters (stats hex) <;> simp [sweepOne, hf, hl]

theorem foldl_sweepOne_seen (hexes : List String) (acc : Sweep) :
    (hexes.foldl (sweepOne scan quarantined stats) acc).seen = acc.seen ++ hexes := by
  induction hexes generalizing acc with
  | nil => simp
  | cons hex hexes ih =>
    have hone : (sweepOne scan quarantined stats acc hex).seen = acc.seen ++ [hex] := by
      simp only [sweepOne]
      split
      next => rfl
      next => split <;> rfl
    rw [List.foldl_cons, ih, hone, List.append_assoc, List.singleton_append]

theorem mem_sweep_progress :
    (hex, checked) ∈ (sweep scan e stats).progress ↔
      hex ∈ e.session ∧ 0 < checked ∧ ∃ fetched, liveCounters (stats hex) = some (checked, fetched) := by
  rw [sweep, foldl_sweepOne_progress, List.nil_append]
  simp only [List.mem_filterMap, Option.bind_eq_some_iff, gt_iff_lt, Option.ite_none_right_eq_some,
    Option.some.injEq, Prod.mk.injEq, Prod.exists]
  constructor
  · rintro ⟨h, hs, c, fetched, hl, hpos, rfl, rfl⟩
    exact ⟨hs, hpos, fetched, hl⟩
  · rintro ⟨hs, hpos, fetched, hl⟩
    exact ⟨hex, hs, checked, fetched, hl, hpos, rfl, rfl⟩

theorem mem_sweep_lifts :
    hex ∈ (sweep scan e stats).lifts ↔
      hex ∈ e.session ∧ (stats hex).finished = true ∧ hex ∈ e.state.quarantinedKeys := by
  rw [sweep, foldl_sweepOne_lifts, List.nil_append, List.mem_filter, Bool.and_eq_true, decide_eq_true_eq]

theorem sweep_seen : (sweep scan e stats).seen = e.session := by
  rw [sweep, foldl_sweepOne_seen, List.nil_append]

end Sweep

theorem enforceTrip_untracked (s : Settings) (now : Time) (env : String → EvictEnv) (trip : Trip)
    {e : Engine} {hex : String} (h : e.state.get hex = none) :
    (enforceTrip s now env e (hex, trip)).state.torrents = e.state.torrents ∧
      (enforceTrip s now env e (hex, trip)).history = e.history := by
  simp only [enforceTrip, h, State.quarantinePut_torrents]
  exact ⟨trivial, trivial⟩

theorem enforceTrip_tracked (s : Settings) (now : Time) (env : String → EvictEnv) (trip : Trip) {e : Engine}
    {hex : String} {held : Torrent} (h : e.state.get hex = some held) :
    (enforceTrip s now env e (hex, trip)).state.torrents = e.state.torrents.erase hex ∧
      (enforceTrip s now env e (hex, trip)).history =
        if (env hex).remove.saved then
          e.history ++ [removeEvent held .quarantined
            (tripEntry s (e.state.quarantineGet hex) held.title "" trip now).reason (env hex).recordedAt]
        else e.history := by
  simp only [enforceTrip, h, State.quarantineAndRemove, State.save]
  cases (env hex).remove.saved <;> exact ⟨rfl, rfl⟩

end KeepAt
