import KeepAt.Engine

namespace KeepAt

structure SwarmCounts where
  seeders : Nat
  leechers : Nat
  completed : Nat
  deriving DecidableEq

/-- What the session reports of a managed torrent. `live` is the fetched-bytes counter of a torrent
that is neither paused nor being checked. -/
structure SessionStats where
  finished : Bool
  initializing : Bool
  live : Option Nat
  progressBytes : Nat
  deriving DecidableEq

structure EvictEnv where
  remove : RemoveEnv
  recordedAt : Time

/-- `to_std`: a negative difference has no answer. -/
def toStd (d : Int) : Option Duration := if 0 ≤ d then some d.toNat else none

def removeEvent (t : Torrent) (cause : Cause) (reason : String) (ts : Time) : Event :=
  .remove ts t.infoHash t.title t.sizeBytes t.lastKnownSeeders t.storageLocation cause reason

namespace Engine

/-- Drop one held torrent. The ledger gets its line only when the state was saved. -/
def evict (e : Engine) (t : Torrent) (cause : Cause) (reason : String) (env : EvictEnv) : Engine × Bool :=
  let (e, dropped) := e.dropHeld t.infoHash env.remove
  (if dropped then e.record (removeEvent t cause reason env.recordedAt) else e, dropped)

def evictStep (due : Torrent → Option String) (cause : Cause) (env : String → EvictEnv)
    (acc : Engine × Bool) (t : Torrent) : Engine × Bool :=
  match due t with
  | none => acc
  | some reason =>
    let (e, dropped) := acc.1.evict t cause reason (env t.infoHash)
    (e, acc.2 || dropped)

def evictDue (due : Torrent → Option String) (cause : Cause) (env : String → EvictEnv) (e : Engine)
    (ts : List Torrent) : Engine :=
  let (e, removedAny) := ts.foldl (evictStep due cause env) (e, false)
  if removedAny then e.pushLive else e

def updateEach (e : Engine) (updates : List (String × TorrentUpdate)) (saved : Bool) : Engine :=
  let (state, result) := e.state.updateEach updates saved
  if result.getD 0 > 0 then pushLive { e with state } else { e with state }

end Engine

def stillListed (held : List Torrent) (catalog : List String) : Nat :=
  (catalog.toFinset ∩ (held.map Torrent.infoHash).toFinset).card

def catalogCollapse (percent : Nat) (held : List Torrent) (catalog : List String) : Bool :=
  !held.isEmpty && decide (percent > 0) &&
    decide (stillListed held catalog < max (held.length * percent / 100) 1)

def Torrent.anchor (t : Torrent) : Time := t.lastConfirmedInCatalogAt.getD t.addedAt

def absentFor (t : Torrent) (now : Time) : Option Duration := toStd (now - t.anchor)

def vanishedReason (timeout : Duration) (catalog : List String) (now : Time) (t : Torrent) :
    Option String :=
  if t.infoHash ∈ catalog then none
  else
    match absentFor t now with
    | none => none
    | some absent => if absent < timeout then none else some "no longer listed on Academic Torrents"

structure VanishedEnv where
  now : Time
  evict : String → EvictEnv

def removeDeletedTorrents (s : Settings) (e : Engine) (held : List Torrent) (catalog : List String)
    (env : VanishedEnv) : Engine :=
  if s.cfg.config.preserveDeletedTorrents then e
  else e.evictDue (vanishedReason s.scan.vanishedEvictionTimeout catalog env.now) .deletedFromCatalog
    env.evict held

def confirmUpdate (now : Time) : TorrentUpdate where
  apply t := { t with lastConfirmedInCatalogAt := some now }
  keeps _ := rfl

def confirmations (held : List Torrent) (catalog : List String) (now : Time) :
    List (String × TorrentUpdate) :=
  (held.filter fun t =>
    decide (t.infoHash ∈ catalog) && t.lastConfirmedInCatalogAt.all fun seen => seen < now).map
    fun t => (t.infoHash, confirmUpdate now)

def vanishedPass (s : Settings) (e : Engine) (catalog : List String) (env : VanishedEnv) : Engine :=
  if catalogCollapse s.cfg.config.catalogCollapsePercent e.state.all catalog then e
  else removeDeletedTorrents s e e.state.all catalog env

structure ReconcileEnv where
  vanished : VanishedEnv
  confirmedAt : Time
  confirmSaved : Bool

/-- The part of a scan that compares what is held with the catalog. -/
def reconcile (s : Settings) (e : Engine) (catalog : List String) (env : ReconcileEnv) : Engine :=
  let e := vanishedPass s { e with lastCatalog := some catalog } catalog env.vanished
  e.updateEach (confirmations e.state.all catalog env.confirmedAt) env.confirmSaved

structure RefreshEnv where
  walked : Nat
  fetch : String → FetchEnv
  scrape : List String → InfoHash → Option SwarmCounts
  find : String → Option SessionStats
  dirSize : Torrent → Nat
  stampedAt : String → Time
  saved : Bool

def progressBytes (find : String → Option SessionStats) (dirSize : Torrent → Nat) (t : Torrent) : Nat :=
  match find t.infoHash with
  | some stats => stats.progressBytes
  | none => dirSize t

def refreshUpdate (seeders progress : Nat) (now : Time) : TorrentUpdate where
  apply t := (State.progressUpdate progress now).apply { t with lastKnownSeeders := seeders }
  keeps _ := (State.progressUpdate progress now).keeps _

structure Refreshed where
  infoHash : String
  seeders : Nat
  progress : Nat
  deriving DecidableEq

/-- Only a torrent whose metadata and scrape both succeed is read. -/
def refreshWalk (s : Settings) (env : RefreshEnv) :
    TorrentCache → List Torrent → TorrentCache × List Refreshed
  | cache, [] => (cache, [])
  | cache, t :: ts =>
    let (cache, metadata) := fetchMetadata s cache t.infoHash (env.fetch t.infoHash)
    let scraped := metadata.bind fun md =>
      env.scrape md.trackers ((decodeHash t.infoHash).getD zeroHash)
    let (cache, readings) := refreshWalk s env cache ts
    match scraped with
    | none => (cache, readings)
    | some swarm =>
      (cache, ⟨t.infoHash, swarm.seeders, progressBytes env.find env.dirSize t⟩ :: readings)

def refreshUpdates (stampedAt : String → Time) (readings : List Refreshed) :
    List (String × TorrentUpdate) :=
  readings.map fun r => (r.infoHash, refreshUpdate r.seeders r.progress (stampedAt r.infoHash))

/-- `walked` torrents are visited before a shutdown is seen. -/
def refreshHeldSeederCounts (s : Settings) (e : Engine) (env : RefreshEnv) : Engine :=
  let (torrentCache, readings) := refreshWalk s env e.torrentCache (e.state.all.take env.walked)
  { e with torrentCache }.updateEach (refreshUpdates env.stampedAt readings) env.saved

structure StallEnv where
  now : Time
  find : String → Option SessionStats
  dirSize : Torrent → Nat
  evict : String → EvictEnv

def stalledFor (t : Torrent) (now : Time) : Option Duration :=
  t.lastProgressAt.bind fun stamp => toStd (now - stamp)

def stallReason (seeders : Nat) (since : Duration) : String :=
  if seeders = 0 then "zero seeders and no download progress for " ++ humanDuration since
  else "no download progress for " ++ humanDuration since ++ " (" ++ toString seeders ++
    " seeders, incomplete)"

def stalledReason (timeout : Duration) (catalog : List String) (env : StallEnv) (t : Torrent) :
    Option String :=
  if t.infoHash ∉ catalog then none
  else
    match stalledFor t env.now with
    | none => none
    | some since =>
      if since < timeout then none
      else if (env.find t.infoHash).any SessionStats.initializing then none
      else if (env.find t.infoHash).any SessionStats.finished ||
          decide (progressBytes env.find env.dirSize t ≥ t.sizeBytes) then none
      else some (stallReason t.lastKnownSeeders since)

def evictStalledTorrents (s : Settings) (e : Engine) (catalog : List String) (env : StallEnv) : Engine :=
  if s.scan.stallEvictionTimeout = 0 then e
  else e.evictDue (stalledReason s.scan.stallEvictionTimeout catalog env) .stalled env.evict e.state.all

namespace Engine

@[simp] theorem updateEach_values (e : Engine) (updates : List (String × TorrentUpdate)) (saved : Bool) :
    (e.updateEach updates saved).state.torrents.values =
      e.state.torrents.values.map (State.applyUpdates updates) := by
  have hs := e.state.updateEach_values updates saved
  simp only [updateEach]
  split <;> exact hs

@[simp] theorem updateEach_quarantined (e : Engine) (updates : List (String × TorrentUpdate))
    (saved : Bool) : (e.updateEach updates saved).state.quarantined = e.state.quarantined := by
  have hs := e.state.updateEach_quarantined updates saved
  simp only [updateEach]
  split <;> exact hs

@[simp] theorem updateEach_history (e : Engine) (updates : List (String × TorrentUpdate)) (saved : Bool) :
    (e.updateEach updates saved).history = e.history := by
  simp only [updateEach]
  split <;> rfl

@[simp] theorem updateEach_session (e : Engine) (updates : List (String × TorrentUpdate)) (saved : Bool) :
    (e.updateEach updates saved).session = e.session := by
  simp only [updateEach]
  split <;> rfl

theorem updateEach_has (e : Engine) (updates : List (String × TorrentUpdate)) (saved : Bool)
    (hex : String) : (e.updateEach updates saved).state.torrents.Has hex ↔ e.state.torrents.Has hex := by
  simp only [KeyedList.has_iff, updateEach_values, List.mem_map]
  constructor
  · rintro ⟨_, ⟨t, ht, rfl⟩, rfl⟩
    exact ⟨t, ht, (State.applyUpdates_infoHash updates t).symm⟩
  · rintro ⟨t, ht, rfl⟩
    exact ⟨_, ⟨t, ht, rfl⟩, State.applyUpdates_infoHash updates t⟩

theorem evict_torrents (e : Engine) (t : Torrent) (cause : Cause) (reason : String) (env : EvictEnv) :
    (e.evict t cause reason env).1.state.torrents = e.state.torrents.erase t.infoHash := by
  have hd := e.dropHeld_torrents t.infoHash env.remove
  simp only [evict]
  split <;> exact hd

theorem evictStep_torrents (due : Torrent → Option String) (cause : Cause) (env : String → EvictEnv)
    (acc : Engine × Bool) (ts : List Torrent) :
    (ts.foldl (evictStep due cause env) acc).1.state.torrents =
      acc.1.state.torrents.eraseAll ((ts.filter fun t => (due t).isSome).map Torrent.infoHash) := by
  induction ts generalizing acc with
  | nil => rfl
  | cons t ts ih =>
    rw [List.foldl_cons, ih]
    cases hd : due t with
    | none => simp [evictStep, hd]
    | some reason =>
      simp only [evictStep, hd, evict_torrents, Option.isSome_some, List.filter_cons_of_pos,
        List.map_cons]
      rfl

theorem evictDue_torrents (due : Torrent → Option String) (cause : Cause) (env : String → EvictEnv)
    (e : Engine) (ts : List Torrent) :
    (e.evictDue due cause env ts).state.torrents =
      e.state.torrents.eraseAll ((ts.filter fun t => (due t).isSome).map Torrent.infoHash) := by
  have hs := evictStep_torrents due cause env (e, false) ts
  simp only [evictDue]
  split <;> exact hs

theorem evictDue_quarantined (due : Torrent → Option String) (cause : Cause) (env : String → EvictEnv)
    (e : Engine) (ts : List Torrent) :
    (e.evictDue due cause env ts).state.quarantined = e.state.quarantined := by
  have hfold : ∀ (ts : List Torrent) (acc : Engine × Bool),
      (ts.foldl (evictStep due cause env) acc).1.state.quarantined = acc.1.state.quarantined := by
    intro ts
    induction ts with
    | nil => exact fun _ => rfl
    | cons t ts ih =>
      intro acc
      rw [List.foldl_cons, ih, evictStep]
      split
      next => rfl
      next =>
        simp only [evict]
        split <;> exact dropHeld_quarantined _ _ _
  have hs := hfold ts (e, false)
  simp only [evictDue]
  split <;> exact hs

theorem evictDue_all_has {due : Torrent → Option String} {cause : Cause} {env : String → EvictEnv}
    {e : Engine} {t : Torrent} (ht : t ∈ e.state.torrents.values) :
    (e.evictDue due cause env e.state.all).state.torrents.Has t.infoHash ↔ due t = none := by
  have hmem : t.infoHash ∈ (e.state.all.filter fun t => (due t).isSome).map Torrent.infoHash ↔
      (due t).isSome := by
    simp only [List.mem_map, List.mem_filter]
    constructor
    · rintro ⟨u, ⟨hu, hdue⟩, he⟩
      exact KeyedList.eq_of_key_eq hu ht he ▸ hdue
    · exact fun hdue => ⟨t, ⟨ht, hdue⟩, rfl⟩
  rw [evictDue_torrents, KeyedList.has_eraseAll, hmem, Option.not_isSome_iff_eq_none]
  exact and_iff_right (KeyedList.has_of_mem ht)

theorem evictDue_subset (due : Torrent → Option String) (cause : Cause) (env : String → EvictEnv)
    (e : Engine) (ts : List Torrent) :
    (e.evictDue due cause env ts).state.torrents.values ⊆ e.state.torrents.values := by
  rw [evictDue_torrents]
  exact fun t ht => (KeyedList.mem_eraseAll.mp ht).1

end Engine

/-- The vanished pass leaves the engine alone, or evicts what is due with its guard and its switch off. -/
theorem vanishedPass_cases (s : Settings) (e : Engine) (catalog : List String) (env : VanishedEnv) :
    (catalogCollapse s.cfg.config.catalogCollapsePercent e.state.all catalog = true ∨
        s.cfg.config.preserveDeletedTorrents = true) ∧ vanishedPass s e catalog env = e ∨
      (catalogCollapse s.cfg.config.catalogCollapsePercent e.state.all catalog = false ∧
        s.cfg.config.preserveDeletedTorrents = false) ∧
        vanishedPass s e catalog env =
          e.evictDue (vanishedReason s.scan.vanishedEvictionTimeout catalog env.now) .deletedFromCatalog
            env.evict e.state.all := by
  simp only [vanishedPass, removeDeletedTorrents]
  split
  next hcollapse => exact Or.inl ⟨Or.inl hcollapse, rfl⟩
  next hcollapse =>
    split
    next hpreserve => exact Or.inl ⟨Or.inr hpreserve, rfl⟩
    next hpreserve =>
      exact Or.inr ⟨⟨Bool.eq_false_of_not_eq_true hcollapse, Bool.eq_false_of_not_eq_true hpreserve⟩, rfl⟩

theorem evictStalledTorrents_cases (s : Settings) (e : Engine) (catalog : List String) (env : StallEnv) :
    s.scan.stallEvictionTimeout = 0 ∧ evictStalledTorrents s e catalog env = e ∨
      s.scan.stallEvictionTimeout ≠ 0 ∧ evictStalledTorrents s e catalog env =
        e.evictDue (stalledReason s.scan.stallEvictionTimeout catalog env) .stalled env.evict e.state.all := by
  rw [evictStalledTorrents]
  split
  next hz => exact Or.inl ⟨hz, rfl⟩
  next hz => exact Or.inr ⟨hz, rfl⟩

theorem toStd_eq_some {d : Int} {n : Duration} : toStd d = some n ↔ d = n := by
  unfold toStd
  split
  next h =>
    have hd := Int.toNat_of_nonneg h
    rw [Option.some.injEq]
    exact ⟨fun he => by rw [← he, hd], fun he => by rw [he]; exact Int.toNat_natCast n⟩
  next h =>
    refine iff_of_false (by simp) ?_
    rintro rfl
    exact h (Int.natCast_nonneg n)

/-- An age past a timeout puts the earlier instant at least the timeout back. -/
theorem le_sub_of_toStd {now stamp : Int} {age timeout : Nat} (h : toStd (now - stamp) = some age)
    (hle : timeout ≤ age) : stamp ≤ now - timeout := by
  have := toStd_eq_some.mp h
  omega

end KeepAt
