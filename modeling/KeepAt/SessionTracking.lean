import KeepAt.AdmissionIntegrity
import KeepAt.Ledger
import KeepAt.PlacementOutcome
import KeepAt.QuarantineWatch

namespace KeepAt

/-- An engine with the hashes it has added since the boot. -/
structure Booted where
  engine : Engine
  added : List String

def Booted.after (s : Settings) (x : Booted) (a : Action) : Booted :=
  { engine := a.apply s x.engine, added := x.added ++ addedHashes x.engine (a.apply s x.engine) }

/-- Every deletion that the action asks of the session is carried out. -/
def Action.Deletes : Action → Prop
  | .reconcile _ env => ∀ hex, (env.vanished.evict hex).remove.deleted = true
  | .evictStalled _ env => ∀ hex, (env.evict hex).remove.deleted = true
  | .act _ _ _ env => ∀ hex, (env.swap.remove hex).deleted = true
  | .enforceTrip _ env _ => ∀ hex, (env hex).remove.deleted = true
  | _ => True

/-- The metadata read for a candidate is of its hash, and a trip is of a hash as the session spells it. -/
def Action.Agrees (s : Settings) (e : Engine) : Action → Prop
  | .act c _ _ env => ∀ md, (fetchMetadata s e.torrentCache (hexEncode c.infoHash) env.fetch).2 = some md →
      MatchingRead (hexEncode c.infoHash) md
  | .enforceTrip _ _ trip => ∃ hash, trip.1 = hexEncode hash
  | _ => True

inductive BootedStep (s : Settings) : Booted → Booted → Prop
  | action (x : Booted) (a : Action) (deletes : a.Deletes) (agrees : a.Agrees s x.engine) :
      BootedStep s x (x.after s a)
  | rehash (x : Booted) (ts : List Torrent) (h : ts.Perm x.engine.state.torrents.values) :
      BootedStep s x { x with engine := { x.engine with state := x.engine.state.rehash ts h } }

/-- No torrent of the session is a ghost, and every torrent added is managed, with its cached metadata, for
as long as it is held. -/
structure Tracked (added : List String) (e : Engine) : Prop where
  sessionHeld : ∀ hex ∈ e.session, e.state.torrents.Has hex
  managed : ∀ hex ∈ added, e.state.torrents.Has hex → hex ∈ e.session ∧ e.torrentCache.Has hex

variable {s : Settings} {e e' : Engine} {added : List String}

theorem mem_removeTorrent {session : List String} {hash : InfoHash} {hex : String} :
    hex ∈ removeTorrent session (hexEncode hash) true ↔ hex ∈ session ∧ hex ≠ hexEncode hash := by
  simp only [removeTorrent, decodeHash_hexEncode, if_true, List.mem_filter, decide_eq_true_eq]

/-- What touches none of the three stores, but may fill the cache. -/
theorem Tracked.keep (h : Tracked added e)
    (torrents : ∀ hex, e'.state.torrents.Has hex ↔ e.state.torrents.Has hex)
    (session : e'.session = e.session) (cache : ∀ hex, e.torrentCache.Has hex → e'.torrentCache.Has hex) :
    Tracked added e' := by
  refine ⟨fun hex hm => ?_, fun hex hm hheld => ?_⟩
  · rw [session] at hm
    exact (torrents hex).mpr (h.sessionHeld hex hm)
  · obtain ⟨hmanaged, hcached⟩ := h.managed hex hm ((torrents hex).mp hheld)
    rw [session]
    exact ⟨hmanaged, cache hex hcached⟩

/-- A removal takes the hash out of the session and the held map, and no other hash out of any store. -/
theorem Tracked.drop (hash : InfoHash) (unlinked : Bool) (h : Tracked added e)
    (torrents : e'.state.torrents = e.state.torrents.erase (hexEncode hash))
    (session : e'.session = removeTorrent e.session (hexEncode hash) true)
    (cache : e'.torrentCache = if unlinked then e.torrentCache.erase (hexEncode hash) else e.torrentCache) :
    Tracked added e' := by
  refine ⟨fun hex hm => ?_, fun hex hm hheld => ?_⟩
  · rw [session, mem_removeTorrent] at hm
    rw [torrents, KeyedList.has_erase]
    exact ⟨h.sessionHeld hex hm.1, hm.2⟩
  · rw [torrents, KeyedList.has_erase] at hheld
    obtain ⟨hmanaged, hcached⟩ := h.managed hex hm hheld.1
    rw [session, mem_removeTorrent, cache]
    refine ⟨⟨hmanaged, hheld.2⟩, ?_⟩
    split
    next => exact KeyedList.has_erase.mpr ⟨hcached, hheld.2⟩
    next => exact hcached

theorem Tracked.dropHeld {hex : String} {env : RemoveEnv} (h : Tracked added e)
    (spelled : ∃ hash, hex = hexEncode hash) (deleted : env.deleted = true) :
    Tracked added (e.dropHeld hex env).1 := by
  obtain ⟨hash, rfl⟩ := spelled
  refine h.drop hash env.cacheUnlinked (e.dropHeld_torrents _ _) ?_ rfl
  simp only [Engine.dropHeld, deleted]

theorem fetchMetadata_has (cache : TorrentCache) (hex : String) (env : FetchEnv) {key : String}
    (h : cache.Has key) : (fetchMetadata s cache hex env).1.Has key := by
  unfold fetchMetadata
  split
  next => exact h
  next =>
    split
    next => exact h
    next =>
      split
      next => exact KeyedList.has_insert.mpr (Or.inr h)
      next => exact h

theorem refreshWalk_has (env : RefreshEnv) {cache : TorrentCache} (ts : List Torrent) {key : String}
    (h : cache.Has key) : (refreshWalk s env cache ts).1.Has key := by
  induction ts generalizing cache with
  | nil => exact h
  | cons t ts ih =>
    have hread := ih (fetchMetadata_has (s := s) cache t.infoHash (env.fetch t.infoHash) h)
    unfold refreshWalk
    dsimp only
    split
    next => exact hread
    next => exact hread

theorem addTorrentBytes_cases {session after : List String} {cache : TorrentCache} {hex : String}
    {sessionOk : Bool} (h : addTorrentBytes s session cache hex sessionOk = some after) :
    cache.Has hex ∧ ∃ md, (cache.find hex).bind (fun b => s.parseTorrentBytes b.2) = some md ∧
      ∀ key, key ∈ after ↔ key = hexEncode md.infoHash ∨ key ∈ session := by
  unfold addTorrentBytes at h
  split at h
  next => cases h
  next md hparsed =>
    have hcached : cache.Has hex := by
      by_contra hn
      rw [KeyedList.find_eq_none.mpr hn] at hparsed
      cases hparsed
    refine ⟨hcached, md, hparsed, fun key => ?_⟩
    obtain ⟨-, hsession⟩ := Option.ite_none_right_eq_some.mp h
    obtain rfl := Option.some.inj hsession
    split
    next hm => exact ⟨Or.inr, fun hkey => hkey.elim (fun he => he ▸ hm) id⟩
    next => exact List.mem_cons

/-- An add of bytes that are of its hash enters all three stores. -/
theorem Tracked.enter {hash : InfoHash} (h : Tracked added e) (entered : Entered s e hash e')
    (matching : ∀ md, (e.torrentCache.find (hexEncode hash)).bind (fun b => s.parseTorrentBytes b.2) =
      some md → md.infoHash = hash) : Tracked (added ++ [hexEncode hash]) e' := by
  obtain ⟨sessionOk, hsession⟩ := entered.session
  obtain ⟨t, hkey, htorrents⟩ := entered.entry
  obtain ⟨hcached, md, hparsed, hmem⟩ := addTorrentBytes_cases hsession
  rw [matching md hparsed] at hmem
  refine ⟨fun hex hm => ?_, fun hex hm hheld => ?_⟩
  · rw [htorrents, KeyedList.has_insert, hkey]
    exact ((hmem hex).mp hm).imp_right (h.sessionHeld hex)
  · rw [entered.cache, hmem]
    by_cases hhex : hex = hexEncode hash
    · exact ⟨Or.inl hhex, hhex ▸ hcached⟩
    · rw [htorrents, KeyedList.has_insert, hkey] at hheld
      have hold : hex ∈ added := (List.mem_append.mp hm).resolve_right fun hn => hhex (List.mem_singleton.mp hn)
      obtain ⟨hmanaged, hcache⟩ := h.managed hex hold (hheld.resolve_left hhex)
      exact ⟨Or.inr hmanaged, hcache⟩

theorem Tracked.removeDisplaced {remove : String → RemoveEnv} (deletes : ∀ hex, (remove hex).deleted = true)
    {ds : List Torrent} (spelled : ∀ t ∈ ds, ∃ hash, t.infoHash = hexEncode hash) (n : Nat)
    (h : Tracked added e) : Tracked added (removeDisplaced e remove ds n).1 := by
  induction ds generalizing e n with
  | nil => exact h
  | cons d ds ih =>
    obtain ⟨hd, hrest⟩ := List.forall_mem_cons.mp spelled
    exact ih hrest _ (h.dropHeld hd (deletes d.infoHash))

theorem Tracked.finishSwap {remove : String → RemoveEnv} (deletes : ∀ hex, (remove hex).deleted = true)
    {ds : List Torrent} (spelled : ∀ t ∈ ds, ∃ hash, t.infoHash = hexEncode hash) (d : SwapDecision F64)
    (h : Tracked added e) : Tracked added (finishSwap e remove ds d).1 := by
  have hremoved := h.removeDisplaced deletes spelled 0
  simp only [KeepAt.finishSwap]
  split
  next => exact hremoved.keep (fun _ => Iff.rfl) rfl fun _ => id
  next => exact hremoved

theorem Tracked.evictDue {due : Torrent → Option String} {cause : Cause} {env : String → EvictEnv}
    (deletes : ∀ hex, (env hex).remove.deleted = true) {ts : List Torrent}
    (spelled : ∀ t ∈ ts, ∃ hash, t.infoHash = hexEncode hash) (h : Tracked added e) :
    Tracked added (e.evictDue due cause env ts) := by
  have hfold : ∀ (ts : List Torrent) (acc : Engine × Bool), (∀ t ∈ ts, ∃ hash, t.infoHash = hexEncode hash) →
      Tracked added acc.1 → Tracked added (ts.foldl (Engine.evictStep due cause env) acc).1 := by
    intro ts
    induction ts with
    | nil => exact fun _ _ hacc => hacc
    | cons t ts ih =>
      intro acc hspelled hacc
      obtain ⟨ht, hrest⟩ := List.forall_mem_cons.mp hspelled
      refine ih _ hrest ?_
      unfold Engine.evictStep
      split
      next => exact hacc
      next =>
        have hdropped := hacc.dropHeld ht (deletes t.infoHash)
        simp only [Engine.evict]
        split
        next => exact hdropped.keep (fun _ => Iff.rfl) rfl fun _ => id
        next => exact hdropped
  have hall := hfold ts (e, false) spelled h
  simp only [Engine.evictDue]
  split
  next => exact hall.keep (fun _ => Iff.rfl) rfl fun _ => id
  next => exact hall

theorem Spelled.mem (h : Spelled e) : ∀ t ∈ e.state.torrents.values, ∃ hash, t.infoHash = hexEncode hash :=
  fun t ht => h t.infoHash (KeyedList.has_of_mem ht)

theorem updateEach_torrentCache (e : Engine) (updates : List (String × TorrentUpdate)) (saved : Bool) :
    (e.updateEach updates saved).torrentCache = e.torrentCache := by
  simp only [Engine.updateEach]
  split <;> rfl

theorem Tracked.updateEach (h : Tracked added e) (updates : List (String × TorrentUpdate)) (saved : Bool) :
    Tracked added (e.updateEach updates saved) :=
  h.keep (e.updateEach_has updates saved) (e.updateEach_session updates saved)
    fun _ hcached => (updateEach_torrentCache e updates saved).symm ▸ hcached

theorem Tracked.act (h : Tracked added e) (spelled : Spelled e) {c : Candidate} {env : ActEnv}
    (deletes : ∀ hex, (env.swap.remove hex).deleted = true)
    (matching : ∀ md, (fetchMetadata s e.torrentCache (hexEncode c.infoHash) env.fetch).2 = some md →
      MatchingRead (hexEncode c.infoHash) md) (n seederFloor : Nat) :
    let after := (actOnCandidate s e c n seederFloor env).1
    Tracked (added ++ addedHashes e after) after := by
  intro after
  have hread : Tracked added (fetched s e c env) :=
    h.keep (fun _ => Iff.rfl) rfl fun _ => fetchMetadata_has e.torrentCache _ env.fetch
  have hentered : ∀ {md mid}, (fetchMetadata s e.torrentCache (hexEncode c.infoHash) env.fetch).2 = some md →
      Entered s (fetched s e c env) c.infoHash mid → Tracked (added ++ [hexEncode c.infoHash]) mid := by
    intro md mid hmd hin
    refine hread.enter hin fun md' hparsed => ?_
    have hsame : some md' = some md :=
      (fetchMetadata_cached hmd).elim hparsed.symm.trans fun hn => absurd (hparsed.symm.trans hn) (by simp)
    rw [Option.some.inj hsame]
    exact hexEncode_injective (matching md hmd)
  have hadded : ∀ {mid}, Entered s (fetched s e c env) c.infoHash mid →
      addedHashes e mid = [hexEncode c.infoHash] := by
    intro mid hin
    obtain ⟨c', sizeBytes, location, displaced, floor, decision, ts, hhash, hrecorded⟩ := hin.recorded
    have hhistory : (fetched s e c env).history = e.history := rfl
    rw [addedHashes, hrecorded, hhistory, List.drop_left, ← hhash]
    rfl
  have houtcome := actOnCandidate_outcome s e c n seederFloor env
  change ActOutcome s e c env after at houtcome
  generalize after = out at houtcome ⊢
  cases houtcome with
  | kept =>
    have hnone : addedHashes e e = [] := (Unadded.of_history rfl).addedHashes
    rw [hnone, List.append_nil]
    exact h
  | read =>
    have hnone : addedHashes e (fetched s e c env) = [] := (Unadded.of_history rfl).addedHashes
    rw [hnone, List.append_nil]
    exact hread
  | filled md _ reads entered =>
    rw [hadded entered]
    exact hentered reads entered
  | swapped md mid ds d reads entered held =>
    obtain ⟨-, -, hhistory, -⟩ := finishSwap_frame mid env.swap.remove ds d
    have hsame : addedHashes e (KeepAt.finishSwap mid env.swap.remove ds d).1 = addedHashes e mid := by
      rw [addedHashes, addedHashes, hhistory]
    rw [hsame, hadded entered]
    exact (hentered reads entered).finishSwap deletes (fun t ht => spelled.mem t (held t ht)) d

theorem Tracked.enforceTrip (h : Tracked added e) {now : Time} {env : String → EvictEnv}
    {trip : String × Trip} (deletes : ∀ hex, (env hex).remove.deleted = true)
    (spelled : ∃ hash, trip.1 = hexEncode hash) : Tracked added (enforceTrip s now env e trip) := by
  obtain ⟨hex, trip⟩ := trip
  obtain ⟨hash, rfl⟩ := spelled
  have hsession : removeTorrent e.session (hexEncode hash) (env (hexEncode hash)).remove.deleted =
      removeTorrent e.session (hexEncode hash) true := by
    rw [deletes]
  unfold KeepAt.enforceTrip
  dsimp only
  split
  next hnone =>
    have hunheld : ¬e.state.torrents.Has (hexEncode hash) := KeyedList.find_eq_none.mp hnone
    refine h.drop hash (env (hexEncode hash)).remove.cacheUnlinked ?_ ?_ rfl
    · rw [State.quarantinePut_torrents, KeyedList.erase_of_not_has hunheld]
    · dsimp only
      exact hsession
  next =>
    split
    next =>
      refine h.drop hash (env (hexEncode hash)).remove.cacheUnlinked ?_ ?_ rfl
      · rw [Engine.record_state]
        exact State.quarantineAndRemove_torrents _ _ _ _
      · rw [Engine.record_session]
        dsimp only
        exact hsession
    next =>
      refine h.drop hash (env (hexEncode hash)).remove.cacheUnlinked
        (State.quarantineAndRemove_torrents _ _ _ _) ?_ rfl
      dsimp only
      exact hsession

/-- What one action does to the three stores. -/
theorem Tracked.apply (h : Tracked added e) (spelled : Spelled e) {a : Action} (deletes : a.Deletes)
    (agrees : a.Agrees s e) : Tracked (added ++ addedHashes e (a.apply s e)) (a.apply s e) := by
  have quiet : (∀ c n seederFloor env, a ≠ .act c n seederFloor env) → Tracked added (a.apply s e) →
      Tracked (added ++ addedHashes e (a.apply s e)) (a.apply s e) := by
    intro huncalled hafter
    rw [(Action.apply_unadded huncalled).addedHashes, List.append_nil]
    exact hafter
  cases a with
  | reconcile catalog env =>
    refine quiet (by simp) (Tracked.updateEach ?_ _ _)
    have hlisted : Tracked added { e with lastCatalog := some catalog } := ⟨h.sessionHeld, h.managed⟩
    rcases vanishedPass_cases s { e with lastCatalog := some catalog } catalog env.vanished with
      ⟨-, hpass⟩ | ⟨-, hpass⟩ <;> rw [hpass]
    · exact hlisted
    · exact hlisted.evictDue deletes spelled.mem
  | refresh env readAt =>
    have hwalk : Tracked added { e with
        torrentCache := (refreshWalk s env e.torrentCache (e.state.all.take env.walked)).1 } :=
      h.keep (fun _ => Iff.rfl) rfl fun _ => refreshWalk_has env _
    exact quiet (by simp) (hwalk.updateEach _ _)
  | evictStalled catalog env =>
    refine quiet (by simp) ?_
    rw [Action.apply]
    rcases evictStalledTorrents_cases s e catalog env with ⟨-, hpass⟩ | ⟨-, hpass⟩ <;> rw [hpass]
    · exact h
    · exact h.evictDue deletes spelled.mem
  | readMetadata hex env =>
    exact quiet (by simp) (h.keep (fun _ => Iff.rfl) rfl fun _ => fetchMetadata_has e.torrentCache hex env)
  | act c n seederFloor env => exact h.act spelled deletes agrees n seederFloor
  | bookkeep env => exact quiet (by simp) (h.keep (bookkeep_has env) rfl fun _ => id)
  | rememberCatalog catalog => exact quiet (by simp) (h.keep (fun _ => Iff.rfl) rfl fun _ => id)
  | rearm hex q saved =>
    refine quiet (by simp) (h.keep (fun key => ?_) rfl fun _ => id)
    rw [Action.apply, State.quarantinePut_torrents]
  | enforceTrip now env trip => exact quiet (by simp) (h.enforceTrip deletes agrees)
  | pushLive => exact quiet (by simp) (h.keep (fun _ => Iff.rfl) rfl fun _ => id)

theorem bootedStep_tracked {x y : Booted} (step : BootedStep s x y)
    (h : Tracked x.added x.engine ∧ Spelled x.engine) : Tracked y.added y.engine ∧ Spelled y.engine := by
  cases step with
  | action a deletes agrees => exact ⟨h.1.apply h.2 deletes agrees, h.2.apply a⟩
  | rehash ts hperm =>
    have hheld : ∀ hex, (x.engine.state.rehash ts hperm).torrents.Has hex ↔
        x.engine.state.torrents.Has hex := fun hex => (hperm.map Torrent.infoHash).mem_iff
    exact ⟨h.1.keep hheld rfl fun _ => id, fun hex hh => h.2 hex ((hheld hex).mp hh)⟩

/-- From a boot whose session holds nothing but held torrents, under the spelling that the program writes,
no run in which the session deletes what it is told to leaves a ghost, and every torrent added that is still
held is in the session with its metadata in the cache. -/
theorem no_ghosts_no_lost_metadata {x y : Booted} (run : Relation.ReflTransGen (BootedStep s) x y)
    (boot : ∀ hex ∈ x.engine.session, x.engine.state.torrents.Has hex) (spelled : Spelled x.engine)
    (added : x.added = []) :
    (∀ hex ∈ y.engine.session, y.engine.state.torrents.Has hex) ∧
      ∀ hex ∈ y.added, y.engine.state.torrents.Has hex →
        hex ∈ y.engine.session ∧ y.engine.torrentCache.Has hex := by
  have start : Tracked x.added x.engine ∧ Spelled x.engine := by
    refine ⟨⟨boot, fun hex hm => ?_⟩, spelled⟩
    rw [added] at hm
    cases hm
  have htracked := (run_preserves (P := fun x => Tracked x.added x.engine ∧ Spelled x.engine)
    bootedStep_tracked run start).1
  exact ⟨htracked.sessionHeld, htracked.managed⟩

namespace Reference

/-- A boot with one torrent; it is tripped, and the state file takes neither the add nor the removal. -/
def boot : Booted := ⟨engine [held (hexEncode hashB) location] (List.nodup_singleton _), []⟩

def unsavedFill : Action :=
  .act (candidate hashA 1) 1 0 { env true with fill := { place true with saved := false } }

def unsavedTrip : Action := .enforceTrip 2 (fun _ => ⟨⟨true, true, false⟩, 2⟩) (hexEncode hashB, ⟨1, 1⟩)

end Reference

open Reference in
theorem no_ghosts_no_lost_metadata_one :
    let y := (boot.after settings unsavedFill).after settings unsavedTrip
    y.added = [hexEncode hashA] ∧ y.engine.state.torrents.Has (hexEncode hashA) ∧
      ¬y.engine.state.torrents.Has (hexEncode hashB) ∧
      (∀ hex ∈ y.engine.session, y.engine.state.torrents.Has hex) ∧
      ∀ hex ∈ y.added, y.engine.state.torrents.Has hex →
        hex ∈ y.engine.session ∧ y.engine.torrentCache.Has hex := by
  intro y
  have fills : BootedStep settings boot (boot.after settings unsavedFill) :=
    .action boot unsavedFill (fun _ => rfl)
      (matchingRead_of_cached (metadata hashA "a") (by decide +kernel) rfl)
  have trips : BootedStep settings (boot.after settings unsavedFill) y :=
    .action _ unsavedTrip (fun _ => rfl) ⟨hashB, rfl⟩
  have run := (Relation.ReflTransGen.single fills).tail trips
  have spelled : Spelled boot.engine := fun hex hheld => ⟨hashB, List.mem_singleton.mp hheld⟩
  have hrun := no_ghosts_no_lost_metadata run (by decide +kernel) spelled rfl
  exact ⟨by decide +kernel, by decide +kernel, by decide +kernel, hrun⟩

end KeepAt
