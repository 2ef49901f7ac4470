import KeepAt.EntryHistory
import KeepAt.Reference
import KeepAt.Scan

namespace KeepAt

variable {s : Settings} {e : Engine} {seederFloor : Nat}

/-- A read for a hash finds metadata of that hash. -/
def MatchingRead (hex : String) (md : TorrentMeta) : Prop := hexEncode md.infoHash = hex

/-- Every hash on its way through a scan is `Listed`, and so is every hash added, under which the
session was given bytes of the same hash. -/
structure ScanListed (Listed : InfoHash → Prop) (before : HeldMap) (x : ScanState) : Prop where
  unevaluated : ∀ item ∈ x.unevaluated, Listed item.infoHash
  channel : ∀ ev ∈ x.channel, Listed ev.infoHash
  batch : ∀ ev ∈ x.batch, Listed ev.infoHash
  window : ∀ c ∈ x.window, Listed c.infoHash
  admitted : ∀ p ∈ x.admitted, ∃ hash, Listed hash ∧ p = (hexEncode hash, some hash)
  held : ∀ hex, x.engine.state.torrents.Has hex → before.Has hex ∨ hex ∈ x.admitted.map Prod.fst

theorem evaluateOneItem_infoHash {cache : TorrentCache} {item : Item} {env : EvaluateEnv} {ev : Evaluated}
    (h : (evaluateOneItem s cache item env).2 = some ev) :
    ∃ md, (fetchMetadata s cache (hexEncode item.infoHash) env.fetch).2 = some md ∧
      ev.infoHash = md.infoHash := by
  simp only [evaluateOneItem] at h
  split at h
  next => cases h
  next md hmd =>
    split at h
    next => cases h
    next =>
      obtain ⟨swarm, -, rfl⟩ := Option.map_eq_some_iff.mp h
      exact ⟨md, hmd, rfl⟩

/-- After a successful read the cache holds the same metadata, or nothing that parses. -/
theorem fetchMetadata_cached {cache : TorrentCache} {hex : String} {env : FetchEnv} {md : TorrentMeta}
    (h : (fetchMetadata s cache hex env).2 = some md) :
    ((fetchMetadata s cache hex env).1.find hex).bind (fun b => s.parseTorrentBytes b.2) = some md ∨
      ((fetchMetadata s cache hex env).1.find hex).bind (fun b => s.parseTorrentBytes b.2) = none := by
  unfold fetchMetadata at h ⊢
  cases hc : (cache.find hex).bind (fun b => s.parseTorrentBytes b.2) with
  | some cached =>
    simp only [hc] at h ⊢
    exact Or.inl h
  | none =>
    simp only [hc] at h ⊢
    split at h
    next => cases h
    next body md' hbody =>
      obtain rfl := Option.some.inj h
      obtain ⟨raw, -, hraw⟩ := Option.bind_eq_some_iff.mp hbody
      obtain ⟨parsed, hparse, he⟩ := Option.map_eq_some_iff.mp hraw
      obtain ⟨rfl, rfl⟩ := Prod.mk.inj he
      split
      next =>
        have hfind : (cache.insert (hex, raw)).find hex = some (hex, raw) :=
          KeyedList.find_eq_some.mpr ⟨KeyedList.mem_insert.mpr (Or.inl rfl), rfl⟩
        rw [hfind]
        exact Or.inl hparse
      next => exact Or.inr hc

theorem Admitted.bytesHash {c : Candidate} {env : ActEnv} {after : Engine} {md : TorrentMeta}
    {location : PathBuf} {place : PlaceEnv} {displaced : List Torrent}
    (h : Admitted s e c env after md location place displaced) :
    bytesHash s (fetched s e c env).torrentCache (hexEncode c.infoHash) = some md.infoHash := by
  obtain ⟨session, hentered, -⟩ := h.entered
  unfold addTorrentBytes at hentered
  rcases fetchMetadata_cached h.read with hc | hc
  · exact congrArg (Option.map TorrentMeta.infoHash) hc
  · have hnone : (((fetched s e c env).torrentCache.find (hexEncode c.infoHash)).bind
        fun b => s.parseTorrentBytes b.2) = none := hc
    rw [hnone] at hentered
    cases hentered

theorem Admitted.addedHash {c : Candidate} {env : ActEnv} {after : Engine} {md : TorrentMeta}
    {location : PathBuf} {place : PlaceEnv} {displaced : List Torrent}
    (h : Admitted s e c env after md location place displaced) :
    (after.history.drop e.history.length).filterMap Event.addedHash = [hexEncode c.infoHash] := by
  obtain ⟨_, _, hrec⟩ := h.recorded
  rw [hrec, List.drop_left]
  rfl

theorem Admitted.has {c : Candidate} {env : ActEnv} {after : Engine} {md : TorrentMeta}
    {location : PathBuf} {place : PlaceEnv} {displaced : List Torrent}
    (h : Admitted s e c env after md location place displaced) {hex : String}
    (hh : after.state.torrents.Has hex) : hex = hexEncode c.infoHash ∨ e.state.torrents.Has hex := by
  rw [h.torrents] at hh
  exact KeyedList.has_insert.mp (KeyedList.has_eraseAll.mp hh).1

theorem ScanListed.act {Listed : InfoHash → Prop} {before : HeldMap} {x : ScanState} {c : Candidate}
    {rest : List Candidate} {env : ActEnv} (h : ScanListed Listed before x) (next : x.window = c :: rest)
    (reads : ∀ md, (fetchMetadata s x.engine.torrentCache (hexEncode c.infoHash) env.fetch).2 = some md →
      MatchingRead (hexEncode c.infoHash) md) :
    ScanListed Listed before (x.act s seederFloor c rest env) := by
  have hwindow := h.window
  rw [next, List.forall_mem_cons] at hwindow
  simp only [ScanState.act]
  split
  next => exact { h with window := hwindow.2 }
  next =>
    rcases actOnCandidate_admitted s x.engine c x.heldCount seederFloor env with
      ⟨ht, hh⟩ | ⟨md, location, place, displaced, hadm⟩
    · refine { h with window := hwindow.2, admitted := ?_, held := ?_ } <;>
        simp only [hh, List.drop_length, List.filterMap_nil, List.map_nil, List.append_nil, ht]
      · exact h.admitted
      · exact h.held
    · have hhash := hexEncode_injective (reads md hadm.read)
      refine { h with window := hwindow.2, admitted := ?_, held := ?_ } <;>
        simp only [hadm.addedHash, List.map_cons, List.map_nil, hadm.bytesHash, hhash]
      · intro p hp
        rcases List.mem_append.mp hp with hp | hp
        · exact h.admitted p hp
        · exact ⟨c.infoHash, hwindow.1, List.mem_singleton.mp hp⟩
      · intro hex hhas
        rw [List.map_append, List.mem_append]
        rcases hadm.has hhas with rfl | hhas
        · exact Or.inr (Or.inr (by simp))
        · exact (h.held hex hhas).imp_right Or.inl

theorem scanStep_listed {Listed : InfoHash → Prop} {before : HeldMap} {x y : ScanState}
    (step : ScanStep s seederFloor MatchingRead x y) (h : ScanListed Listed before x) :
    ScanListed Listed before y := by
  cases step with
  | evaluate item env pending reads =>
    have hresult : ∀ ev ∈ (evaluateOneItem s x.engine.torrentCache item env).2.toList,
        Listed ev.infoHash := by
      intro ev hev
      obtain ⟨md, hmd, hhash⟩ := evaluateOneItem_infoHash (Option.mem_toList.mp hev)
      rw [hhash, hexEncode_injective (reads md hmd)]
      exact h.unevaluated item pending
    exact { h with
      unevaluated := fun i hi => h.unevaluated i (List.mem_of_mem_erase hi)
      channel := fun ev hev => (List.mem_append.mp hev).elim (h.channel ev) (hresult ev) }
  | receive ev rest idle open_ arrived =>
    have hchannel := h.channel
    rw [arrived, List.forall_mem_cons] at hchannel
    have hbatch : ∀ w ∈ x.batch ++ [ev], Listed w.infoHash := by
      intro w hw
      rcases List.mem_append.mp hw with hw | hw
      · exact h.batch w hw
      · exact List.mem_singleton.mp hw ▸ hchannel.1
    refine { h with channel := hchannel.2, batch := hbatch, window := fun c hc => ?_ }
    obtain ⟨w, hw, rfl⟩ := ScanState.mem_receive_window hc
    exact hbatch w hw
  | act c rest env next reads => exact h.act next reads
  | rehash ts hperm =>
    refine { h with held := fun hex hhas => h.held hex ?_ }
    obtain ⟨t, ht, rfl⟩ := KeyedList.has_iff.mp hhas
    exact KeyedList.has_of_mem (hperm.subset ht)
  | finish idle open_ walked drained =>
    refine { h with window := fun c hc => ?_ }
    obtain ⟨w, hw, rfl⟩ := ScanState.mem_finish_window hc
    exact h.batch w hw

theorem beginScan_has {items : List Item} {env : ScanEnv} {hex : String}
    (h : (beginScan s e items env).engine.state.torrents.Has hex) : e.state.torrents.Has hex := by
  have hrefreshed : ∀ {hex}, (refreshHeldSeederCounts s (reconcile s e (catalogHashes items)
      env.reconcile) env.refresh).state.torrents.Has hex → e.state.torrents.Has hex := by
    intro hex h
    rw [refreshHeldSeederCounts, Engine.updateEach_has, reconcile, Engine.updateEach_has] at h
    obtain ⟨t, ht, rfl⟩ := KeyedList.has_iff.mp h
    have hsub := vanishedPass_subset s { e with lastCatalog := some (catalogHashes items) }
      (catalogHashes items) env.reconcile.vanished
    exact KeyedList.has_of_mem (hsub ht)
  simp only [beginScan] at h
  split at h
  next => exact hrefreshed h
  next =>
    obtain ⟨t, ht, rfl⟩ := KeyedList.has_iff.mp h
    exact hrefreshed (KeyedList.has_of_mem (evictStalledTorrents_subset _ _ _ _ ht))

def PendingHash (s : Settings) (e : Engine) (items : List Item) (hash : InfoHash) : Prop :=
  ∃ item ∈ items, prefilterReason s (heldHashes e) item = .pending ∧ item.infoHash = hash

theorem beginScan_listed (s : Settings) (e : Engine) (items : List Item) (env : ScanEnv) :
    ScanListed (PendingHash s e items) e.state.torrents (beginScan s e items env) := by
  have hheld := fun hex (h : (beginScan s e items env).engine.state.torrents.Has hex) => beginScan_has h
  simp only [beginScan] at hheld ⊢
  split
  next hi =>
    simp only [hi, if_true] at hheld
    exact ⟨by simp, by simp, by simp, by simp, by simp, fun hex h => Or.inl (hheld hex h)⟩
  next hi =>
    simp only [hi] at hheld
    refine ⟨fun item hm => ?_, by simp, by simp, by simp, by simp, fun hex h => Or.inl (hheld hex h)⟩
    obtain ⟨hitem, hpending⟩ := List.mem_filter.mp hm
    exact ⟨item, hitem, by simpa using hpending, rfl⟩

theorem scanRun_listed {items : List Item} {env : ScanEnv} {y : ScanState}
    (run : Relation.ReflTransGen (ScanStep s seederFloor MatchingRead) (beginScan s e items env) y) :
    ScanListed (PendingHash s e items) e.state.torrents y :=
  run_preserves (P := ScanListed _ e.state.torrents) scanStep_listed run (beginScan_listed s e items env)

/-- Where every read for a hash finds metadata of that hash, a scan adds only hashes of items that its
prefilter found pending, each with bytes of that hash, and holds nothing else that was not held. -/
theorem scan_admits_pending {items : List Item} {env : ScanEnv} {y : ScanState}
    (run : Relation.ReflTransGen (ScanStep s seederFloor MatchingRead) (beginScan s e items env) y) :
    (∀ p ∈ y.admitted, ∃ item ∈ items, prefilterReason s (heldHashes e) item = .pending ∧
      p = (hexEncode item.infoHash, some item.infoHash)) ∧
    ∀ hex, y.engine.state.torrents.Has hex → e.state.torrents.Has hex ∨ hex ∈ y.admitted.map Prod.fst := by
  have listed := scanRun_listed run
  refine ⟨fun p hp => ?_, listed.held⟩
  obtain ⟨hash, ⟨item, hitem, hpending, rfl⟩, rfl⟩ := listed.admitted p hp
  exact ⟨item, hitem, hpending, rfl⟩

namespace Reference

/-- A time at which the two files are old enough. -/
def scanTime : Time := 1700000000 * 10 ^ 9

def scanEnv : ScanEnv where
  reconcile := ⟨⟨scanTime, fun _ => ⟨⟨true, true, true⟩, scanTime⟩⟩, scanTime, true⟩
  refresh := ⟨0, fun _ => ⟨none, true⟩, fun _ _ => none, fun _ => none, fun _ => 0, fun _ => scanTime, true⟩
  interrupted := false
  stall := ⟨scanTime, fun _ => none, fun _ => 0, fun _ => ⟨⟨true, true, true⟩, scanTime⟩⟩

def evaluateEnv : EvaluateEnv := ⟨⟨none, true⟩, scanTime, fun _ _ => some ⟨1, 0, 0⟩⟩

def item (hash : InfoHash) : Item := ⟨"t", hash, "", 100 * mib⟩

def evaluated : Candidate := ⟨hashA, "t", 100 * mib, 2, 1, 0, 0⟩

end Reference

theorem fetchMetadata_of_cached {cache : TorrentCache} {hex : String} {md : TorrentMeta}
    (h : (cache.find hex).bind (fun b => s.parseTorrentBytes b.2) = some md) (env : FetchEnv) :
    fetchMetadata s cache hex env = (cache, some md) := by
  simp only [fetchMetadata, h]

theorem matchingRead_of_cached (cached : TorrentMeta) {cache : TorrentCache} {hex : String} {env : FetchEnv}
    (h : (cache.find hex).bind (fun b => s.parseTorrentBytes b.2) = some cached)
    (matching : MatchingRead hex cached) :
    ∀ md, (fetchMetadata s cache hex env).2 = some md → MatchingRead hex md := by
  intro md hmd
  rw [fetchMetadata_of_cached h] at hmd
  exact Option.some.inj hmd ▸ matching

open Reference in
theorem scan_admits_pending_one :
    let start := beginScan settings (engine [] List.nodup_nil) [item hashA] scanEnv
    let walked := start.evaluate settings (item hashA) evaluateEnv
    let arrived := walked.receive settings 0 ⟨"t", hashA, 100 * mib, 2, 1, 0⟩ []
    let last := arrived.finish settings 0
    let y := last.act settings 0 evaluated [] (env true)
    y.admitted = [(hexEncode hashA, some hashA)] ∧
      ∀ p ∈ y.admitted, ∃ i ∈ [item hashA], prefilterReason settings [] i = .pending ∧
        p = (hexEncode i.infoHash, some i.infoHash) := by
  intro start walked arrived last y
  have evaluates : ScanStep settings 0 MatchingRead start walked :=
    .evaluate start (item hashA) evaluateEnv (by decide +kernel)
      (matchingRead_of_cached (metadata hashA "a") (by decide +kernel) rfl)
  have receives : ScanStep settings 0 MatchingRead walked arrived :=
    .receive walked _ [] (by decide +kernel) (by decide +kernel) (by decide +kernel)
  have finishes : ScanStep settings 0 MatchingRead arrived last :=
    .finish arrived (by decide +kernel) (by decide +kernel) (by decide +kernel) (by decide +kernel)
  have acts : ScanStep settings 0 MatchingRead last y :=
    .act last evaluated [] (env true) (by decide +kernel)
      (matchingRead_of_cached (metadata hashA "a") (by decide +kernel) rfl)
  have run : Relation.ReflTransGen (ScanStep settings 0 MatchingRead) start y :=
    (((Relation.ReflTransGen.single evaluates).tail receives).tail finishes).tail acts
  exact ⟨by decide +kernel, (scan_admits_pending run).1⟩

open Reference in
/-- One item is blocked by its title and the other is pending, but the bytes cached under the pending
hash are those of the blocked torrent, and that one is added. -/
theorem scan_admits_blocked :
    let s := { settings with
      cfg := { settings.cfg with config := { settings.cfg.config with keywordBlocklist := ["draft"] } } }
    let e := { engine [] List.nodup_nil with
      torrentCache := ⟨[(hexEncode hashA, file 97), (hexEncode hashB, file 97)], by decide⟩ }
    let blocked := { item hashA with title := "A Draft" }
    let start := beginScan s e [blocked, item hashB] scanEnv
    let walked := start.evaluate s (item hashB) evaluateEnv
    let arrived := walked.receive s 0 ⟨"t", hashA, 100 * mib, 2, 1, 0⟩ []
    let last := arrived.finish s 0
    let y := last.act s 0 evaluated [] (env true)
    Relation.ReflTransGen (ScanStep s 0 AnyRead) start y ∧
      y.admitted = [(hexEncode hashA, some hashA)] ∧ y.engine.state.torrents.Has (hexEncode hashA) ∧
      ¬e.state.torrents.Has (hexEncode hashA) ∧
      prefilterReason s (heldHashes e) blocked = .blocked ∧
      ¬∃ i ∈ [blocked, item hashB], prefilterReason s (heldHashes e) i = .pending ∧ i.infoHash = hashA := by
  intro s e blocked start walked arrived last y
  have evaluates : ScanStep s 0 AnyRead start walked :=
    .evaluate start (item hashB) evaluateEnv (by decide +kernel) fun _ _ => trivial
  have receives : ScanStep s 0 AnyRead walked arrived :=
    .receive walked _ [] (by decide +kernel) (by decide +kernel) (by decide +kernel)
  have finishes : ScanStep s 0 AnyRead arrived last :=
    .finish arrived (by decide +kernel) (by decide +kernel) (by decide +kernel) (by decide +kernel)
  have acts : ScanStep s 0 AnyRead last y :=
    .act last evaluated [] (env true) (by decide +kernel) fun _ _ => trivial
  exact ⟨(((Relation.ReflTransGen.single evaluates).tail receives).tail finishes).tail acts,
    by decide +kernel, by decide +kernel, by decide +kernel, by decide +kernel, by decide +kernel⟩

end KeepAt
