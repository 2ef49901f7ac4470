import KeepAt.Placement

namespace KeepAt

variable {s : Settings} {e : Engine} {c : Candidate} {md : TorrentMeta}

def AddSucceeds (s : Settings) (e : Engine) (c : Candidate) (md : TorrentMeta) (sizeBytes : Nat)
    (displaced : List Held) (seederFloor : Nat) (roll : F64) (env : PlaceEnv) : Prop :=
  (placeDecision s c md sizeBytes displaced seederFloor roll).shouldSwap = true ∧ env.mkdirOk = true ∧
    (addTorrentBytes s e.session e.torrentCache (hexEncode c.infoHash) env.sessionOk).isSome

theorem tryAdd_cases (s : Settings) (e : Engine) (c : Candidate) (md : TorrentMeta) (sizeBytes : Nat)
    (location : PathBuf) (displaced : List Held) (seederFloor : Nat) (roll : F64) (env : PlaceEnv) :
    let d := placeDecision s c md sizeBytes displaced seederFloor roll
    (¬AddSucceeds s e c md sizeBytes displaced seederFloor roll env ∧
      tryAdd s e c md sizeBytes location displaced seederFloor roll env = (e, false, d)) ∨
    (AddSucceeds s e c md sizeBytes displaced seederFloor roll env ∧ ∃ session,
      addTorrentBytes s e.session e.torrentCache (hexEncode c.infoHash) env.sessionOk = some session ∧
      tryAdd s e c md sizeBytes location displaced seederFloor roll env =
        ((Engine.record { e with
            session, state := (e.state.put (heldEntry c md sizeBytes location env) env.saved).1 }
          (addEvent c sizeBytes location displaced seederFloor d env.recordedAt)).pushLive, true, d)) := by
  intro d
  simp only [tryAdd]
  split
  next hd => exact Or.inl ⟨fun h => by simp [h.1] at hd, rfl⟩
  next hd =>
    split
    next hm => exact Or.inl ⟨fun h => by simp [h.2.1] at hm, rfl⟩
    next hm =>
      split
      next ha => exact Or.inl ⟨fun h => by simpa [ha] using h.2.2, rfl⟩
      next session ha =>
        exact Or.inr ⟨⟨by simpa using hd, by simpa using hm, by simp [ha]⟩, session, ha, rfl⟩

theorem removeDisplaced_torrents (remove : String → RemoveEnv) (ds : List Torrent) (e : Engine) (n : Nat) :
    (removeDisplaced e remove ds n).1.state.torrents =
      e.state.torrents.eraseAll (ds.map Torrent.infoHash) := by
  induction ds generalizing e n with
  | nil => rfl
  | cons d ds ih =>
    rw [removeDisplaced, ih, Engine.dropHeld_torrents]
    rfl

/-- How many displaced torrents a swap counts as gone: those whose removal was saved. -/
def savedRemovals (remove : String → RemoveEnv) (ds : List Torrent) : Nat :=
  (ds.filter fun d => (remove d.infoHash).saved).length

theorem savedRemovals_le (remove : String → RemoveEnv) (ds : List Torrent) :
    savedRemovals remove ds ≤ ds.length := List.length_filter_le _ _

theorem removeDisplaced_count (remove : String → RemoveEnv) (ds : List Torrent) (e : Engine) (n : Nat) :
    (removeDisplaced e remove ds n).2 = n + savedRemovals remove ds := by
  induction ds generalizing e n with
  | nil => rfl
  | cons d ds ih =>
    rw [removeDisplaced, ih, Engine.dropHeld_saved, savedRemovals, savedRemovals, List.filter_cons]
    split
    · rw [List.length_cons]
      omega
    · rfl

theorem removeDisplaced_frame (remove : String → RemoveEnv) (ds : List Torrent) (e : Engine) (n : Nat) :
    let r := (removeDisplaced e remove ds n).1
    r.state.quarantined = e.state.quarantined ∧ r.history = e.history ∧ r.session ⊆ e.session ∧
      r.torrentCache.values ⊆ e.torrentCache.values := by
  induction ds generalizing e n with
  | nil => exact ⟨rfl, rfl, List.Subset.refl _, List.Subset.refl _⟩
  | cons d ds ih =>
    obtain ⟨hq, hh, hs, hc⟩ := ih (e.dropHeld d.infoHash (remove d.infoHash)).1
      (if (e.dropHeld d.infoHash (remove d.infoHash)).2 then n + 1 else n)
    exact ⟨hq.trans (Engine.dropHeld_quarantined _ _ _), hh,
      List.Subset.trans hs (Engine.dropHeld_session_subset _ _ _),
      List.Subset.trans hc (Engine.dropHeld_cache_subset _ _ _)⟩

theorem finishSwap_frame (e : Engine) (remove : String → RemoveEnv) (ds : List Torrent)
    (d : SwapDecision F64) :
    let r := finishSwap e remove ds d
    r.1.state.torrents = e.state.torrents.eraseAll (ds.map Torrent.infoHash) ∧
      r.1.state.quarantined = e.state.quarantined ∧ r.1.history = e.history ∧
      r.1.session ⊆ e.session ∧ r.1.torrentCache.values ⊆ e.torrentCache.values ∧
      r.2.1 = true ∧ r.2.2.2 = savedRemovals remove ds := by
  have ht := removeDisplaced_torrents remove ds e 0
  obtain ⟨hq, hh, hs, hc⟩ := removeDisplaced_frame remove ds e 0
  have hn := removeDisplaced_count remove ds e 0
  simp only [finishSwap]
  split <;> exact ⟨ht, hq, hh, hs, hc, trivial, by omega⟩

theorem mem_heldAt {held : List Torrent} {location : PathBuf} {h : Torrent} :
    h ∈ heldAt held location ↔ h ∈ held ∧ h.storageLocation = location := by
  simp [heldAt]

theorem displaceableAt_spec {sizeBytes : Nat} {location : PathBuf} {ds : List Torrent}
    (h : displaceableAt s e.state.all c md sizeBytes location = some ds) :
    (∀ d ∈ ds, d ∈ e.state.torrents.values ∧ d.storageLocation = location) ∧
      (ds.map Torrent.infoHash).Nodup ∧ ds ≠ [] ∧ ds.Subperm (heldAt e.state.all location) ∧
      sizeNeeded sizeBytes ≤ (ds.map Torrent.sizeBytes).sum ∧
      torrentRam md.pieceCount s.peerLimit ≤ (ds.map (freedRam s.peerLimit)).sum := by
  obtain ⟨hne, hsub, -, hsize, hram⟩ := selectDisplaceable_spec h
  have hnodup := selectDisplaceable_nodup
    ((List.filter_sublist.map Torrent.infoHash).nodup e.state.torrents.distinct) h
  exact ⟨fun d hd => mem_heldAt.mp (hsub.subset hd), hnodup, hne, hsub, hsize, hram⟩

/-- A location at which the swap loop stops: a displaceable set, a device with room for the
candidate, and an add that succeeds. -/
def SwapAdmits (s : Settings) (e : Engine) (held : List Torrent) (c : Candidate) (md : TorrentMeta)
    (sizeBytes seederFloor : Nat) (roll : F64) (env : SwapEnv) (location : PathBuf) : Prop :=
  ∃ ds, displaceableAt s held c md sizeBytes location = some ds ∧
    deviceGate env location ds sizeBytes = none ∧
    AddSucceeds s e c md sizeBytes (ds.map heldView) seederFloor roll (env.place location)

/-- A successful swap at the first location that admits one. -/
structure SwapAt (s : Settings) (e : Engine) (held : List Torrent) (c : Candidate) (md : TorrentMeta)
    (sizeBytes seederFloor : Nat) (roll : F64) (env : SwapEnv) (locations : List PathBuf)
    (r : Engine × Bool × SwapDecision F64 × Nat) (location : PathBuf) (ds : List Torrent) : Prop where
  first : ∃ before after, locations = before ++ location :: after ∧
    ∀ l ∈ before, ¬SwapAdmits s e held c md sizeBytes seederFloor roll env l
  admits : SwapAdmits s e held c md sizeBytes seederFloor roll env location
  selected : displaceableAt s held c md sizeBytes location = some ds
  entered : ∃ session, addTorrentBytes s e.session e.torrentCache (hexEncode c.infoHash)
    (env.place location).sessionOk = some session ∧ r.1.session ⊆ session
  torrents : r.1.state.torrents =
    (e.state.torrents.insert (heldEntry c md sizeBytes location (env.place location))).eraseAll
      (ds.map Torrent.infoHash)
  quarantined : r.1.state.quarantined = e.state.quarantined
  cache : r.1.torrentCache.values ⊆ e.torrentCache.values
  recorded : r.1.history = e.history ++
    [addEvent c sizeBytes location (ds.map heldView) seederFloor
      (placeDecision s c md sizeBytes (ds.map heldView) seederFloor roll) (env.place location).recordedAt]
  swapped : r.2.1 = true
  count : r.2.2.2 = savedRemovals env.remove ds

theorem swapLoop_cases (held : List Torrent) (sizeBytes seederFloor : Nat) (roll : F64) (env : SwapEnv)
    (locations : List PathBuf) (last : SwapDecision F64) :
    let r := swapLoop s held c md sizeBytes seederFloor roll env e locations last
    ((∀ l ∈ locations, ¬SwapAdmits s e held c md sizeBytes seederFloor roll env l) ∧
      r.1 = e ∧ r.2.1 = false) ∨
      ∃ location ds, SwapAt s e held c md sizeBytes seederFloor roll env locations r location ds := by
  induction locations generalizing last with
  | nil => exact Or.inl ⟨by simp, rfl, rfl⟩
  | cons location rest ih =>
    have later : ¬SwapAdmits s e held c md sizeBytes seederFloor roll env location → ∀ last,
        let r := swapLoop s held c md sizeBytes seederFloor roll env e rest last
        ((∀ l ∈ location :: rest, ¬SwapAdmits s e held c md sizeBytes seederFloor roll env l) ∧
          r.1 = e ∧ r.2.1 = false) ∨ ∃ l ds,
          SwapAt s e held c md sizeBytes seederFloor roll env (location :: rest) r l ds := by
      intro hn last
      rcases ih last with ⟨hall, h⟩ | ⟨l, ds, h⟩
      · exact Or.inl ⟨List.forall_mem_cons.mpr ⟨hn, hall⟩, h⟩
      · obtain ⟨before, after, heq, hb⟩ := h.first
        exact Or.inr ⟨l, ds, { h with
          first := ⟨location :: before, after, by rw [heq]; rfl, List.forall_mem_cons.mpr ⟨hn, hb⟩⟩ }⟩
    intro r
    simp only [r]
    cases hsel : displaceableAt s held c md sizeBytes location with
    | none =>
      simp only [swapLoop, hsel]
      exact later (by rintro ⟨ds, h, -⟩; rw [hsel] at h; cases h) last
    | some ds =>
      cases hgate : deviceGate env location ds sizeBytes with
      | some reason =>
        simp only [swapLoop, hsel, hgate]
        refine later ?_ _
        rintro ⟨ds', h, hg, -⟩
        obtain rfl := Option.some.inj (hsel.symm.trans h)
        rw [hgate] at hg
        cases hg
      | none =>
        rcases tryAdd_cases s e c md sizeBytes location (ds.map heldView) seederFloor roll
            (env.place location) with ⟨hn, h⟩ | ⟨ha, session, hs, h⟩
        · simp only [swapLoop, hsel, hgate, h, Bool.false_eq_true, if_false]
          refine later ?_ _
          rintro ⟨ds', hsel', -, ha⟩
          obtain rfl := Option.some.inj (hsel.symm.trans hsel')
          exact hn ha
        · simp only [swapLoop, hsel, hgate, h, if_true]
          obtain ⟨ht, hq, hh, hses, hc, hok, hn⟩ := finishSwap_frame
            ((Engine.record { e with
                session,
                state := (e.state.put (heldEntry c md sizeBytes location (env.place location))
                  (env.place location).saved).1 }
              (addEvent c sizeBytes location (ds.map heldView) seederFloor
                (placeDecision s c md sizeBytes (ds.map heldView) seederFloor roll)
                (env.place location).recordedAt)).pushLive)
            env.remove ds (placeDecision s c md sizeBytes (ds.map heldView) seederFloor roll)
          exact Or.inr ⟨location, ds, ⟨[], rest, rfl, by simp⟩, ⟨ds, hsel, hgate, ha⟩, hsel,
            ⟨session, hs, hses⟩, by simpa using ht, by simpa using hq, hc, hh, hok, hn⟩

theorem trySwap_cases (s : Settings) (e : Engine) (c : Candidate) (md : TorrentMeta)
    (sizeBytes seederFloor : Nat) (roll : F64) (env : SwapEnv) :
    let r := trySwap s e c md sizeBytes seederFloor roll env
    ((∀ l ∈ heldLocations e.state.all,
        ¬SwapAdmits s e e.state.all c md sizeBytes seederFloor roll env l) ∧ r.1 = e ∧ r.2.1 = false) ∨
      ∃ location ds, SwapAt s e e.state.all c md sizeBytes seederFloor roll env
        (heldLocations e.state.all) r location ds :=
  swapLoop_cases e.state.all sizeBytes seederFloor roll env _ _

/-- The chosen fill location is configured, has room, and is tried within both caps. -/
theorem fillTarget_spec {n : Nat} {env : ActEnv} {loc : StorageLocation}
    (h : fillTarget s e c md n env = some loc) :
    loc ∈ s.storage ∧ n < s.maxTorrents ∧ torrentRam c.pieceCount s.peerLimit ≤ e.ramHeadroomBytes s ∧
      sizeNeeded md.totalLength ≤ e.freeBytes env.deviceFree loc := by
  unfold fillTarget at h
  split at h
  next hcap =>
    split at h
    next => cases h
    next hram =>
      obtain ⟨i, hi, hloc⟩ := Option.bind_eq_some_iff.mp h
      obtain ⟨f, need, hf, hn, hle⟩ := chooseLocation_eligible hi
      rw [List.getElem?_map, hloc, Option.map_some] at hf hn
      obtain rfl := Option.some.inj hf
      obtain rfl := Option.some.inj hn
      exact ⟨List.mem_of_getElem? hloc, hcap, not_lt.mp hram, hle⟩
  next => cases h

/-- Capacity at some configured location is enough for a fill to be tried, whatever the roll. -/
theorem fillTarget_isSome {n : Nat} {env : ActEnv} {loc : StorageLocation} (hl : loc ∈ s.storage)
    (hcap : n < s.maxTorrents) (hram : torrentRam c.pieceCount s.peerLimit ≤ e.ramHeadroomBytes s)
    (hdisk : sizeNeeded md.totalLength ≤ e.freeBytes env.deviceFree loc) :
    ∃ target, fillTarget s e c md n env = some target := by
  obtain ⟨i, hi⟩ := List.mem_iff_getElem?.mp hl
  have hfree : (s.storage.map (e.freeBytes env.deviceFree))[i]? =
      some (e.freeBytes env.deviceFree loc) := by
    rw [List.getElem?_map, hi]
    rfl
  have hneed : (s.storage.map (fun _ => sizeNeeded md.totalLength))[i]? =
      some (sizeNeeded md.totalLength) := by
    rw [List.getElem?_map, hi]
    rfl
  obtain ⟨j, hj⟩ := chooseLocation_isSome hfree hneed hdisk env.locationRoll
  obtain ⟨f, need, hf, -, -⟩ := chooseLocation_eligible hj
  obtain ⟨target, ht, -⟩ := Option.map_eq_some_iff.mp (List.getElem?_map ▸ hf)
  refine ⟨target, ?_⟩
  unfold fillTarget
  rw [if_pos hcap, if_neg (not_lt.mpr hram)]
  dsimp only
  rw [hj]
  exact ht

/-- The call gets past the quarantine gate, the metadata read and the descriptor guard. -/
def ActReaches (s : Settings) (e : Engine) (c : Candidate) (env : ActEnv) (probe : Bool)
    (md : TorrentMeta) : Prop :=
  e.quarantineGate (hexEncode c.infoHash) env.now = (none, probe) ∧
    (fetchMetadata s e.torrentCache (hexEncode c.infoHash) env.fetch).2 = some md ∧
    fitsInHeadroom md.fileCount env.fdHeadroom = true

def fetched (s : Settings) (e : Engine) (c : Candidate) (env : ActEnv) : Engine :=
  { e with torrentCache := (fetchMetadata s e.torrentCache (hexEncode c.infoHash) env.fetch).1 }

/-- The swap path is taken: this is no re-probe, and the fill was not tried, or failed after its
roll had passed. -/
def SwapReached (s : Settings) (e : Engine) (c : Candidate) (md : TorrentMeta) (n seederFloor : Nat)
    (probe : Bool) (roll : F64) (env : ActEnv) : Prop :=
  probe = false ∧ ((fillTarget s e c md n env).isSome →
    ¬AddSucceeds s e c md md.totalLength [] seederFloor roll env.fill ∧
      (placeDecision s c md md.totalLength [] seederFloor roll).seedScarcityBlocked = false)

structure FillPlaced (s : Settings) (e : Engine) (c : Candidate) (md : TorrentMeta) (n seederFloor : Nat)
    (roll : F64) (env : ActEnv) (r : Engine × Nat) (loc : StorageLocation) : Prop where
  configured : loc ∈ s.storage
  belowCap : n < s.maxTorrents
  fitsRam : torrentRam c.pieceCount s.peerLimit ≤ e.ramHeadroomBytes s
  fitsDisk : sizeNeeded md.totalLength ≤ e.freeBytes env.deviceFree loc
  succeeds : AddSucceeds s e c md md.totalLength [] seederFloor roll env.fill
  entered : addTorrentBytes s e.session e.torrentCache (hexEncode c.infoHash) env.fill.sessionOk =
    some r.1.session
  torrents : r.1.state.torrents =
    e.state.torrents.insert (heldEntry c md md.totalLength loc.path env.fill)
  quarantined : r.1.state.quarantined = e.state.quarantined
  cache : r.1.torrentCache = e.torrentCache
  recorded : r.1.history = e.history ++ [addEvent c md.totalLength loc.path [] seederFloor
    (placeDecision s c md md.totalLength [] seederFloor roll) env.fill.recordedAt]
  count : r.2 = n + 1

structure SwapPlaced (s : Settings) (e : Engine) (c : Candidate) (md : TorrentMeta) (n seederFloor : Nat)
    (probe : Bool) (roll : F64) (env : ActEnv) (r : Engine × Nat) (location : PathBuf)
    (ds : List Torrent) : Prop where
  reached : SwapReached s e c md n seederFloor probe roll env
  swap : ∃ d removed, SwapAt s e e.state.all c md md.totalLength seederFloor roll env.swap
    (heldLocations e.state.all) (r.1, true, d, removed) location ds ∧
      r.2 = saturatingAdd n 1 - removed

theorem notEvaluated_not_blocked : notEvaluated.seedScarcityBlocked = false := by decide

theorem tryFill_cases (s : Settings) (e : Engine) (c : Candidate) (md : TorrentMeta)
    (n seederFloor : Nat) (roll : F64) (env : ActEnv) :
    let r := tryFill s e c md n seederFloor roll env
    (r.1 = e ∧ r.2.1 = false ∧
      (r.2.2.seedScarcityBlocked = false ↔ SwapReached s e c md n seederFloor false roll env)) ∨
      (r.2.1 = true ∧ ∃ loc, FillPlaced s e c md n seederFloor roll env (r.1, n + 1) loc) := by
  intro r
  simp only [r, tryFill]
  cases ht : fillTarget s e c md n env with
  | none => exact Or.inl ⟨rfl, rfl, by simp [SwapReached, ht, notEvaluated_not_blocked]⟩
  | some loc =>
    obtain ⟨hl, hcap, hram, hdisk⟩ := fillTarget_spec ht
    rcases tryAdd_cases s e c md md.totalLength loc.path [] seederFloor roll env.fill with
      ⟨hn, h⟩ | ⟨ha, session, hs, h⟩
    · refine Or.inl ⟨by simp only [h], by simp only [h], ?_⟩
      simp only [h, SwapReached, ht, Option.isSome_some, true_and, forall_const, hn,
        not_false_eq_true]
    · refine Or.inr ⟨by simp only [h], loc, ⟨hl, hcap, hram, hdisk, ha, ?_, ?_, ?_, ?_, ?_, rfl⟩⟩
      all_goals simp only [h]
      · exact hs
      · exact State.put_torrents _ _ _
      · exact State.put_quarantined _ _ _
      · rfl
      · rfl

/-- Everything a placement can do: nothing, when the swap path is not taken or no location admits
the swap; a fill; or a swap. -/
theorem placeCandidate_cases (s : Settings) (e : Engine) (c : Candidate) (md : TorrentMeta)
    (n seederFloor : Nat) (probe : Bool) (roll : F64) (env : ActEnv) :
    let r := placeCandidate s e c md n seederFloor probe roll env
    (r = (e, n) ∧ (SwapReached s e c md n seederFloor probe roll env →
      ∀ l ∈ heldLocations e.state.all,
        ¬SwapAdmits s e e.state.all c md md.totalLength seederFloor roll env.swap l)) ∨
      (∃ loc, FillPlaced s e c md n seederFloor roll env r loc) ∨
      ∃ location ds, SwapPlaced s e c md n seederFloor probe roll env r location ds := by
  intro r
  simp only [r, placeCandidate]
  rcases tryFill_cases s e c md n seederFloor roll env with
    ⟨he, hadd, hreach⟩ | ⟨hadd, loc, h⟩
  · rw [if_neg (by simp [hadd]), he]
    cases hb : (tryFill s e c md n seederFloor roll env).2.2.seedScarcityBlocked with
    | true =>
      refine Or.inl ⟨rfl, fun hr => ?_⟩
      have := hreach.mpr ⟨rfl, hr.2⟩
      rw [hb] at this
      cases this
    | false =>
      cases probe with
      | true => exact Or.inl ⟨rfl, fun hr => by cases hr.1⟩
      | false =>
        rcases trySwap_cases s e c md md.totalLength seederFloor roll
            env.swap with ⟨hall, h1, h2⟩ | ⟨location, ds, h⟩
        · exact Or.inl ⟨by simp [h1, h2], fun _ => hall⟩
        · generalize trySwap s e c md md.totalLength seederFloor roll env.swap = out at h ⊢
          obtain ⟨e', swapped, d, removed⟩ := out
          obtain rfl : swapped = true := h.swapped
          exact Or.inr (Or.inr ⟨location, ds, hreach.mp hb, d, removed, h, rfl⟩)
  · rw [if_pos hadd]
    exact Or.inr (Or.inl ⟨loc, h⟩)

theorem actOnCandidate_stopped (n seederFloor : Nat) {env : ActEnv}
    (h : ∀ probe md, ¬ActReaches s e c env probe md) :
    let r := actOnCandidate s e c n seederFloor env
    (r.1 = e ∨ r.1 = fetched s e c env) ∧ r.2 = n := by
  intro r
  simp only [r, actOnCandidate]
  split
  next => exact ⟨Or.inl rfl, rfl⟩
  next probe hgate =>
    cases hmd : (fetchMetadata s e.torrentCache (hexEncode c.infoHash) env.fetch).2 with
    | none => exact ⟨Or.inr rfl, rfl⟩
    | some md =>
      dsimp only
      split
      next => exact ⟨Or.inr rfl, rfl⟩
      next hfd => exact absurd ⟨hgate, hmd, by simpa using hfd⟩ (h probe md)

theorem actOnCandidate_reached {n seederFloor : Nat} {env : ActEnv} {probe : Bool}
    (h : ActReaches s e c env probe md) :
    actOnCandidate s e c n seederFloor env =
      placeCandidate s (fetched s e c env) { c with pieceCount := md.pieceCount } md n seederFloor probe
        (evaluationRoll probe env.roll) env := by
  obtain ⟨hgate, hmd, hfd⟩ := h
  simp only [actOnCandidate, hgate, hmd, hfd]
  rfl

/-- Everything a call can do: nothing but a metadata read, a fill, or a swap. -/
theorem actOnCandidate_cases (s : Settings) (e : Engine) (c : Candidate) (n seederFloor : Nat)
    (env : ActEnv) :
    let r := actOnCandidate s e c n seederFloor env
    ((r.1 = e ∨ r.1 = fetched s e c env) ∧ r.2 = n) ∨
      ∃ probe md, ActReaches s e c env probe md ∧
        ((∃ loc, FillPlaced s (fetched s e c env) { c with pieceCount := md.pieceCount } md n seederFloor
          (evaluationRoll probe env.roll) env r loc) ∨
        ∃ location ds, SwapPlaced s (fetched s e c env) { c with pieceCount := md.pieceCount } md n
          seederFloor probe (evaluationRoll probe env.roll) env r location ds) := by
  intro r
  by_cases h : ∃ probe md, ActReaches s e c env probe md
  · obtain ⟨probe, md, h⟩ := h
    simp only [r, actOnCandidate_reached h]
    rcases placeCandidate_cases s (fetched s e c env) { c with pieceCount := md.pieceCount } md n
        seederFloor probe (evaluationRoll probe env.roll) env with ⟨hr, -⟩ | hfill | hswap
    · exact Or.inl ⟨Or.inr (congrArg Prod.fst hr), congrArg Prod.snd hr⟩
    · exact Or.inr ⟨probe, md, h, Or.inl hfill⟩
    · exact Or.inr ⟨probe, md, h, Or.inr hswap⟩
  · exact Or.inl (actOnCandidate_stopped n seederFloor fun probe md hr => h ⟨probe, md, hr⟩)

/-- A call that added its candidate, by a fill or over a displaced set. -/
structure Admitted (s : Settings) (e : Engine) (c : Candidate) (env : ActEnv) (after : Engine)
    (md : TorrentMeta) (location : PathBuf) (place : PlaceEnv) (displaced : List Torrent) : Prop where
  read : (fetchMetadata s e.torrentCache (hexEncode c.infoHash) env.fetch).2 = some md
  chosen : place = if displaced.isEmpty then env.fill else env.swap.place location
  entered : ∃ session, addTorrentBytes s e.session (fetched s e c env).torrentCache
    (hexEncode c.infoHash) place.sessionOk = some session ∧ after.session ⊆ session
  torrents : after.state.torrents =
    (e.state.torrents.insert (heldEntry c md md.totalLength location place)).eraseAll
      (displaced.map Torrent.infoHash)
  recorded : ∃ seederFloor decision, after.history = e.history ++
    [addEvent c md.totalLength location (displaced.map heldView) seederFloor decision place.recordedAt]

/-- A call that placed its candidate: past the gate, and over held torrents only where the registry does
not know the hash. -/
structure Placed (s : Settings) (e : Engine) (c : Candidate) (env : ActEnv) (after : Engine)
    (md : TorrentMeta) (location : PathBuf) (place : PlaceEnv) (displaced : List Torrent) : Prop where
  admitted : Admitted s e c env after md location place displaced
  gated : ∀ q, e.state.quarantineGet (hexEncode c.infoHash) = some q → q.cooldownUntil ≤ env.now
  held : ∀ d ∈ displaced, d ∈ e.state.torrents.values
  distinct : (displaced.map Torrent.infoHash).Nodup
  unprobed : displaced ≠ [] → e.state.quarantineGet (hexEncode c.infoHash) = none

theorem quarantineGate_passed {hex : String} {now : Time} {probe : Bool}
    (h : e.quarantineGate hex now = (none, probe)) :
    (∀ q, e.state.quarantineGet hex = some q → q.cooldownUntil ≤ now) ∧
      (probe = false → e.state.quarantineGet hex = none) := by
  unfold Engine.quarantineGate at h
  split at h
  next hq => exact ⟨fun q h => absurd (hq.symm.trans h) (by simp), fun _ => hq⟩
  next q hq =>
    split at h
    next hn =>
      obtain ⟨-, rfl⟩ := Prod.mk.inj h
      refine ⟨fun q' h => ?_, fun h => absurd h (by simp)⟩
      obtain rfl := Option.some.inj (hq.symm.trans h)
      exact hn
    next => cases h

theorem actOnCandidate_quarantined (s : Settings) (e : Engine) (c : Candidate) (n seederFloor : Nat)
    (env : ActEnv) :
    (actOnCandidate s e c n seederFloor env).1.state.quarantined = e.state.quarantined := by
  rcases actOnCandidate_cases s e c n seederFloor env with
    ⟨he | he, -⟩ | ⟨probe, md, -, ⟨loc, h⟩ | ⟨location, ds, h⟩⟩
  · rw [he]
  · rw [he]
    rfl
  · exact h.quarantined
  · obtain ⟨_, _, hswap, -⟩ := h.swap
    exact hswap.quarantined

/-- A call leaves the held map and the ledger as they are, or places its candidate. -/
theorem actOnCandidate_placed (s : Settings) (e : Engine) (c : Candidate) (n seederFloor : Nat)
    (env : ActEnv) :
    let after := (actOnCandidate s e c n seederFloor env).1
    (after.state.torrents = e.state.torrents ∧ after.history = e.history) ∨
      ∃ md location place displaced, Placed s e c env after md location place displaced := by
  intro after
  rcases actOnCandidate_cases s e c n seederFloor env with
    ⟨he, -⟩ | ⟨probe, md, hreach, ⟨loc, h⟩ | ⟨location, ds, h⟩⟩
  · refine Or.inl ?_
    rcases he with he | he <;> simp only [after, he]
    · exact ⟨trivial, trivial⟩
    · exact ⟨rfl, rfl⟩
  · have hadm : Admitted s e c env after md loc.path env.fill [] :=
      ⟨hreach.2.1, rfl, ⟨_, h.entered, List.Subset.refl _⟩, h.torrents, seederFloor, _, h.recorded⟩
    exact Or.inr ⟨md, loc.path, env.fill, [], hadm, (quarantineGate_passed hreach.1).1, by simp, by simp,
      fun hne => absurd rfl hne⟩
  · obtain ⟨d, removed, hswap, -⟩ := h.swap
    obtain ⟨hheld, hnodup, hne, -⟩ := displaceableAt_spec hswap.selected
    have hadm : Admitted s e c env after md location (env.swap.place location) ds :=
      ⟨hreach.2.1, by simp [hne], hswap.entered, hswap.torrents, seederFloor, _, hswap.recorded⟩
    obtain ⟨hgated, hunprobed⟩ := quarantineGate_passed hreach.1
    exact Or.inr ⟨md, location, env.swap.place location, ds, hadm, hgated, fun d hd => (hheld d hd).1,
      hnodup, fun _ => hunprobed h.reached.1⟩

/-- A call either leaves the held map and the ledger as they are, or admits its candidate. -/
theorem actOnCandidate_admitted (s : Settings) (e : Engine) (c : Candidate) (n seederFloor : Nat)
    (env : ActEnv) :
    let after := (actOnCandidate s e c n seederFloor env).1
    (after.state.torrents = e.state.torrents ∧ after.history = e.history) ∨
      ∃ md location place displaced, Admitted s e c env after md location place displaced :=
  (actOnCandidate_placed s e c n seederFloor env).imp_right
    fun ⟨md, location, place, displaced, h⟩ => ⟨md, location, place, displaced, h.admitted⟩

end KeepAt
