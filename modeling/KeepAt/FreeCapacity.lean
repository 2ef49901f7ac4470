import KeepAt.PlacementCases
import KeepAt.Reference

namespace KeepAt

variable {s : Settings} {e : Engine} {c : Candidate} {md : TorrentMeta} {n seederFloor : Nat}
  {roll : F64} {env : ActEnv}

def HasRoom (s : Settings) (e : Engine) (c : Candidate) (n : Nat) (env : ActEnv) : Prop :=
  n < s.maxTorrents ∧
    ∀ md, (fetchMetadata s e.torrentCache (hexEncode c.infoHash) env.fetch).2 = some md →
      torrentRam md.pieceCount s.peerLimit ≤ e.ramHeadroomBytes s ∧
        ∃ l ∈ s.storage, sizeNeeded md.totalLength ≤ e.freeBytes env.deviceFree l

/-- The add on the free-space path meets a failing directory creation or session. -/
def FillFails (s : Settings) (e : Engine) (c : Candidate) (env : ActEnv) : Prop :=
  env.fill.mkdirOk = false ∨
    addTorrentBytes s e.session e.torrentCache (hexEncode c.infoHash) env.fill.sessionOk = none

/-- The add on the free-space path fails where a held location admits a swap. -/
def FallsThrough (s : Settings) (e : Engine) (c : Candidate) (seederFloor : Nat) (env : ActEnv) : Prop :=
  FillFails s (fetched s e c env) c env ∧ ∃ md, ActReaches s e c env false md ∧
    ∃ l ∈ heldLocations e.state.all,
      SwapAdmits s (fetched s e c env) e.state.all { c with pieceCount := md.pieceCount } md
        md.totalLength seederFloor env.roll env.swap l

theorem SwapAdmits.fill_shouldSwap {held : List Torrent} {sizeBytes : Nat} {swap : SwapEnv}
    {location : PathBuf}
    (h : SwapAdmits s e held c md sizeBytes seederFloor roll swap location) :
    (placeDecision s c md sizeBytes [] seederFloor roll).shouldSwap = true := by
  obtain ⟨ds, -, -, hshould, -⟩ := h
  obtain ⟨havailable, -, hroll⟩ := evaluateSwap_shouldSwap.mp hshould
  exact evaluateSwap_shouldSwap.mpr ⟨havailable, rfl, hroll⟩

/-- With room for a fill, the swap path is taken past a roll that passes exactly when the add
fails. -/
theorem swapReached_iff_fillFails (hfill : ∃ loc, fillTarget s e c md n env = some loc)
    (hroll : (placeDecision s c md md.totalLength [] seederFloor roll).shouldSwap = true) :
    SwapReached s e c md n seederFloor false roll env ↔ FillFails s e c env := by
  obtain ⟨loc, hloc⟩ := hfill
  have hblocked : (placeDecision s c md md.totalLength [] seederFloor roll).seedScarcityBlocked = false :=
    evaluateSwap_blocked_not_shouldSwap hroll
  simp only [SwapReached, hloc, Option.isSome_some, forall_const, hblocked, and_true, true_and,
    AddSucceeds, hroll, FillFails, not_and_or, Bool.not_eq_true, Option.isSome_iff_ne_none, ne_eq,
    not_not]

theorem SwapPlaced.not_keeps {probe : Bool} {r : Engine × Nat} {location : PathBuf} {ds : List Torrent}
    (h : SwapPlaced s e c md n seederFloor probe roll env r location ds) :
    ∃ hex, e.state.torrents.Has hex ∧ ¬r.1.state.torrents.Has hex := by
  obtain ⟨_, _, hswap, -⟩ := h.swap
  obtain ⟨hheld, -, hne, -⟩ := displaceableAt_spec hswap.selected
  obtain ⟨d, hd⟩ := List.exists_mem_of_ne_nil ds hne
  refine ⟨d.infoHash, KeyedList.has_of_mem (hheld d hd).1, fun hh => ?_⟩
  rw [hswap.torrents] at hh
  exact (KeyedList.has_eraseAll.mp hh).2 (List.mem_map_of_mem hd)

theorem FillPlaced.keeps {r : Engine × Nat} {loc : StorageLocation}
    (h : FillPlaced s e c md n seederFloor roll env r loc) {hex : String}
    (hheld : e.state.torrents.Has hex) : r.1.state.torrents.Has hex := by
  rw [h.torrents]
  exact KeyedList.has_insert.mpr (Or.inr hheld)

/-- While free capacity suffices, a call keeps every held torrent unless the add on the free-space
path fails where a swap is admitted. -/
theorem actOnCandidate_keeps_iff (room : HasRoom s e c n env) :
    (∀ hex, e.state.torrents.Has hex →
      (actOnCandidate s e c n seederFloor env).1.state.torrents.Has hex) ↔
        ¬FallsThrough s e c seederFloor env := by
  by_cases hr : ∃ probe md, ActReaches s e c env probe md
  · obtain ⟨probe, md, hreach⟩ := hr
    obtain ⟨hcap, hroom⟩ := room
    obtain ⟨hram, l, hl, hdisk⟩ := hroom md hreach.2.1
    have hfill : ∃ loc, fillTarget s (fetched s e c env) { c with pieceCount := md.pieceCount } md n env =
        some loc := fillTarget_isSome hl hcap hram hdisk
    rw [actOnCandidate_reached hreach]
    rcases placeCandidate_cases s (fetched s e c env) { c with pieceCount := md.pieceCount } md n
        seederFloor probe (evaluationRoll probe env.roll) env with ⟨hr, hnone⟩ | ⟨loc, h⟩ | ⟨location, ds, h⟩
    · rw [hr]
      refine iff_of_true (fun _ h => h) ?_
      rintro ⟨hfails, md', hreach', l', hl', hadmits⟩
      obtain ⟨rfl⟩ : probe = false := congrArg Prod.snd (hreach.1.symm.trans hreach'.1)
      obtain rfl := Option.some.inj (hreach.2.1.symm.trans hreach'.2.1)
      have hreached := (swapReached_iff_fillFails hfill hadmits.fill_shouldSwap).mpr hfails
      exact hnone hreached l' hl' hadmits
    · refine iff_of_true (fun _ hh => h.keeps hh) ?_
      rintro ⟨hfails, -⟩
      have hadd := h.succeeds
      rcases hfails with hfails | hfails
      · rw [hadd.2.1] at hfails
        cases hfails
      · have := hadd.2.2
        rw [hfails] at this
        cases this
    · obtain ⟨hex, hheld, hgone⟩ := h.not_keeps
      refine iff_of_false (fun hk => hgone (hk hex hheld)) (not_not_intro ?_)
      obtain rfl := h.reached.1
      obtain ⟨_, _, hswap, -⟩ := h.swap
      obtain ⟨before, after, hloc, -⟩ := hswap.first
      exact ⟨(swapReached_iff_fillFails hfill hswap.admits.fill_shouldSwap).mp h.reached, md, hreach,
        location, by rw [show heldLocations e.state.all = _ from hloc]; simp, hswap.admits⟩
  · obtain ⟨hstop, -⟩ := actOnCandidate_stopped n seederFloor fun probe md h => hr ⟨probe, md, h⟩
    refine iff_of_true (fun hex hh => ?_) (fun ⟨_, md, hreach, _⟩ => hr ⟨false, md, hreach⟩)
    rcases hstop with h | h <;> rw [h] <;> exact hh

theorem hasRoom_of_fetch (md : TorrentMeta)
    (hmd : (fetchMetadata s e.torrentCache (hexEncode c.infoHash) env.fetch).2 = some md)
    (hcap : n < s.maxTorrents) (hram : torrentRam md.pieceCount s.peerLimit ≤ e.ramHeadroomBytes s)
    (hdisk : ∃ l ∈ s.storage, sizeNeeded md.totalLength ≤ e.freeBytes env.deviceFree l) :
    HasRoom s e c n env :=
  ⟨hcap, fun _ h => Option.some.inj (hmd.symm.trans h) ▸ ⟨hram, hdisk⟩⟩

theorem actOnCandidate_keeps_iff_fill :
    let e := Reference.engine [Reference.held (hexEncode Reference.hashB) Reference.location] (by decide)
    let r := actOnCandidate Reference.settings e (Reference.candidate Reference.hashA 1) 1 0
      (Reference.env true)
    r.1.state.torrents.size = 2 ∧ ∀ hex, e.state.torrents.Has hex → r.1.state.torrents.Has hex :=
  ⟨by decide +kernel,
    (actOnCandidate_keeps_iff (hasRoom_of_fetch (Reference.metadata Reference.hashA "a")
      (by decide +kernel) (by decide) (by decide +kernel) (by decide +kernel))).mpr
      (fun h => absurd h.1 (by unfold FillFails; decide +kernel))⟩

/-- The session refuses the add at the free location, and the full one is swapped into. -/
theorem actOnCandidate_displaces_with_room :
    let e := Reference.engine [Reference.held (hexEncode Reference.hashB) Reference.location] (by decide)
    let r := actOnCandidate Reference.settings e (Reference.candidate Reference.hashA 1) 1 0
      (Reference.env false)
    HasRoom Reference.settings e (Reference.candidate Reference.hashA 1) 1 (Reference.env false) ∧
      e.state.torrents.Has (hexEncode Reference.hashB) ∧
      ¬r.1.state.torrents.Has (hexEncode Reference.hashB) :=
  ⟨hasRoom_of_fetch (Reference.metadata Reference.hashA "a") (by decide +kernel) (by decide)
      (by decide +kernel) (by decide +kernel), by decide, by decide +kernel⟩

end KeepAt
