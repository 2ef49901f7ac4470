import KeepAt.PlacementRun
import KeepAt.Reference

namespace KeepAt

/-- The price of a held torrent; an unknown piece count is typical. -/
def heldPrice (s : Settings) (h : Torrent) : Nat :=
  torrentRam (if h.pieceCount > 0 then h.pieceCount else 1024) s.peerLimit

/-- The priced RAM of the held set is within the budget, its size within the cap, and the running
count is no lower than the size. -/
structure WithinBudget (s : Settings) (x : Engine × Nat) : Prop where
  ram : x.1.state.torrents.total (heldPrice s) ≤ s.ramBudget
  cap : x.1.state.torrents.size ≤ s.maxTorrents
  counted : x.1.state.torrents.size ≤ x.2

variable {s : Settings} {e : Engine} {c : Candidate} {md : TorrentMeta} {n seederFloor : Nat}
  {probe : Bool} {roll : F64} {env : ActEnv} {r : Engine × Nat}

/-- The displacement price never exceeds the headroom price. -/
theorem freedRam_le_heldPrice (s : Settings) (h : Torrent) : freedRam s.peerLimit h ≤ heldPrice s h := by
  unfold freedRam heldPrice
  refine torrentRam_mono ?_ _
  split <;> omega

theorem two_le_heldPrice (s : Settings) (h : Torrent) : 2 ≤ heldPrice s h := by
  unfold heldPrice torrentRam saturatingAdd perTorrentRamBase u64Max
  omega

theorem heldPrice_entry (hp : 1 ≤ md.pieceCount) (location : PathBuf) (env : PlaceEnv) :
    heldPrice s (heldEntry c md md.totalLength location env) = torrentRam md.pieceCount s.peerLimit :=
  congrArg (torrentRam · s.peerLimit)
    (if_pos (show (heldEntry c md md.totalLength location env).pieceCount > 0 from hp))

/-- While the priced RAM is within the budget, the headroom is exactly the rest of it. -/
theorem ramHeadroomBytes_eq (h : e.state.torrents.total (heldPrice s) ≤ s.ramBudget) :
    e.ramHeadroomBytes s = s.ramBudget - e.state.torrents.total (heldPrice s) := by
  have hsum : ((e.state.all.map (heldPrice s)).foldl saturatingAdd 0) =
      e.state.torrents.total (heldPrice s) := by
    rw [foldl_saturatingAdd _ (Nat.zero_le _), Nat.zero_add]
    exact min_eq_left (h.trans s.ramBudget_le)
  unfold Engine.ramHeadroomBytes
  dsimp only
  rw [← hsum]
  rfl

theorem fillPlaced_heldPrice_le {loc : StorageLocation}
    (h : FillPlaced s e c md n seederFloor roll env r loc) (hc : c.pieceCount = md.pieceCount)
    (hp : 1 ≤ md.pieceCount) (start : e.state.torrents.total (heldPrice s) ≤ s.ramBudget) :
    heldPrice s (heldEntry c md md.totalLength loc.path env.fill) +
      e.state.torrents.total (heldPrice s) ≤ s.ramBudget := by
  have hfit := h.fitsRam
  rw [ramHeadroomBytes_eq start, hc] at hfit
  rw [heldPrice_entry hp]
  have := torrentRam_pos md.pieceCount s.peerLimit
  omega

theorem swapPlaced_heldPrice_le {location : PathBuf} {ds : List Torrent}
    (h : SwapPlaced s e c md n seederFloor probe roll env r location ds) (hp : 1 ≤ md.pieceCount)
    (start : e.state.torrents.total (heldPrice s) ≤ s.ramBudget) :
    heldPrice s (heldEntry c md md.totalLength location (env.swap.place location)) +
      e.state.torrents.total (heldPrice s) ≤ s.ramBudget + (ds.map (heldPrice s)).sum := by
  obtain ⟨-, -, -, -, -, hram⟩ := h.displaced
  have hle : (ds.map (freedRam s.peerLimit)).sum ≤ (ds.map (heldPrice s)).sum :=
    List.sum_le_sum fun d _ => freedRam_le_heldPrice s d
  rw [heldPrice_entry hp]
  omega

theorem placementStep_ram {x y : Engine × Nat}
    (step : PlacementStep s (fun md => 1 ≤ md.pieceCount) x y)
    (start : x.1.state.torrents.total (heldPrice s) ≤ s.ramBudget) :
    y.1.state.torrents.total (heldPrice s) ≤ s.ramBudget :=
  placementStep_total_le step (heldPrice s) s.ramBudget start fillPlaced_heldPrice_le
    swapPlaced_heldPrice_le

theorem size_succ_le_u64Max (h : e.state.torrents.total (heldPrice s) ≤ s.ramBudget) :
    e.state.torrents.size + 1 ≤ u64Max := by
  have htwo : e.state.torrents.size * 2 ≤ e.state.torrents.total (heldPrice s) := by
    have hle := List.card_nsmul_le_sum (e.state.torrents.values.map (heldPrice s)) 2 (by
      intro p hp
      obtain ⟨t, -, rfl⟩ := List.mem_map.mp hp
      exact two_le_heldPrice s t)
    rwa [List.length_map] at hle
  have := s.ramBudget_le
  unfold u64Max at this ⊢
  omega

theorem swapPlaced_counts {location : PathBuf} {ds : List Torrent}
    (h : SwapPlaced s e c md n seederFloor probe roll env r location ds)
    (fresh : ¬e.state.torrents.Has (hexEncode c.infoHash)) (start : WithinBudget s (e, n)) :
    r.1.state.torrents.size ≤ s.maxTorrents ∧ r.1.state.torrents.size ≤ r.2 := by
  obtain ⟨-, -, hne, -⟩ := h.displaced
  have hpos := List.length_pos_iff.mpr hne
  have htotal := h.total fresh (fun _ => 1)
  have hlen : (ds.map (fun _ => 1)).sum = ds.length := by simp
  rw [← KeyedList.size_eq_total, ← KeyedList.size_eq_total, hlen] at htotal
  obtain ⟨_, removed, hswap, hcount⟩ := h.swap
  have hremoved : removed ≤ ds.length :=
    hswap.count.trans_le (savedRemovals_le _ _)
  have hmax := size_succ_le_u64Max start.ram
  have hcap := start.cap
  have hcounted := start.counted
  dsimp only at hmax hcap hcounted
  have hsat := le_saturatingAdd (a := n) (b := 1) (Nat.add_le_add_right hcounted 1) hmax
  exact ⟨by omega, by omega⟩

theorem placementStep_withinBudget {x y : Engine × Nat}
    (step : PlacementStep s (fun md => 1 ≤ md.pieceCount) x y) (start : WithinBudget s x) :
    WithinBudget s y := by
  have hram := placementStep_ram step start.ram
  cases step with
  | act e n c seederFloor env fresh admissible =>
    have start : WithinBudget s (fetched s e c env, n) := ⟨start.ram, start.cap, start.counted⟩
    rcases actOnCandidate_cases s e c n seederFloor env with
      ⟨he, hn⟩ | ⟨probe, md, -, ⟨loc, h⟩ | ⟨location, ds, h⟩⟩
    · have hs : (actOnCandidate s e c n seederFloor env).1.state = (fetched s e c env).state := by
        rcases he with he | he <;> rw [he]
        rfl
      exact ⟨hram, by rw [hs]; exact start.cap, by rw [hs, hn]; exact start.counted⟩
    · have htotal := h.total fresh (fun _ => 1)
      rw [← KeyedList.size_eq_total, ← KeyedList.size_eq_total] at htotal
      have hbelow := h.belowCap
      have hcounted := start.counted
      dsimp only at hcounted
      exact ⟨hram, by omega, by rw [h.count]; omega⟩
    · obtain ⟨hcap, hcounted⟩ := swapPlaced_counts h fresh start
      exact ⟨hram, hcap, hcounted⟩
  | remove e n hex env =>
    have hle : (e.dropHeld hex env).1.state.torrents.size ≤ e.state.torrents.size := by
      rw [Engine.dropHeld_torrents, KeyedList.size_eq_total, KeyedList.size_eq_total]
      exact KeyedList.total_erase_le _ _ _
    exact ⟨hram, hle.trans start.cap, hle.trans start.counted⟩
  | recount e n => exact ⟨hram, start.cap, le_rfl⟩
  | rehash e n ts h =>
    have hsize : (e.state.rehash ts h).torrents.size = e.state.torrents.size := h.length_eq
    exact ⟨hram, hsize.trans_le start.cap, hsize.trans_le start.counted⟩

/-- The RAM and count ceilings: from a held set within both, counted as it is, every run stays
within both. -/
theorem placementRun_withinBudget {x y : Engine × Nat}
    (run : Relation.ReflTransGen (PlacementStep s fun md => 1 ≤ md.pieceCount) x y)
    (ram : x.1.state.torrents.total (heldPrice s) ≤ s.ramBudget)
    (cap : x.1.state.torrents.size ≤ s.maxTorrents) (counted : x.2 = x.1.state.torrents.size) :
    y.1.state.torrents.total (heldPrice s) ≤ s.ramBudget ∧ y.1.state.torrents.size ≤ s.maxTorrents := by
  have h := run_preserves (P := WithinBudget s) placementStep_withinBudget run ⟨ram, cap, counted.ge⟩
  exact ⟨h.ram, h.cap⟩

theorem placementRun_withinBudget_fill :
    let e := Reference.engine [] List.nodup_nil
    let r := actOnCandidate Reference.settings e (Reference.candidate Reference.hashA 1) 0 0
      (Reference.env true)
    r.1.state.torrents.size = 1 ∧
      r.1.state.torrents.total (heldPrice Reference.settings) ≤ Reference.settings.ramBudget ∧
      r.1.state.torrents.size ≤ Reference.settings.maxTorrents :=
  ⟨by decide +kernel,
    placementRun_withinBudget
      (.single (.act _ 0 _ 0 _ (by decide) (by
        intro md h
        have he : (fetchMetadata Reference.settings (Reference.engine [] List.nodup_nil).torrentCache
            (hexEncode (Reference.candidate Reference.hashA 1).infoHash) (Reference.env true).fetch).2 =
            some (Reference.metadata Reference.hashA "a") := by decide +kernel
        rw [he] at h
        exact Option.some.inj h ▸ (by decide))))
      (by decide) (by decide) rfl⟩

end KeepAt
