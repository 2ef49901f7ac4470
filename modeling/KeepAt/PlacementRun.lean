import KeepAt.PlacementCases
import KeepAt.Runs

namespace KeepAt

/-- A step of the engine with its running held count: a call on a candidate that is not held and
whose metadata is admissible, a removal, a fresh count, or a rehash of the map. -/
inductive PlacementStep (s : Settings) (Admissible : TorrentMeta → Prop) :
    Engine × Nat → Engine × Nat → Prop
  | act (e : Engine) (n : Nat) (c : Candidate) (seederFloor : Nat) (env : ActEnv)
      (fresh : ¬e.state.torrents.Has (hexEncode c.infoHash))
      (admissible : ∀ md, (fetchMetadata s e.torrentCache (hexEncode c.infoHash) env.fetch).2 = some md →
        Admissible md) :
      PlacementStep s Admissible (e, n) (actOnCandidate s e c n seederFloor env)
  | remove (e : Engine) (n : Nat) (hex : String) (env : RemoveEnv) :
      PlacementStep s Admissible (e, n) ((e.dropHeld hex env).1, n)
  | recount (e : Engine) (n : Nat) : PlacementStep s Admissible (e, n) (e, e.state.torrents.size)
  | rehash (e : Engine) (n : Nat) (ts : List Torrent) (h : ts.Perm e.state.torrents.values) :
      PlacementStep s Admissible (e, n) ({ e with state := e.state.rehash ts h }, n)

variable {s : Settings} {e : Engine} {c : Candidate} {md : TorrentMeta} {n seederFloor : Nat}
  {probe : Bool} {roll : F64} {env : ActEnv} {r : Engine × Nat}

theorem FillPlaced.total {loc : StorageLocation} (h : FillPlaced s e c md n seederFloor roll env r loc)
    (fresh : ¬e.state.torrents.Has (hexEncode c.infoHash)) (f : Torrent → Nat) :
    r.1.state.torrents.total f =
      f (heldEntry c md md.totalLength loc.path env.fill) + e.state.torrents.total f := by
  rw [h.torrents]
  exact KeyedList.total_insert_fresh fresh f

theorem SwapPlaced.displaced {location : PathBuf} {ds : List Torrent}
    (h : SwapPlaced s e c md n seederFloor probe roll env r location ds) :
    (∀ d ∈ ds, d ∈ e.state.torrents.values ∧ d.storageLocation = location) ∧
      (ds.map Torrent.infoHash).Nodup ∧ ds ≠ [] ∧ ds.Subperm (heldAt e.state.all location) ∧
      sizeNeeded md.totalLength ≤ (ds.map Torrent.sizeBytes).sum ∧
      torrentRam md.pieceCount s.peerLimit ≤ (ds.map (freedRam s.peerLimit)).sum := by
  obtain ⟨_, _, hswap, -⟩ := h.swap
  exact displaceableAt_spec hswap.selected

/-- A hash that is not held is none of those displaced. -/
theorem fresh_not_mem_displaced {m : HeldMap} {hex : String} {ds : List Torrent} (held : ∀ d ∈ ds, d ∈ m.values)
    (fresh : ¬m.Has hex) : hex ∉ ds.map Torrent.infoHash := by
  intro hm
  obtain ⟨d, hd, rfl⟩ := List.mem_map.mp hm
  exact fresh (KeyedList.has_of_mem (held d hd))

theorem SwapPlaced.total {location : PathBuf} {ds : List Torrent}
    (h : SwapPlaced s e c md n seederFloor probe roll env r location ds)
    (fresh : ¬e.state.torrents.Has (hexEncode c.infoHash)) (f : Torrent → Nat) :
    r.1.state.torrents.total f + (ds.map f).sum =
      f (heldEntry c md md.totalLength location (env.swap.place location)) +
        e.state.torrents.total f := by
  obtain ⟨hheld, hnodup, -⟩ := h.displaced
  obtain ⟨_, _, hswap, -⟩ := h.swap
  have hout := fresh_not_mem_displaced (fun d hd => (hheld d hd).1) fresh
  have hperm := KeyedList.eraseAll_insert_comm (m := e.state.torrents)
    (a := heldEntry c md md.totalLength location (env.swap.place location)) hout
  have hinsert : r.1.state.torrents.total f =
      ((e.state.torrents.eraseAll (ds.map Torrent.infoHash)).insert
        (heldEntry c md md.totalLength location (env.swap.place location))).total f := by
    rw [hswap.torrents]
    exact (hperm.map f).sum_eq
  have hfresh : ¬(e.state.torrents.eraseAll (ds.map Torrent.infoHash)).Has (hexEncode c.infoHash) :=
    fun hh => fresh (KeyedList.has_eraseAll.mp hh).1
  have hadd := KeyedList.total_insert_fresh (m := e.state.torrents.eraseAll (ds.map Torrent.infoHash))
    (a := heldEntry c md md.totalLength location (env.swap.place location)) hfresh f
  have hout := KeyedList.total_eraseAll hnodup (fun d hd => (hheld d hd).1) f
  omega

theorem State.rehash_total (s : State) (ts : List Torrent) (h : ts.Perm s.torrents.values)
    (f : Torrent → Nat) : (s.rehash ts h).torrents.total f = s.torrents.total f :=
  KeyedList.total_reorder h f

/-- A measure that no fill or swap takes over its bound stays within it. -/
theorem placementStep_total_le {Admissible : TorrentMeta → Prop} {x y : Engine × Nat}
    (step : PlacementStep s Admissible x y) (f : Torrent → Nat) (bound : Nat)
    (start : x.1.state.torrents.total f ≤ bound)
    (fill : ∀ {e c md n seederFloor roll env r loc},
      FillPlaced s e c md n seederFloor roll env r loc → c.pieceCount = md.pieceCount →
      Admissible md → e.state.torrents.total f ≤ bound →
      f (heldEntry c md md.totalLength loc.path env.fill) + e.state.torrents.total f ≤ bound)
    (swap : ∀ {e c md n seederFloor probe roll env r location ds},
      SwapPlaced s e c md n seederFloor probe roll env r location ds →
      Admissible md → e.state.torrents.total f ≤ bound →
      f (heldEntry c md md.totalLength location (env.swap.place location)) + e.state.torrents.total f ≤
        bound + (ds.map f).sum) :
    y.1.state.torrents.total f ≤ bound := by
  cases step with
  | act e n c seederFloor env fresh admissible =>
    rcases actOnCandidate_cases s e c n seederFloor env with
      ⟨he, -⟩ | ⟨probe, md, hreach, ⟨loc, h⟩ | ⟨location, ds, h⟩⟩
    · rcases he with he | he <;> rw [he] <;> exact start
    · rw [h.total fresh f]
      exact fill h rfl (admissible md hreach.2.1) start
    · have htotal := h.total fresh f
      have hle := swap h (admissible md hreach.2.1) start
      omega
  | remove e n hex env =>
    rw [Engine.dropHeld_torrents]
    exact (KeyedList.total_erase_le _ _ f).trans start
  | recount e n => exact start
  | rehash e n ts h =>
    have := State.rehash_total e.state ts h f
    exact this.trans_le start

end KeepAt
