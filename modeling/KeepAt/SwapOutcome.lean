import KeepAt.PlacementCases
import KeepAt.Reference

namespace KeepAt

variable {s : Settings} {e : Engine} {c : Candidate} {md : TorrentMeta} {sizeBytes seederFloor : Nat}
  {roll : F64} {env : SwapEnv}

theorem SwapAt.mem {locations : List PathBuf} {r : Engine × Bool × SwapDecision F64 × Nat}
    {location : PathBuf} {ds : List Torrent}
    (h : SwapAt s e e.state.all c md sizeBytes seederFloor roll env locations r location ds) (t : Torrent) :
    t ∈ r.1.state.torrents.values ↔ t.infoHash ∉ ds.map Torrent.infoHash ∧
      (t = heldEntry c md sizeBytes location (env.place location) ∨
        t ∈ e.state.torrents.values ∧ t.infoHash ≠ hexEncode c.infoHash) := by
  rw [h.torrents, KeyedList.mem_eraseAll, KeyedList.mem_insert, and_comm]
  rfl

theorem mem_of_hash_mem {ds : List Torrent} (hds : ∀ d ∈ ds, d ∈ e.state.torrents.values) {t : Torrent}
    (ht : t ∈ e.state.torrents.values) (h : t.infoHash ∈ ds.map Torrent.infoHash) : t ∈ ds := by
  obtain ⟨d, hd, he⟩ := List.mem_map.mp h
  rwa [← KeyedList.eq_of_key_eq (hds d hd) ht he]

/-- For a candidate that is not held, nothing that is displaced comes back and the new entry
stays. -/
theorem SwapAt.mem_fresh {locations : List PathBuf} {r : Engine × Bool × SwapDecision F64 × Nat}
    {location : PathBuf} {ds : List Torrent}
    (h : SwapAt s e e.state.all c md sizeBytes seederFloor roll env locations r location ds)
    (fresh : ¬e.state.torrents.Has (hexEncode c.infoHash)) (t : Torrent) :
    t ∈ r.1.state.torrents.values ↔ t = heldEntry c md sizeBytes location (env.place location) ∨
      t ∈ e.state.torrents.values ∧ t ∉ ds := by
  have hds := fun d hd => ((displaceableAt_spec h.selected).1 d hd).1
  have hne : ∀ u ∈ e.state.torrents.values, u.infoHash ≠ hexEncode c.infoHash :=
    fun u hu he => fresh (he ▸ KeyedList.has_of_mem hu)
  rw [h.mem]
  constructor
  · rintro ⟨hout, rfl | ⟨ht, -⟩⟩
    · exact Or.inl rfl
    · exact Or.inr ⟨ht, fun hm => hout (List.mem_map_of_mem hm)⟩
  · rintro (rfl | ⟨ht, hout⟩)
    · refine ⟨fun hm => ?_, Or.inl rfl⟩
      obtain ⟨d, hd, he⟩ := List.mem_map.mp hm
      exact hne d (hds d hd) he
    · exact ⟨fun hm => hout (mem_of_hash_mem hds ht hm), Or.inr ⟨ht, hne t ht⟩⟩

/-- A failed swap leaves the engine as it was. A successful one displaces the selected set of one
location, where the new entry goes, and touches nothing of another location. -/
theorem trySwap_outcome (s : Settings) (e : Engine) (c : Candidate) (md : TorrentMeta)
    (sizeBytes seederFloor : Nat) (roll : F64) (env : SwapEnv) :
    let r := trySwap s e c md sizeBytes seederFloor roll env
    (r.2.1 = false → r.1 = e) ∧
    (r.2.1 = true → ∃ location ds,
      displaceableAt s e.state.all c md sizeBytes location = some ds ∧
      (∀ d ∈ ds, d ∈ e.state.torrents.values ∧ d.storageLocation = location) ∧
      (∀ t, t ∈ r.1.state.torrents.values ↔ t.infoHash ∉ ds.map Torrent.infoHash ∧
        (t = heldEntry c md sizeBytes location (env.place location) ∨
          t ∈ e.state.torrents.values ∧ t.infoHash ≠ hexEncode c.infoHash)) ∧
      (¬e.state.torrents.Has (hexEncode c.infoHash) → ∀ t, t ∈ r.1.state.torrents.values ↔
        t = heldEntry c md sizeBytes location (env.place location) ∨
          t ∈ e.state.torrents.values ∧ t ∉ ds) ∧
      (∀ t ∈ e.state.torrents.values, t.storageLocation ≠ location →
        t.infoHash ≠ hexEncode c.infoHash → t ∈ r.1.state.torrents.values)) := by
  intro r
  rcases trySwap_cases s e c md sizeBytes seederFloor roll env with
    ⟨-, he, hok⟩ | ⟨location, ds, h⟩
  · exact ⟨fun _ => he, fun h => absurd h (by simp [r, hok])⟩
  · refine ⟨fun hf => absurd h.swapped (by simp [← hf, r]), fun _ => ?_⟩
    obtain ⟨hds, -⟩ := displaceableAt_spec h.selected
    refine ⟨location, ds, h.selected, hds, h.mem, h.mem_fresh, ?_⟩
    intro t ht hloc hne
    refine (h.mem t).mpr ⟨fun hm => hloc ?_, Or.inr ⟨ht, hne⟩⟩
    exact (hds t (mem_of_hash_mem (fun d hd => (hds d hd).1) ht hm)).2

/-- With the candidate itself among the displaced, its new entry goes out with the old one. -/
theorem trySwap_own_entry_displaced :
    let c := Reference.candidate Reference.hashA 1
    let e := Reference.engine [Reference.held (hexEncode Reference.hashA) Reference.location] (by decide)
    let r := trySwap Reference.settings e c (Reference.metadata Reference.hashA "a") (100 * Reference.mib)
      0 (.ofRat 0) (Reference.env true).swap
    r.2.1 = true ∧ ¬∃ location ds,
      displaceableAt Reference.settings e.state.all c (Reference.metadata Reference.hashA "a")
        (100 * Reference.mib) location = some ds ∧
      ∀ h, r.1.state.torrents.Has h ↔ h = hexEncode c.infoHash ∨
        e.state.torrents.Has h ∧ h ∉ ds.map Torrent.infoHash := by
  intro c e r
  have hswapped : r.2.1 = true := by decide +kernel
  have hgone : ¬r.1.state.torrents.Has (hexEncode c.infoHash) := by decide +kernel
  exact ⟨hswapped, fun ⟨_, _, _, h⟩ => hgone ((h _).mpr (Or.inl rfl))⟩

end KeepAt
