import KeepAt.Process
import KeepAt.Reference
import Mathlib.Data.Finset.Card

namespace KeepAt

def listedCount (held : HeldMap) (catalog : List String) : Nat :=
  (held.values.filter fun t => t.infoHash ∈ catalog).length

theorem stillListed_eq_listedCount (held : HeldMap) (catalog : List String) :
    stillListed held.values catalog = listedCount held catalog := by
  have hnodup : ((held.values.filter fun t => t.infoHash ∈ catalog).map
      Torrent.infoHash).Nodup := (List.filter_sublist.map Torrent.infoHash).nodup held.distinct
  have hset : catalog.toFinset ∩ (held.values.map Torrent.infoHash).toFinset =
      ((held.values.filter fun t => t.infoHash ∈ catalog).map Torrent.infoHash).toFinset := by
    ext hex
    simp only [Finset.mem_inter, List.mem_toFinset, List.mem_map, List.mem_filter, decide_eq_true_eq]
    constructor
    · rintro ⟨hc, t, ht, rfl⟩
      exact ⟨t, ⟨ht, hc⟩, rfl⟩
    · rintro ⟨t, ⟨ht, hc⟩, rfl⟩
      exact ⟨hc, t, ht, rfl⟩
  rw [stillListed, hset, List.toFinset_card_of_nodup hnodup, List.length_map]
  rfl

theorem catalogCollapse_eq_false {percent : Nat} {held : HeldMap} {catalog : List String} :
    catalogCollapse percent held.values catalog = false ↔
      held.size = 0 ∨ percent = 0 ∨ max (held.size * percent / 100) 1 ≤ listedCount held catalog := by
  rw [← stillListed_eq_listedCount]
  simp only [catalogCollapse, Bool.and_eq_false_iff, Bool.not_eq_false', decide_eq_false_iff_not,
    List.isEmpty_iff_length_eq_zero, not_lt, Nat.le_zero, or_assoc]
  rfl

/-- The rounded threshold asks for as many hashes as the exact one, unless what is listed is the
exact share rounded down. -/
theorem collapse_threshold_exact {n percent listed : Nat}
    (h : n = 0 ∨ percent = 0 ∨ max (n * percent / 100) 1 ≤ listed) :
    percent * n ≤ listed * 100 ↔ n * percent < 100 ∨ 100 ∣ n * percent ∨ listed ≠ n * percent / 100 := by
  rw [Nat.mul_comm percent n]
  rcases h with rfl | rfl | h
  · simp
  · simp
  · generalize n * percent = share at h ⊢
    omega

theorem reconcile_collapsed_has {s : Settings} {e : Engine} {catalog : List String}
    (h : catalogCollapse s.cfg.config.catalogCollapsePercent e.state.all catalog = true)
    (env : ReconcileEnv) (hex : String) :
    (reconcile s e catalog env).state.torrents.Has hex ↔ e.state.torrents.Has hex := by
  have hpass : vanishedPass s { e with lastCatalog := some catalog } catalog env.vanished =
      { e with lastCatalog := some catalog } := if_pos h
  rw [reconcile, Engine.updateEach_has, hpass]

/-- The vanished pass runs only over a catalog that lists the configured percentage of what is held,
and a smaller catalog removes nothing, except where the share of the listed torrents is the configured
one rounded down. -/
theorem reconcile_guard_exact_iff (s : Settings) (e : Engine) (catalog : List String) :
    let percent := s.cfg.config.catalogCollapsePercent
    let held := e.state.torrents.size
    let listed := listedCount e.state.torrents catalog
    ((catalogCollapse percent e.state.all catalog = false → percent * held ≤ listed * 100) ∧
      (listed * 100 < percent * held → ∀ env hex,
        (reconcile s e catalog env).state.torrents.Has hex ↔ e.state.torrents.Has hex)) ↔
      held * percent < 100 ∨ 100 ∣ held * percent ∨ listed ≠ held * percent / 100 := by
  intro percent held listed
  have hrun : catalogCollapse percent e.state.all catalog = false ↔
      held = 0 ∨ percent = 0 ∨ max (held * percent / 100) 1 ≤ listed := catalogCollapse_eq_false
  constructor
  · rintro ⟨hexact, -⟩
    by_cases hr : catalogCollapse percent e.state.all catalog = false
    · exact (collapse_threshold_exact (hrun.mp hr)).mp (hexact hr)
    · have hbelow := hrun.not.mp hr
      push Not at hbelow
      omega
  · intro hcond
    have hexact : catalogCollapse percent e.state.all catalog = false → percent * held ≤ listed * 100 :=
      fun hr => (collapse_threshold_exact (hrun.mp hr)).mpr hcond
    refine ⟨hexact, fun hbelow env hex => reconcile_collapsed_has ?_ env hex⟩
    rw [← Bool.not_eq_false]
    exact fun hr => absurd (hexact hr) (not_le.mpr hbelow)

/-- With four held torrents and the default of 30 percent, a catalog that lists one of them, or 25
percent, removes the other three. -/
theorem reconcile_removes_below_percent :
    let s : Settings := { Reference.settings with
      cfg := { Reference.settings.cfg with
        config := { Reference.settings.cfg.config with scan := { vanishedEvictionTimeout := 0 } } } }
    let hex := fun (n : Nat) => hexEncode ⟨List.replicate 20 (UInt8.ofNat n), List.length_replicate⟩
    let ts := [1, 2, 3, 4].map fun n => Reference.held (hex n) Reference.location
    ∃ hd : (ts.map Torrent.infoHash).Nodup,
      let e := Reference.engine ts hd
      let env : ReconcileEnv :=
        ⟨⟨1, fun _ => ⟨⟨true, true, true⟩, 1⟩⟩, 1, true⟩
      s.cfg.config.catalogCollapsePercent = 30 ∧ listedCount e.state.torrents [hex 1] * 100 < 30 * 4 ∧
        catalogCollapse 30 e.state.all [hex 1] = false ∧ e.state.torrents.size = 4 ∧
        (reconcile s e [hex 1] env).state.torrents.size = 1 := by
  refine ⟨by decide +kernel, ?_⟩
  decide +kernel

end KeepAt
