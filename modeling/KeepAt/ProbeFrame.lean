import KeepAt.Ledger
import KeepAt.PlacementCases

namespace KeepAt

/-- The hashes a catalog lists, in the spelling the program gives them. -/
def SpelledList (listed : List String) : Prop := ∀ hex ∈ listed, ∃ hash, hex = hexEncode hash

variable {s : Settings} {e : Engine} {c : Candidate} {env : ActEnv}

theorem Placed.kept {after : Engine} {md : TorrentMeta} {location : PathBuf} {place : PlaceEnv}
    (h : Placed s e c env after md location place []) {t : Torrent} (ht : t ∈ e.state.torrents.values)
    (hne : t.infoHash ≠ hexEncode c.infoHash) : t ∈ after.state.torrents.values := by
  rw [h.admitted.torrents]
  exact KeyedList.mem_insert.mpr (Or.inr ⟨ht, hne⟩)

/-- A call on a hash that the registry knows displaces nothing: what is held stays as it is, or the
hash is added to it. -/
theorem actOnCandidate_probe_keeps_held (s : Settings) (e : Engine) (c : Candidate) (n seederFloor : Nat)
    (env : ActEnv) {q : Quarantine} (registered : e.state.quarantineGet (hexEncode c.infoHash) = some q) :
    let after := (actOnCandidate s e c n seederFloor env).1
    (∀ t ∈ e.state.torrents.values, t.infoHash ≠ hexEncode c.infoHash →
      t ∈ after.state.torrents.values) ∧
    (after.state.torrents = e.state.torrents ∨
      ∀ hex, after.state.torrents.Has hex ↔ hex = hexEncode c.infoHash ∨ e.state.torrents.Has hex) := by
  intro after
  rcases actOnCandidate_placed s e c n seederFloor env with
    ⟨ht, -⟩ | ⟨md, location, place, displaced, hplaced⟩
  · exact ⟨fun t hm _ => by rw [ht]; exact hm, Or.inl ht⟩
  · have hnone : displaced = [] := by
      by_contra hne
      have := hplaced.unprobed hne
      rw [registered] at this
      cases this
    subst hnone
    refine ⟨fun t => hplaced.kept, Or.inr fun hex => ?_⟩
    rw [hplaced.admitted.torrents]
    exact KeyedList.has_insert

/-- What one re-probe does: at most a metadata read, or a call on the hash and then the re-arm. -/
theorem reprobeOne_cases (s : Settings) (listed : List String) (seederFloor : Nat) (now : Time)
    (env : String → ProbeEnv) (acc : Engine × Nat) (hex : String) (q : Quarantine) :
    let r := reprobeOne s listed seederFloor now env acc (hex, q)
    (∃ torrentCache, r = ({ acc.1 with torrentCache }, acc.2)) ∨
      ∃ torrentCache c, c.infoHash = (decodeHash hex).getD zeroHash ∧ acc.1.state.get hex = none ∧
        hex ∈ listed ∧
        let a := actOnCandidate s { acc.1 with torrentCache } c acc.2 seederFloor (env hex).act
        let rearmed := { q with cooldownUntil := rearmUntil s.scan now }
        r = ({ a.1 with state := (a.1.state.quarantinePut hex rearmed (env hex).rearmSaved).1 }, a.2) := by
  intro r
  simp only [r, reprobeOne]
  split
  next => exact Or.inl ⟨acc.1.torrentCache, rfl⟩
  next hskip =>
    simp only [Bool.or_eq_true, decide_eq_true_eq, not_or, not_not, Option.not_isSome_iff_eq_none] at hskip
    split
    next => exact Or.inl ⟨_, rfl⟩
    next md swarm _ => exact Or.inr ⟨_, _, rfl, hskip.1, hskip.2, rfl⟩

theorem hexEncode_decodeHash {hex : String} (h : ∃ hash, hex = hexEncode hash) :
    hexEncode ((decodeHash hex).getD zeroHash) = hex := by
  obtain ⟨hash, rfl⟩ := h
  rw [decodeHash_hexEncode, Option.getD_some]

/-- One re-probe of a hash that the registry knows leaves every held entry as it is. -/
theorem reprobeOne_keeps_held (s : Settings) (seederFloor : Nat) (now : Time) (env : String → ProbeEnv)
    (q : Quarantine) {listed : List String} {acc : Engine × Nat} {hex : String}
    (spelled : SpelledList listed) (registered : (acc.1.state.quarantineGet hex).isSome) :
    let r := reprobeOne s listed seederFloor now env acc (hex, q)
    (∀ t ∈ acc.1.state.torrents.values, t ∈ r.1.state.torrents.values) ∧
      ∀ key, (acc.1.state.quarantineGet key).isSome → (r.1.state.quarantineGet key).isSome := by
  intro r
  rcases reprobeOne_cases s listed seederFloor now env acc hex q with
    ⟨_, hr⟩ | ⟨torrentCache, c, hc, hget, hlisted, hr⟩
  · simp only [r, hr]
    exact ⟨fun _ h => h, fun _ h => h⟩
  · have hhex : hexEncode c.infoHash = hex := by rw [hc, hexEncode_decodeHash (spelled hex hlisted)]
    obtain ⟨q', hq⟩ := Option.isSome_iff_exists.mp registered
    have hkeeps := (actOnCandidate_probe_keeps_held s { acc.1 with torrentCache } c acc.2 seederFloor
      (env hex).act (hhex.symm ▸ hq)).1
    have hreg := actOnCandidate_quarantined s { acc.1 with torrentCache } c acc.2 seederFloor
      (env hex).act
    simp only [r, hr, State.quarantinePut_torrents, State.quarantinePut_get]
    refine ⟨fun t ht => hkeeps t ht fun he => ?_, fun key hk => ?_⟩
    · exact KeyedList.find_eq_none.mp hget ((he.trans hhex) ▸ KeyedList.has_of_mem ht)
    · split
      next => rfl
      next => rwa [State.quarantineGet, hreg]

theorem lapsed_registered {st : State} {now : Time} {p : String × Quarantine} (h : p ∈ lapsed st now) :
    st.quarantineGet p.1 = some p.2 ∧ p.2.cooldownUntil ≤ now := by
  rw [lapsed, List.mem_insertionSort] at h
  obtain ⟨hex, -, hp⟩ := List.mem_filterMap.mp h
  obtain ⟨q, hq, hp⟩ := Option.bind_eq_some_iff.mp hp
  split at hp
  next hc =>
    obtain rfl := Option.some.inj hp
    exact ⟨hq, hc.1⟩
  next => cases hp

/-- The re-probing of a watchdog pass removes nothing that is held. -/
theorem quarantineReprobe_keeps_held {e : Engine} {env : ReprobeEnv}
    (spelled : ∀ listed, e.lastCatalog.or env.catalog = some listed → SpelledList listed) {t : Torrent}
    (ht : t ∈ e.state.torrents.values) : t ∈ (quarantineReprobe s e env).state.torrents.values := by
  simp only [quarantineReprobe]
  split
  next => exact ht
  next =>
    split
    next => exact ht
    next listed hlisted =>
      have probes : ∀ (entries : List (String × Quarantine)) (acc : Engine × Nat),
          (∀ p ∈ entries, (acc.1.state.quarantineGet p.1).isSome) → t ∈ acc.1.state.torrents.values →
          t ∈ (entries.foldl (reprobeOne s listed env.seederFloor env.now env.probe)
            acc).1.state.torrents.values := by
        intro entries
        induction entries with
        | nil => exact fun _ _ h => h
        | cons p entries ih =>
          intro acc hreg hheld
          obtain ⟨hp, hrest⟩ := List.forall_mem_cons.mp hreg
          obtain ⟨hkeeps, hentries⟩ := reprobeOne_keeps_held s env.seederFloor env.now
            env.probe p.2 (spelled listed hlisted) hp
          exact ih _ (fun p' hp' => hentries p'.1 (hrest p' hp')) (hkeeps t hheld)
      refine probes _ _ (fun p hp => ?_) ht
      exact Option.isSome_iff_exists.mpr ⟨p.2, (lapsed_registered hp).1⟩

namespace Reference

/-- A registry entry whose cooldown ends at `cooldownUntil`. -/
def quarantine (cooldownUntil : Time) (attempts : Nat) : Quarantine :=
  { title := "t", reason := "", quarantinedAt := 0, cooldownUntil, attempts, wastedBytes := 0 }

def quarantined (e : Engine) (hex : String) (q : Quarantine) : Engine :=
  { e with state := (e.state.quarantinePut hex q true).1 }

end Reference

open Reference in
theorem actOnCandidate_probe_keeps_held_one :
    let b := held (hexEncode hashB) location
    let e := quarantined (engine [b] (by decide)) (hexEncode hashA) (quarantine 0 1)
    let r := actOnCandidate settings e (candidate hashA 1) 1 0 (Reference.env true)
    r.1.state.torrents.Has (hexEncode hashA) ∧ b ∈ r.1.state.torrents.values := by
  intro b e r
  obtain ⟨hkeeps, -⟩ := actOnCandidate_probe_keeps_held settings e (candidate hashA 1) 1 0 (Reference.env true)
    (q := quarantine 0 1) (by decide +kernel)
  have hb : b ∈ e.state.torrents.values := List.mem_singleton_self b
  have hne : b.infoHash ≠ hexEncode (candidate hashA 1).infoHash := by decide +kernel
  exact ⟨by decide +kernel, by simpa only [r] using hkeeps b hb hne⟩

end KeepAt
