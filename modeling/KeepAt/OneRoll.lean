import KeepAt.ProbeFrame
import KeepAt.RegistryMoves

namespace KeepAt

variable {s : Settings} {e : Engine} {c : Candidate} {md : TorrentMeta} {roll : F64}

/-- What a call leaves alone that places nothing: everything but the cache of metainfo files. -/
def Unplaced (before after : Engine) : Prop :=
  after = { before with torrentCache := after.torrentCache }

theorem placeDecision_shouldSwap {sizeBytes seederFloor : Nat} {displaced : List Held}
    (h : (placeDecision s c md sizeBytes displaced seederFloor roll).shouldSwap = true) :
    1 ≤ c.seeders ∧ roll < selectionChance s.cfg.config.aggressiveness c.seeders seederFloor := by
  obtain ⟨havailable, -, hroll⟩ := evaluateSwap_shouldSwap.mp h
  exact ⟨of_decide_eq_true havailable, hroll⟩

theorem FillPlaced.roll_passes {n seederFloor : Nat} {env : ActEnv} {r : Engine × Nat} {loc : StorageLocation}
    (h : FillPlaced s e c md n seederFloor roll env r loc) :
    1 ≤ c.seeders ∧ roll < selectionChance s.cfg.config.aggressiveness c.seeders seederFloor :=
  placeDecision_shouldSwap h.succeeds.1

theorem SwapPlaced.roll_passes {n seederFloor : Nat} {probe : Bool} {env : ActEnv} {r : Engine × Nat}
    {location : PathBuf} {ds : List Torrent}
    (h : SwapPlaced s e c md n seederFloor probe roll env r location ds) :
    1 ≤ c.seeders ∧ roll < selectionChance s.cfg.config.aggressiveness c.seeders seederFloor := by
  obtain ⟨_, _, hswap, -⟩ := h.swap
  obtain ⟨_, -, -, hadd⟩ := hswap.admits
  exact placeDecision_shouldSwap hadd.1

/-- A call that is not a re-probe places nothing, or the roll that it drew is below the chance of a seeded
candidate. -/
theorem actOnCandidate_roll (s : Settings) (n seederFloor : Nat) {env : ActEnv}
    (unprobed : e.quarantineGate (hexEncode c.infoHash) env.now ≠ (none, true)) :
    let r := actOnCandidate s e c n seederFloor env
    (Unplaced e r.1 ∧ r.2 = n) ∨
      (1 ≤ c.seeders ∧ env.roll < selectionChance s.cfg.config.aggressiveness c.seeders seederFloor) := by
  intro r
  rcases actOnCandidate_cases s e c n seederFloor env with
    ⟨he, hn⟩ | ⟨probe, md, hreach, hplaced⟩
  · refine Or.inl ⟨?_, hn⟩
    rcases he with he | he
    · simp only [r, he, Unplaced]
    · simp only [r, he, Unplaced, fetched]
  · have hprobe : probe = false := by
      cases probe with
      | false => rfl
      | true => exact absurd hreach.1 unprobed
    have hroll : evaluationRoll probe env.roll = env.roll := by rw [hprobe, evaluationRoll, if_neg (by simp)]
    rw [hroll] at hplaced
    refine Or.inr ?_
    rcases hplaced with ⟨loc, h⟩ | ⟨location, ds, h⟩
    · exact h.roll_passes
    · exact h.roll_passes

theorem Unplaced.adds_nothing {after : Engine} (h : Unplaced e after) : addedHashes e after = [] := by
  have hhistory : after.history = e.history := by rw [h]
  rw [addedHashes, hhistory, List.drop_length]
  rfl

/-- However many locations there are, whatever is held and whatever fails on the way, a candidate that is no
re-probe is added on its one roll alone. Without it, or without a seeder, it is added nowhere and nothing is
displaced for it. -/
theorem one_roll_decides (s : Settings) (e : Engine) (c : Candidate) (heldCount seederFloor : Nat)
    (env : ActEnv) (unprobed : e.quarantineGate (hexEncode c.infoHash) env.now ≠ (none, true)) :
    let r := actOnCandidate s e c heldCount seederFloor env
    let chance := selectionChance s.cfg.config.aggressiveness c.seeders seederFloor
    (hexEncode c.infoHash ∈ addedHashes e r.1 → env.roll < chance ∧ 1 ≤ c.seeders) ∧
      (¬env.roll < chance ∨ c.seeders = 0 →
        addedHashes e r.1 = [] ∧ Unplaced e r.1 ∧ r.2 = heldCount) := by
  intro r chance
  rcases actOnCandidate_roll s heldCount seederFloor unprobed with ⟨hsame, hn⟩ | ⟨hseeded, hroll⟩
  · refine ⟨fun hadded => ?_, fun _ => ⟨hsame.adds_nothing, hsame, hn⟩⟩
    rw [hsame.adds_nothing] at hadded
    exact absurd hadded List.not_mem_nil
  · refine ⟨fun _ => ⟨hroll, hseeded⟩, fun hlost => ?_⟩
    have hzero : c.seeders ≠ 0 := by omega
    exact absurd hlost (not_or.mpr ⟨not_not.mpr hroll, hzero⟩)

open Reference in
theorem one_roll_decides_one :
    let b := held (hexEncode hashB) location
    let e := engine [b] (by decide)
    let c := candidate hashA 3
    let lost := { Reference.env true with roll := .ofRat 1 }
    (Reference.env true).roll < selectionChance settings.cfg.config.aggressiveness c.seeders 0 ∧
      Unplaced e (actOnCandidate settings e c 1 0 lost).1 := by
  intro b e c lost
  have hadded : hexEncode c.infoHash ∈ addedHashes e (actOnCandidate settings e c 1 0 (Reference.env true)).1 := by
    decide +kernel
  have hlost : ¬lost.roll < selectionChance settings.cfg.config.aggressiveness c.seeders 0 := by
    decide +kernel
  exact ⟨((one_roll_decides settings e c 1 0 (Reference.env true) (by decide +kernel)).1 hadded).1,
    ((one_roll_decides settings e c 1 0 lost (by decide +kernel)).2 (Or.inl hlost)).2.1⟩

end KeepAt
