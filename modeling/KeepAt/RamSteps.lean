import KeepAt.RamBudget

namespace KeepAt

/-- Torrents of the typical price that a budget buys. -/
def torrentCap (budget : Nat) : Nat := budget / max (typicalTorrentRam budget) 1

/-- The budgets from which the peer limit, and with it the price of a torrent, is higher. -/
def peerLimitSteps : List Nat := [256 * 1024 * 1024, 1024 * 1024 * 1024, 4 * 1024 * 1024 * 1024]

/-- The budget past a step that buys as many torrents as the last one before it. -/
def stepRegained (step : Nat) : Nat := torrentCap (step - 1) * typicalTorrentRam step

def InStepWindow (budget : Nat) : Prop := ∃ step ∈ peerLimitSteps, step ≤ budget ∧ budget < stepRegained step

theorem maxTorrentsForBudget_cap {systemTotal configuredMaxRam : Nat}
    (h : systemTotal ≠ 0 ∨ configuredMaxRam ≠ 0) :
    (maxTorrentsForBudget systemTotal configuredMaxRam).2.2 =
      torrentCap (maxTorrentsForBudget systemTotal configuredMaxRam).1 := by
  unfold maxTorrentsForBudget
  split
  next hz => rw [if_neg (by omega)]; rfl
  next => rfl

theorem typicalTorrentRam_eq (budget : Nat) :
    typicalTorrentRam budget = (320 + 48 * peerLimitForBudget budget) * 1024 := by
  have h : peerLimitForBudget budget ≤ 20 := by
    unfold peerLimitForBudget
    split_ifs <;> decide
  generalize hp : peerLimitForBudget budget = p at h
  unfold typicalTorrentRam torrentRam saturatingAdd saturatingMul perTorrentRamBase perPieceRam perPeerRam
    u64Max
  rw [hp]
  omega

theorem peerLimitForBudget_cases (b : Nat) :
    (b < 268435456 ∧ peerLimitForBudget b = 4) ∨
    (268435456 ≤ b ∧ b < 1073741824 ∧ peerLimitForBudget b = 8) ∨
    (1073741824 ≤ b ∧ b < 4294967296 ∧ peerLimitForBudget b = 12) ∨
    (4294967296 ≤ b ∧ peerLimitForBudget b = 20) := by
  unfold peerLimitForBudget
  split_ifs <;> omega

theorem torrentCap_eq (b : Nat) : torrentCap b = b / ((320 + 48 * peerLimitForBudget b) * 1024) := by
  unfold torrentCap
  rw [typicalTorrentRam_eq, max_eq_left (by omega)]

theorem torrentCap_mono_of_peerLimit {b b' : Nat} (hle : b ≤ b')
    (hp : peerLimitForBudget b = peerLimitForBudget b') : torrentCap b ≤ torrentCap b' := by
  rw [torrentCap_eq, torrentCap_eq, hp]
  exact Nat.div_le_div_right hle

theorem inStepWindow_iff (b : Nat) :
    InStepWindow b ↔ (268435456 ≤ b ∧ b < 511 * 720896) ∨ (1073741824 ≤ b ∧ b < 1489 * 917504) ∨
      (4294967296 ≤ b ∧ b < 4681 * 1310720) := by
  have h1 : stepRegained (256 * 1024 * 1024) = 511 * 720896 := by decide
  have h2 : stepRegained (1024 * 1024 * 1024) = 1489 * 917504 := by decide
  have h3 : stepRegained (4 * 1024 * 1024 * 1024) = 4681 * 1310720 := by decide
  simp only [InStepWindow, peerLimitSteps, List.mem_cons, List.not_mem_nil, or_false, exists_eq_or_imp,
    exists_eq_left, h1, h2, h3]

/-- Outside the windows a budget buys at least what every smaller one does. -/
theorem torrentCap_mono_off_windows {b b' : Nat} (hle : b ≤ b') (hw : ¬ InStepWindow b') :
    torrentCap b ≤ torrentCap b' := by
  rw [inStepWindow_iff] at hw
  rw [torrentCap_eq, torrentCap_eq]
  rcases peerLimitForBudget_cases b with ⟨h, hp⟩ | ⟨h, hu, hp⟩ | ⟨h, hu, hp⟩ | ⟨h, hp⟩ <;>
    rcases peerLimitForBudget_cases b' with ⟨h', hp'⟩ | ⟨h', hu', hp'⟩ | ⟨h', hu', hp'⟩ | ⟨h', hp'⟩ <;>
    rw [hp, hp'] <;> omega

/-- In a window the last budget before its step buys more. -/
theorem torrentCap_lt_in_window {b : Nat} (hw : InStepWindow b) :
    ∃ step ∈ peerLimitSteps, step ≤ b ∧ torrentCap b < torrentCap (step - 1) := by
  obtain ⟨step, hmem, hle, hlt⟩ := hw
  have hstep : 0 < step ∧ typicalTorrentRam step ≤ typicalTorrentRam b := by
    have hmono : peerLimitForBudget step ≤ peerLimitForBudget b := by
      unfold peerLimitForBudget
      split_ifs <;> omega
    have hpos : ∀ t ∈ peerLimitSteps, 0 < t := by decide
    rw [typicalTorrentRam_eq, typicalTorrentRam_eq]
    exact ⟨hpos step hmem, by omega⟩
  refine ⟨step, hmem, hle, ?_⟩
  have hprice : 0 < typicalTorrentRam b := torrentRam_pos _ _
  rw [torrentCap, max_eq_left hprice, Nat.div_lt_iff_lt_mul hprice]
  exact hlt.trans_le (Nat.mul_le_mul_left _ hstep.2)

theorem maxTorrentsForBudget_lowered {systemTotal lowered configuredMaxRam : Nat} (hpos : 0 < lowered)
    (hle : lowered ≤ (maxTorrentsForBudget systemTotal configuredMaxRam).1) :
    (maxTorrentsForBudget systemTotal lowered).1 = lowered := by
  by_cases hz : systemTotal = 0
  next => simp only [maxTorrentsForBudget, if_pos hz]
  next =>
    have hcap := hle.trans (maxTorrentsForBudget_le_hardCap hz)
    simp only [maxTorrentsForBudget, if_neg hz] at hcap ⊢
    rw [if_pos hpos, min_eq_left hcap]

/-- A larger budget holds no fewer torrents, unless it lies just past a step of the peer limit that the
smaller one is below. There a lower maximum on the same host holds more. -/
theorem maxTorrentsForBudget_mono {systemTotal configuredMaxRam systemTotal' configuredMaxRam' : Nat}
    (hpriced : systemTotal ≠ 0 ∨ configuredMaxRam ≠ 0)
    (hle : (maxTorrentsForBudget systemTotal configuredMaxRam).1 ≤
      (maxTorrentsForBudget systemTotal' configuredMaxRam').1) :
    (peerLimitForBudget (maxTorrentsForBudget systemTotal configuredMaxRam).1 =
          peerLimitForBudget (maxTorrentsForBudget systemTotal' configuredMaxRam').1 ∨
        ¬ InStepWindow (maxTorrentsForBudget systemTotal' configuredMaxRam').1 →
      (maxTorrentsForBudget systemTotal configuredMaxRam).2.2 ≤
        (maxTorrentsForBudget systemTotal' configuredMaxRam').2.2) ∧
    (InStepWindow (maxTorrentsForBudget systemTotal' configuredMaxRam').1 →
      ∃ lowered, lowered < (maxTorrentsForBudget systemTotal' configuredMaxRam').1 ∧
        (maxTorrentsForBudget systemTotal' lowered).1 = lowered ∧
        (maxTorrentsForBudget systemTotal' configuredMaxRam').2.2 <
          (maxTorrentsForBudget systemTotal' lowered).2.2) := by
  have hcap := maxTorrentsForBudget_cap hpriced
  refine ⟨fun h => ?_, fun hw => ?_⟩
  next =>
    by_cases hpriced' : systemTotal' ≠ 0 ∨ configuredMaxRam' ≠ 0
    next =>
      rw [hcap, maxTorrentsForBudget_cap hpriced']
      rcases h with hp | hw
      · exact torrentCap_mono_of_peerLimit hle hp
      · exact torrentCap_mono_off_windows hle hw
    next =>
      obtain ⟨rfl, rfl⟩ : systemTotal' = 0 ∧ configuredMaxRam' = 0 := by omega
      have hzero : (maxTorrentsForBudget systemTotal configuredMaxRam).1 = 0 := Nat.le_zero.mp hle
      rw [hcap, hzero]
      exact Nat.zero_le _
  next =>
    obtain ⟨step, hmem, hstep, hlt⟩ := torrentCap_lt_in_window hw
    have hlarge : ∀ t ∈ peerLimitSteps, 1 < t := by decide
    have hone := hlarge step hmem
    have hbelow : step - 1 ≤ (maxTorrentsForBudget systemTotal' configuredMaxRam').1 := by omega
    have hlow := maxTorrentsForBudget_lowered (by omega) hbelow
    have hpriced' : systemTotal' ≠ 0 ∨ configuredMaxRam' ≠ 0 := by
      by_contra hnone
      obtain ⟨rfl, rfl⟩ : systemTotal' = 0 ∧ configuredMaxRam' = 0 := by omega
      have hzero : step ≤ 0 := hstep
      omega
    have hpricedLow : systemTotal' ≠ 0 ∨ step - 1 ≠ 0 := Or.inr (by omega)
    refine ⟨step - 1, by omega, hlow, ?_⟩
    rw [maxTorrentsForBudget_cap hpriced', maxTorrentsForBudget_cap hpricedLow, hlow]
    exact hlt

/-- On a host of 8 GiB, a maximum of 256 MiB holds fewer torrents than one byte less. -/
theorem maxTorrentsForBudget_not_mono :
    ¬ ∀ systemTotal configuredMaxRam systemTotal' configuredMaxRam' : Nat,
      (maxTorrentsForBudget systemTotal configuredMaxRam).1 ≤
        (maxTorrentsForBudget systemTotal' configuredMaxRam').1 →
      (maxTorrentsForBudget systemTotal configuredMaxRam).2.2 ≤
        (maxTorrentsForBudget systemTotal' configuredMaxRam').2.2 := by
  intro h
  have hbelow : maxTorrentsForBudget (8 * 1024 * 1024 * 1024) (256 * 1024 * 1024 - 1) =
      (268435455, 6871947673, 511) := by decide +kernel
  have hat : maxTorrentsForBudget (8 * 1024 * 1024 * 1024) (256 * 1024 * 1024) =
      (268435456, 6871947673, 372) := by decide +kernel
  have hfew := h (8 * 1024 * 1024 * 1024) (256 * 1024 * 1024 - 1) (8 * 1024 * 1024 * 1024) (256 * 1024 * 1024)
  rw [hbelow, hat] at hfew
  exact absurd (hfew (by decide)) (by decide)

theorem maxTorrentsForBudget_mono_band :
    (maxTorrentsForBudget 0 (300 * 1024 * 1024)).2.2 ≤ (maxTorrentsForBudget 0 (310 * 1024 * 1024)).2.2 :=
  (maxTorrentsForBudget_mono (Or.inr (by decide)) (by decide)).1 (Or.inl (by decide))

end KeepAt
