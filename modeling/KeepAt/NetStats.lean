import KeepAt.NearestRank
import KeepAt.Scan

namespace KeepAt

/-- The contents of `network-stats.json`. -/
structure Snapshot where
  scanStartedAt : Option Time := none
  scanCompletedAt : Option Time := none
  totalCandidates : Nat := 0
  processedCandidates : Nat := 0
  seederFloor : Nat := 0
  deriving DecidableEq

/-- A missing file reads as the default. -/
def loadSnapshot (file : Option Snapshot) : Snapshot := file.getD {}

/-- The write is atomic: one that fails leaves the file alone. -/
def saveSnapshot (file : Option Snapshot) (s : Snapshot) (saved : Bool) : Option Snapshot :=
  if saved then some s else file

def storedFloor (file : Option Snapshot) : Nat := (loadSnapshot file).seederFloor

theorem storedFloor_saveSnapshot {file : Option Snapshot} {s : Snapshot} (h : s.seederFloor = storedFloor file)
    (saved : Bool) : storedFloor (saveSnapshot file s saved) = storedFloor file := by
  cases saved with
  | true => exact h
  | false => rfl

def divCeil (n d : Nat) : Nat := (n + d - 1) / d

/-- The tenth percentile of the positive counts, by nearest rank; 0 when nothing is seeded. -/
def seederFloor (seedCounts : List Nat) : Nat :=
  let seeded := seedCounts.filter (· > 0)
  if seeded.isEmpty then 0
  else (seeded.insertionSort (· ≤ ·)).getD (divCeil seeded.length 10 - 1) 0

/-- The nearest-rank tenth percentile of the positive counts. -/
structure IsP10 (seedCounts : List Nat) (floor : Nat) : Prop where
  unseeded : seedCounts.filter (· > 0) = [] → floor = 0
  seeded : seedCounts.filter (· > 0) ≠ [] →
    IsRank (nearestRank 10 (seedCounts.filter (· > 0)).length) (seedCounts.filter (· > 0)) floor

theorem divCeil_ten (n : Nat) : divCeil n 10 = nearestRank 10 n := by
  have hcast : (10 * n / 100 : ℚ) = n / 10 := by ring
  unfold divCeil nearestRank
  rw [hcast]
  refine le_antisymm ?_ ?_
  · have hle : (n : ℚ) ≤ 10 * (⌈(n / 10 : ℚ)⌉₊ : ℚ) := by
      have hceil := Nat.le_ceil (n / 10 : ℚ)
      linarith
    have hnat : n ≤ 10 * ⌈(n / 10 : ℚ)⌉₊ := by exact_mod_cast hle
    omega
  · refine Nat.ceil_le.mpr ?_
    have hnat : n ≤ 10 * ((n + 10 - 1) / 10) := by omega
    have hle : (n : ℚ) ≤ 10 * (((n + 10 - 1) / 10 : Nat) : ℚ) := by exact_mod_cast hnat
    linarith

theorem isP10_seederFloor (seedCounts : List Nat) : IsP10 seedCounts (seederFloor seedCounts) := by
  unfold seederFloor
  dsimp only
  split
  next hempty =>
    have hnil := List.isEmpty_iff.mp hempty
    exact ⟨fun _ => rfl, fun hne => absurd hnil hne⟩
  next hsome =>
    have hne : seedCounts.filter (· > 0) ≠ [] := fun hnil => hsome (List.isEmpty_iff.mpr hnil)
    refine ⟨fun hnil => absurd hnil hne, fun _ => ?_⟩
    have hlen := List.length_pos_iff.mpr hne
    have hpos := nearestRank_pos (show (0 : ℚ) < 10 by norm_num) hlen
    have hle : nearestRank 10 (seedCounts.filter (· > 0)).length ≤ (seedCounts.filter (· > 0)).length :=
      nearestRank_le (show (10 : ℚ) ≤ 100 by norm_num)
    have hbound : nearestRank 10 (seedCounts.filter (· > 0)).length - 1 <
        ((seedCounts.filter (· > 0)).insertionSort (· ≤ ·)).length := by
      rw [List.length_insertionSort]
      omega
    rw [divCeil_ten, List.getD_eq_getElem?_getD, List.getElem?_eq_getElem hbound, Option.getD_some]
    exact isRank_insertionSort hpos hbound

theorem IsP10.perm {xs ys : List Nat} {floor : Nat} (h : IsP10 xs floor) (hp : xs.Perm ys) : IsP10 ys floor := by
  have hfilter := hp.filter (· > 0)
  refine ⟨fun hnil => h.unseeded ?_, fun hne => ?_⟩
  · rw [hnil] at hfilter
    exact hfilter.eq_nil
  · have hrank := h.seeded fun hnil => hne (hnil ▸ hfilter).nil_eq.symm
    rw [hfilter.length_eq] at hrank
    exact hrank.perm hfilter

theorem IsP10.unique {xs : List Nat} {a b : Nat} (ha : IsP10 xs a) (hb : IsP10 xs b) : a = b := by
  by_cases hnil : xs.filter (· > 0) = []
  · rw [ha.unseeded hnil, hb.unseeded hnil]
  · exact (ha.seeded hnil).unique (hb.seeded hnil)

/-- The floor does not depend on the order of the counts. -/
theorem seederFloor_perm {xs ys : List Nat} (h : xs.Perm ys) : seederFloor xs = seederFloor ys :=
  ((isP10_seederFloor xs).perm h).unique (isP10_seederFloor ys)

example : seederFloor [0, 30, 2, 0, 7] = 2 := by decide

end KeepAt
