import KeepAt.Selector
import Mathlib.Algebra.Order.Field.Basic
import Mathlib.Tactic.Linarith
import Mathlib.Tactic.Positivity

namespace KeepAt

variable {F : Type}

/-- Over a linear order two scores always compare. -/
theorem partialCmp_eq_compare [LinearOrder F] (a b : F) : partialCmp a b = some (compare a b) := by
  unfold partialCmp
  rcases lt_trichotomy a b with h | h | h
  · rw [if_pos h.le, if_neg (not_le.mpr h), compare_lt_iff_lt.mpr h]
  · rw [if_pos h.le, if_pos h.ge, compare_eq_iff_eq.mpr h]
  · rw [if_neg (not_le.mpr h), if_pos h.le, compare_gt_iff_gt.mpr h]

variable [Field F] [LinearOrder F]

/-- The bytes per RAM byte that break ties between equal sizes. -/
def sizeTie (F : Type) [Field F] (size ram : Nat) : F := ((max size 1 : Nat) : F) / ram / (1 + size)

variable {powf : F → F → F} {sizeBias : F} {peerLimit : Nat} {a b : Candidate}

def ratioOf (F : Type) [Field F] (c : Candidate) (peerLimit : Nat) : F :=
  ((max c.sizeBytes 1 : Nat) : F) / (torrentRam c.pieceCount peerLimit : F)

theorem sizeBiasScore_of_pos (h : 0 < sizeBias) (c : Candidate) :
    sizeBiasScore powf c sizeBias peerLimit = powf (ratioOf F c peerLimit) sizeBias := by
  have hram : max (torrentRam c.pieceCount peerLimit) 1 = torrentRam c.pieceCount peerLimit :=
    max_eq_left (torrentRam_pos _ _)
  simp only [sizeBiasScore, Nat.cast_zero, if_pos h, hram, ratioOf]

theorem sizeBiasScore_of_nonpos (h : sizeBias ≤ 0) (c : Candidate) :
    sizeBiasScore powf c sizeBias peerLimit =
      -(c.sizeBytes : F) + sizeTie F c.sizeBytes (torrentRam c.pieceCount peerLimit) := by
  have hram : max (torrentRam c.pieceCount peerLimit) 1 = torrentRam c.pieceCount peerLimit :=
    max_eq_left (torrentRam_pos _ _)
  simp only [sizeBiasScore, Nat.cast_zero, if_neg (not_lt.mpr h), hram, Nat.cast_one, sizeTie]

theorem rankOrdering_eq (a b : Candidate) :
    rankOrdering powf sizeBias peerLimit a b =
      (compare a.seeders b.seeders).then
        (compare (sizeBiasScore powf b sizeBias peerLimit) (sizeBiasScore powf a sizeBias peerLimit)) := by
  unfold rankOrdering
  rw [partialCmp_eq_compare, Option.getD_some]
  cases compare a.seeders b.seeders <;> rfl

/-- Ranking places a candidate before another one of as many seeders when its size score is higher. -/
theorem rankOrdering_lt_iff :
    rankOrdering powf sizeBias peerLimit a b = .lt ↔ a.seeders < b.seeders ∨ a.seeders = b.seeders ∧
      sizeBiasScore powf b sizeBias peerLimit < sizeBiasScore powf a sizeBias peerLimit := by
  rw [rankOrdering_eq, Ordering.then_eq_lt, compare_lt_iff_lt, compare_eq_iff_eq, compare_lt_iff_lt]

theorem rankOrdering_swap : (rankOrdering powf sizeBias peerLimit a b).swap =
    rankOrdering powf sizeBias peerLimit b a := by
  have hseeders : (compare a.seeders b.seeders).swap = compare b.seeders a.seeders :=
    Std.OrientedOrd.eq_swap.symm
  have hscore : (compare (sizeBiasScore powf b sizeBias peerLimit)
      (sizeBiasScore powf a sizeBias peerLimit)).swap =
        compare (sizeBiasScore powf a sizeBias peerLimit) (sizeBiasScore powf b sizeBias peerLimit) :=
    Std.OrientedOrd.eq_swap.symm
  rw [rankOrdering_eq, rankOrdering_eq, Ordering.swap_then, hseeders, hscore]

theorem rankOrdering_ne_gt_iff : rankOrdering powf sizeBias peerLimit a b ≠ .gt ↔
    ¬rankOrdering powf sizeBias peerLimit b a = .lt := by
  rw [← rankOrdering_swap (a := a)]
  cases rankOrdering powf sizeBias peerLimit a b <;> simp

variable [IsStrictOrderedRing F]

theorem sizeTie_pos (size : Nat) {ram : Nat} (h : 0 < ram) : 0 < sizeTie F size ram := by
  have hsize : 0 < ((max size 1 : Nat) : F) := by exact_mod_cast lt_max_of_lt_right one_pos
  have hram : 0 < (ram : F) := by exact_mod_cast h
  unfold sizeTie
  positivity

/-- The term stays within the difference of two sizes. -/
theorem sizeTie_le_one (size : Nat) {ram : Nat} (h : 0 < ram) : sizeTie F size ram ≤ 1 := by
  have hram : (1 : F) ≤ ram := by exact_mod_cast h
  have hsize : ((max size 1 : Nat) : F) ≤ 1 + size := by
    have hnat : max size 1 ≤ 1 + size := by omega
    exact_mod_cast hnat
  have hpos : (0 : F) ≤ ((max size 1 : Nat) : F) := Nat.cast_nonneg _
  have hquot : ((max size 1 : Nat) : F) / ram ≤ ((max size 1 : Nat) : F) := div_le_self hpos hram
  have hden : (0 : F) < 1 + size := by positivity
  exact (div_le_one hden).mpr (hquot.trans hsize)

theorem sizeTie_lt (size : Nat) {ram ram' : Nat} (hram : 0 < ram) (h : ram < ram') :
    sizeTie F size ram' < sizeTie F size ram := by
  have hsize : 0 < ((max size 1 : Nat) : F) := by exact_mod_cast lt_max_of_lt_right one_pos
  have hpos : 0 < (ram : F) := by exact_mod_cast hram
  have hlt : (ram : F) < ram' := by exact_mod_cast h
  have hden : (0 : F) < 1 + size := by positivity
  exact div_lt_div_of_pos_right (div_lt_div_of_pos_left hsize hpos hlt) hden

theorem sizeScore_lt_of_size {size size' ram ram' : Nat} (hram : 0 < ram) (hram' : 0 < ram')
    (h : size < size') :
    -(size' : F) + sizeTie F size' ram' < -(size : F) + sizeTie F size ram := by
  have hpos := sizeTie_pos (F := F) size hram
  have hle := sizeTie_le_one (F := F) size' hram'
  have hstep : (size : F) + 1 ≤ size' := by exact_mod_cast h
  linarith

/-- Without a positive bias the smaller size scores higher, and of two equal sizes the cheaper one. -/
theorem sizeBiasScore_lt_iff (h : sizeBias ≤ 0) :
    sizeBiasScore powf a sizeBias peerLimit < sizeBiasScore powf b sizeBias peerLimit ↔
      b.sizeBytes < a.sizeBytes ∨ b.sizeBytes = a.sizeBytes ∧
        torrentRam b.pieceCount peerLimit < torrentRam a.pieceCount peerLimit := by
  rw [sizeBiasScore_of_nonpos h, sizeBiasScore_of_nonpos h]
  have hrama := torrentRam_pos a.pieceCount peerLimit
  have hramb := torrentRam_pos b.pieceCount peerLimit
  generalize torrentRam a.pieceCount peerLimit = ramA at *
  generalize torrentRam b.pieceCount peerLimit = ramB at *
  rcases lt_trichotomy b.sizeBytes a.sizeBytes with hlt | heq | hgt
  · have hscore := sizeScore_lt_of_size (F := F) hramb hrama hlt
    exact ⟨fun _ => Or.inl hlt, fun _ => hscore⟩
  · rw [heq]
    constructor
    · intro hscore
      refine Or.inr ⟨rfl, ?_⟩
      by_contra hnot
      rcases lt_or_eq_of_le (not_lt.mp hnot) with hram | hram
      · have htie := sizeTie_lt (F := F) a.sizeBytes hrama hram
        linarith
      · rw [hram] at hscore
        exact lt_irrefl _ hscore
    · rintro (hlt | ⟨-, hram⟩)
      · exact absurd hlt (lt_irrefl _)
      · have htie := sizeTie_lt (F := F) a.sizeBytes hramb hram
        linarith
  · have hscore := sizeScore_lt_of_size (F := F) hrama hramb hgt
    refine ⟨fun h => absurd h hscore.not_gt, fun h => ?_⟩
    omega

end KeepAt
