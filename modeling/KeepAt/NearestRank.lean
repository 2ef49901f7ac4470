import Mathlib.Data.List.Sort
import Mathlib.Data.Rat.Floor

namespace KeepAt

variable {α : Type*} [LinearOrder α]

/-- `v` is the `k`-th smallest value of the list, each counted as often as it occurs. -/
structure IsRank (k : Nat) (xs : List α) (v : α) : Prop where
  mem : v ∈ xs
  below : xs.countP (· < v) < k
  upTo : k ≤ xs.countP (· ≤ v)

/-- The rank of a percentile among `n` values, rounded up. -/
def nearestRank (percent : ℚ) (n : Nat) : Nat := ⌈percent * n / 100⌉₊

theorem IsRank.perm {k : Nat} {xs ys : List α} {v : α} (h : IsRank k xs v) (hp : xs.Perm ys) :
    IsRank k ys v where
  mem := hp.mem_iff.mp h.mem
  below := hp.countP_eq (· < v) ▸ h.below
  upTo := hp.countP_eq (· ≤ v) ▸ h.upTo

theorem IsRank.not_lt {k : Nat} {xs : List α} {v w : α} (hv : IsRank k xs v) (hw : IsRank k xs w) :
    ¬v < w := by
  intro hlt
  have hcount : xs.countP (· ≤ v) ≤ xs.countP (· < w) :=
    List.countP_mono_left fun x _ hx => decide_eq_true ((of_decide_eq_true hx).trans_lt hlt)
  have hbelow := hw.below
  have hupTo := hv.upTo
  omega

theorem IsRank.unique {k : Nat} {xs : List α} {v w : α} (hv : IsRank k xs v) (hw : IsRank k xs w) : v = w :=
  le_antisymm (le_of_not_gt (hw.not_lt hv)) (le_of_not_gt (hv.not_lt hw))

section Sorted

variable {xs : List α} {i : Nat}

theorem le_getElem_of_mem_take (sorted : xs.Pairwise (· ≤ ·)) (hi : i < xs.length) {x : α}
    (hx : x ∈ xs.take (i + 1)) : x ≤ xs[i] := by
  obtain ⟨j, hj, rfl⟩ := List.mem_iff_getElem.mp hx
  rw [List.length_take] at hj
  rw [List.getElem_take]
  rcases Nat.lt_or_ge j i with hlt | hge
  · exact List.pairwise_iff_getElem.mp sorted j i (by omega) hi hlt
  · have heq : j = i := by omega
    subst heq
    exact le_rfl

theorem getElem_le_of_mem_drop (sorted : xs.Pairwise (· ≤ ·)) (hi : i < xs.length) {x : α}
    (hx : x ∈ xs.drop i) : xs[i] ≤ x := by
  obtain ⟨j, hj, rfl⟩ := List.mem_iff_getElem.mp hx
  rw [List.length_drop] at hj
  rw [List.getElem_drop]
  rcases Nat.eq_zero_or_pos j with rfl | hpos
  · exact le_rfl
  · exact List.pairwise_iff_getElem.mp sorted i (i + j) hi (by omega) (by omega)

theorem countP_lt_getElem (sorted : xs.Pairwise (· ≤ ·)) (hi : i < xs.length) :
    xs.countP (· < xs[i]) ≤ i := by
  have hnone : (xs.drop i).countP (· < xs[i]) = 0 := List.countP_eq_zero.mpr fun x hx hlt =>
    absurd (of_decide_eq_true hlt) (not_lt_of_ge (getElem_le_of_mem_drop sorted hi hx))
  have htake : (xs.take i).countP (· < xs[i]) ≤ (xs.take i).length := List.countP_le_length
  have hcount : xs.countP (· < xs[i]) =
      (xs.take i).countP (· < xs[i]) + (xs.drop i).countP (· < xs[i]) := by
    rw [← List.countP_append, List.take_append_drop]
  rw [List.length_take] at htake
  omega

theorem lt_countP_le_getElem (sorted : xs.Pairwise (· ≤ ·)) (hi : i < xs.length) :
    i < xs.countP (· ≤ xs[i]) := by
  have hall : (xs.take (i + 1)).countP (· ≤ xs[i]) = (xs.take (i + 1)).length :=
    List.countP_eq_length.mpr fun x hx => decide_eq_true (le_getElem_of_mem_take sorted hi hx)
  have hle := (List.take_sublist (i + 1) xs).countP_le (p := (· ≤ xs[i]))
  rw [hall, List.length_take] at hle
  omega

theorem isRank_getElem (sorted : xs.Pairwise (· ≤ ·)) (hi : i < xs.length) : IsRank (i + 1) xs xs[i] where
  mem := List.getElem_mem hi
  below := Nat.lt_succ_of_le (countP_lt_getElem sorted hi)
  upTo := lt_countP_le_getElem sorted hi

end Sorted

/-- The values of one rank, read off the sorted list. -/
theorem isRank_insertionSort {xs : List α} {k : Nat} (positive : 0 < k)
    (hk : k - 1 < (xs.insertionSort (· ≤ ·)).length) :
    IsRank k xs (xs.insertionSort (· ≤ ·))[k - 1] := by
  have hrank := isRank_getElem (List.pairwise_insertionSort (· ≤ ·) xs) hk
  rw [Nat.sub_add_cancel positive] at hrank
  exact hrank.perm (List.perm_insertionSort (· ≤ ·) xs)

theorem nearestRank_pos {percent : ℚ} {n : Nat} (hp : 0 < percent) (hn : 0 < n) : 0 < nearestRank percent n := by
  have hcast : (0 : ℚ) < n := Nat.cast_pos.mpr hn
  exact Nat.ceil_pos.mpr (by positivity)

theorem nearestRank_le {percent : ℚ} {n : Nat} (hp : percent ≤ 100) : nearestRank percent n ≤ n := by
  have hcast : (0 : ℚ) ≤ n := Nat.cast_nonneg n
  refine Nat.ceil_le.mpr ?_
  rw [div_le_iff₀ (by norm_num)]
  nlinarith

end KeepAt
