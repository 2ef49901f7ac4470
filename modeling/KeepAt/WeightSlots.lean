import Mathlib.Algebra.Order.Field.Basic
import Mathlib.Data.Nat.Cast.Order.Ring
import Mathlib.Algebra.BigOperators.Group.List.Basic

namespace KeepAt

section WeightSlots

variable {F : Type} [Field F] [LinearOrder F]

def weightBefore (w : List Nat) (i : Nat) : Nat := (w.take i).sum

/-- The weights laid end to end put `t` in the stretch of index `i`. -/
def InSlot (w : List Nat) (t : F) (i : Nat) : Prop :=
  (weightBefore w i : F) ≤ t ∧ t < (weightBefore w (i + 1) : F)

@[simp] theorem weightBefore_zero (w : List Nat) : weightBefore w 0 = 0 := by simp [weightBefore]

@[simp] theorem weightBefore_cons (a : Nat) (w : List Nat) (i : Nat) :
    weightBefore (a :: w) (i + 1) = a + weightBefore w i := by
  simp [weightBefore]

theorem inSlot_cons_zero {a : Nat} {w : List Nat} {t : F} (h0 : 0 ≤ t) : InSlot (a :: w) t 0 ↔ t < a := by
  simp [InSlot, h0]

theorem weightBefore_succ {w : List Nat} {i a : Nat} (h : w[i]? = some a) :
    weightBefore w (i + 1) = weightBefore w i + a := by
  induction w generalizing i with
  | nil => simp at h
  | cons b w ih =>
    cases i with
    | zero => simpa using h
    | succ i =>
      have hi := ih (by simpa using h)
      simp only [weightBefore_cons, hi]
      omega

theorem weightBefore_mono (w : List Nat) : Monotone (weightBefore w) := by
  refine monotone_nat_of_le_succ (fun i => ?_)
  rcases hi : w[i]? with _ | a
  next =>
    have hlen := List.getElem?_eq_none_iff.mp hi
    simp only [weightBefore, List.take_of_length_le hlen, List.take_of_length_le (Nat.le_succ_of_le hlen)]
    exact le_refl _
  next => exact (weightBefore_succ hi).symm ▸ Nat.le_add_right _ _

theorem weightBefore_le_sum (w : List Nat) (i : Nat) : weightBefore w i ≤ w.sum := by
  have h := weightBefore_mono w (Nat.le_add_right i w.length)
  simpa [weightBefore, List.take_of_length_le (Nat.le_add_left w.length i)] using h

variable [IsStrictOrderedRing F]

theorem inSlot_unique {w : List Nat} {t : F} {i j : Nat} (hi : InSlot w t i) (hj : InSlot w t j) : i = j := by
  have hlt : ∀ {i j : Nat}, InSlot w t i → InSlot w t j → ¬ i < j := by
    intro i j hi hj hij
    have hle : (weightBefore w (i + 1) : F) ≤ weightBefore w j := Nat.cast_le.mpr (weightBefore_mono w hij)
    exact absurd (hi.2.trans_le (hle.trans hj.1)) (lt_irrefl t)
  exact le_antisymm (not_lt.mp (hlt hj hi)) (not_lt.mp (hlt hi hj))

theorem inSlot_cons_succ {a : Nat} {w : List Nat} {t : F} {i : Nat} :
    InSlot (a :: w) t (i + 1) ↔ InSlot w (t - a) i := by
  simp only [InSlot, weightBefore_cons, Nat.cast_add, sub_lt_iff_lt_add', le_sub_iff_add_le']

/-- A slot holds something only where the weight is positive. -/
theorem InSlot.weight_pos {w : List Nat} {t : F} {i : Nat} (h : InSlot w t i) : ∃ a, w[i]? = some a ∧ 0 < a := by
  have hlt : weightBefore w i < weightBefore w (i + 1) := Nat.cast_lt.mp (h.1.trans_lt h.2)
  rcases hi : w[i]? with _ | a
  next =>
    have hlen := List.getElem?_eq_none_iff.mp hi
    simp [weightBefore, List.take_of_length_le hlen, List.take_of_length_le (Nat.le_succ_of_le hlen)] at hlt
  next =>
    rw [weightBefore_succ hi] at hlt
    exact ⟨a, rfl, by omega⟩

theorem exists_inSlot {w : List Nat} {t : F} (h0 : 0 ≤ t) (ht : t < (w.sum : F)) : ∃ i, InSlot w t i := by
  induction w generalizing t with
  | nil => exact absurd (h0.trans_lt ht) (by simp)
  | cons a w ih =>
    by_cases ha : t < (a : F)
    next => exact ⟨0, (inSlot_cons_zero h0).mpr ha⟩
    next =>
      have hrest : t - (a : F) < (w.sum : F) := by
        rw [sub_lt_iff_lt_add', ← Nat.cast_add, ← List.sum_cons]
        exact ht
      obtain ⟨i, hi⟩ := ih (sub_nonneg.mpr (not_lt.mp ha)) hrest
      exact ⟨i + 1, inSlot_cons_succ.mpr hi⟩

/-- The multiples of the total that land in a slot are an interval as long as the slot's share. -/
theorem inSlot_mul_sum {w : List Nat} (hw : 0 < w.sum) (i : Nat) :
    {r : F | 0 ≤ r ∧ r < 1 ∧ InSlot w (r * w.sum) i} =
      Set.Ico ((weightBefore w i : F) / w.sum) ((weightBefore w (i + 1) : F) / w.sum) := by
  have hs : (0 : F) < w.sum := Nat.cast_pos.mpr hw
  ext r
  simp only [InSlot, Set.mem_ofPred_eq, Set.mem_Ico, div_le_iff₀ hs, lt_div_iff₀ hs]
  constructor
  · exact fun h => h.2.2
  · intro h
    refine ⟨?_, ?_, h⟩
    next => exact nonneg_of_mul_nonneg_left ((Nat.cast_nonneg _).trans h.1) hs
    next =>
      have hle : (weightBefore w (i + 1) : F) ≤ w.sum := Nat.cast_le.mpr (weightBefore_le_sum w _)
      exact lt_of_mul_lt_mul_right ((h.2.trans_le hle).trans_eq (one_mul _).symm) hs.le

end WeightSlots

end KeepAt
