import KeepAt.Selector
import KeepAt.WeightSlots
import Mathlib.Algebra.Order.Field.Rat

namespace KeepAt

/-- The location at `i` has at least the free space it needs. -/
def FitsAt (free need : List Nat) (i : Nat) : Prop := ∃ f n, free[i]? = some f ∧ need[i]? = some n ∧ n ≤ f

def fitWeight (p : Nat × Nat) : Nat := if p.2 ≤ p.1 then p.1 else 0

/-- The free space of each location that fits, nothing for the others. -/
def eligibleWeights (free need : List Nat) : List Nat := (free.zip need).map fitWeight

def eligibleBefore (free need : List Nat) (i : Nat) : Nat := weightBefore (eligibleWeights free need) i

def eligibleTotal (free need : List Nat) : Nat := (eligibleWeights free need).sum

/-- The eligible locations of a list whose first index is `k`. -/
def eligibleFrom (k : Nat) (ps : List (Nat × Nat)) : List (Nat × Nat) :=
  ((ps.zipIdx k).filter (fun p => p.1.1 ≥ p.1.2)).map (fun p => (p.2, p.1.1))

theorem eligibleLocations_eq (free need : List Nat) :
    eligibleLocations free need = eligibleFrom 0 (free.zip need) := rfl

theorem eligibleFrom_cons (k f n : Nat) (ps : List (Nat × Nat)) :
    eligibleFrom k ((f, n) :: ps) =
      if n ≤ f then (k, f) :: eligibleFrom (k + 1) ps else eligibleFrom (k + 1) ps := by
  by_cases h : n ≤ f
  next => simp [eligibleFrom, List.zipIdx_cons, h]
  next => simp [eligibleFrom, List.zipIdx_cons, h]

theorem eligibleFrom_sum (k : Nat) (ps : List (Nat × Nat)) :
    ((eligibleFrom k ps).map Prod.snd).sum = (ps.map fitWeight).sum := by
  induction ps generalizing k with
  | nil => rfl
  | cons p ps ih =>
    obtain ⟨f, n⟩ := p
    by_cases h : n ≤ f
    next => simp [eligibleFrom_cons, fitWeight, h, ih]
    next => simp [eligibleFrom_cons, fitWeight, h, ih]

section Exact

variable {F : Type} [Field F]

theorem foldl_free_eq (l : List (Nat × Nat)) (acc : F) :
    l.foldl (fun acc p => acc + (p.2 : F)) acc = acc + ((l.map Prod.snd).sum : Nat) := by
  induction l generalizing acc with
  | nil => simp
  | cons p l ih => simp [ih, add_assoc]

variable [LinearOrder F]

/-- `t` lies in the stretch of `i`, an eligible location: past the free space of the eligible ones before it. -/
def InOwnStretch (free need : List Nat) (t : F) (i : Nat) : Prop :=
  ∃ f : Nat, free[i]? = some f ∧ FitsAt free need i ∧
    (eligibleBefore free need i : F) ≤ t ∧ t < (eligibleBefore free need i : F) + f

theorem eligibleLocations_eq_nil {free need : List Nat} (h : ∀ i, ¬ FitsAt free need i) :
    eligibleLocations free need = [] := by
  refine List.eq_nil_iff_forall_not_mem.mpr (fun p hp => ?_)
  obtain ⟨n, hf, hn, hle⟩ := mem_eligibleLocations.mp hp
  exact h p.1 ⟨p.2, n, hf, hn, hle⟩

theorem chooseLocation_of_no_fit {free need : List Nat} (h : ∀ i, ¬ FitsAt free need i) (roll : F) :
    chooseLocation free need roll = none := by
  simp [chooseLocation, eligibleLocations_eq_nil h, pickLocation]

variable [IsStrictOrderedRing F]

/-- The running subtraction stops in the slot of its target. -/
theorem pickLocation_eligibleFrom {ps : List (Nat × Nat)} {t : F} (h0 : 0 ≤ t) (k m : Nat) :
    pickLocation t (eligibleFrom k ps) = some m ↔
      ∃ i, m = k + i ∧ (∃ f n, ps[i]? = some (f, n) ∧ n ≤ f) ∧ InSlot (ps.map fitWeight) t i := by
  induction ps generalizing k t with
  | nil => simp [eligibleFrom, pickLocation]
  | cons p ps ih =>
    obtain ⟨f, n⟩ := p
    rw [eligibleFrom_cons, List.map_cons]
    by_cases hfit : n ≤ f
    next =>
      have hw : fitWeight (f, n) = f := if_pos hfit
      rw [if_pos hfit, hw]
      simp only [pickLocation, Nat.cast_zero, sub_neg]
      by_cases hlt : t < (f : F)
      next =>
        have hzero : InSlot (f :: ps.map fitWeight) t 0 := (inSlot_cons_zero h0).mpr hlt
        rw [if_pos hlt]
        constructor
        · intro h
          exact ⟨0, (Option.some.inj h).symm, ⟨f, n, rfl, hfit⟩, hzero⟩
        · rintro ⟨i, rfl, -, hi⟩
          rw [inSlot_unique hi hzero, Nat.add_zero]
      next =>
        rw [if_neg hlt, ih (sub_nonneg.mpr (not_lt.mp hlt))]
        constructor
        · rintro ⟨i, rfl, hi, hs⟩
          exact ⟨i + 1, by omega, hi, inSlot_cons_succ.mpr hs⟩
        · rintro ⟨i, rfl, hi, hs⟩
          cases i with
          | zero => exact absurd ((inSlot_cons_zero h0).mp hs) hlt
          | succ i => exact ⟨i, by omega, hi, inSlot_cons_succ.mp hs⟩
    next =>
      have hw : fitWeight (f, n) = 0 := if_neg hfit
      rw [if_neg hfit, hw, ih h0]
      constructor
      · rintro ⟨i, rfl, hi, hs⟩
        exact ⟨i + 1, by omega, hi, inSlot_cons_succ.mpr (by simpa using hs)⟩
      · rintro ⟨i, rfl, hi, hs⟩
        cases i with
        | zero =>
          obtain ⟨f', n', hp, hle⟩ := hi
          obtain ⟨rfl, rfl⟩ := Prod.mk.inj (Option.some.inj hp)
          exact absurd hle hfit
        | succ i => exact ⟨i, by omega, hi, by simpa using inSlot_cons_succ.mp hs⟩

theorem fitsAt_iff_zip {free need : List Nat} {i : Nat} :
    FitsAt free need i ↔ ∃ f n, (free.zip need)[i]? = some (f, n) ∧ n ≤ f := by
  simp only [FitsAt, List.getElem?_zip_eq_some, and_assoc]

theorem eligibleWeights_fit {free need : List Nat} {i f : Nat} (hfit : FitsAt free need i)
    (hf : free[i]? = some f) : (eligibleWeights free need)[i]? = some f := by
  obtain ⟨f', n, hf', hn, hle⟩ := hfit
  cases Option.some.inj (hf.symm.trans hf')
  have hz : (free.zip need)[i]? = some (f, n) := List.getElem?_zip_eq_some.mpr ⟨hf, hn⟩
  simp [eligibleWeights, hz, fitWeight, hle]

theorem eligibleBefore_succ {free need : List Nat} {i f : Nat} (hfit : FitsAt free need i)
    (hf : free[i]? = some f) : eligibleBefore free need (i + 1) = eligibleBefore free need i + f :=
  weightBefore_succ (eligibleWeights_fit hfit hf)

/-- Only a location that fits has a slot of its own. -/
theorem fitsAt_of_inSlot {free need : List Nat} {t : F} {i : Nat}
    (h : InSlot (eligibleWeights free need) t i) : FitsAt free need i := by
  obtain ⟨a, ha, hpos⟩ := h.weight_pos
  simp only [eligibleWeights, List.getElem?_map, Option.map_eq_some_iff] at ha
  obtain ⟨⟨f, n⟩, hz, rfl⟩ := ha
  refine fitsAt_iff_zip.mpr ⟨f, n, hz, ?_⟩
  by_contra hle
  simp [fitWeight, hle] at hpos

theorem eligibleTotal_pos {free need : List Nat} {i : Nat} (hneed : ∀ n ∈ need, 0 < n)
    (hfit : FitsAt free need i) : 0 < eligibleTotal free need := by
  obtain ⟨f, n, hf, hn, hle⟩ := hfit
  have hpos : 0 < n := hneed n (List.mem_of_getElem? hn)
  have hstep := eligibleBefore_succ ⟨f, n, hf, hn, hle⟩ hf
  have hbound : eligibleBefore free need (i + 1) ≤ eligibleTotal free need := weightBefore_le_sum _ _
  omega

/-- With room somewhere, the choice is the slot of the scaled roll, never the fallback. -/
theorem chooseLocation_eq_some_iff {free need : List Nat} (hneed : ∀ n ∈ need, 0 < n) {roll : F}
    (h0 : 0 ≤ roll) (h1 : roll < 1) (i : Nat) :
    chooseLocation free need roll = some i ↔
      InSlot (eligibleWeights free need) (roll * eligibleTotal free need) i := by
  by_cases hany : ∃ j, FitsAt free need j
  next =>
    obtain ⟨j, hj⟩ := hany
    have hpos : (0 : F) < eligibleTotal free need := Nat.cast_pos.mpr (eligibleTotal_pos hneed hj)
    have htarget : 0 ≤ roll * (eligibleTotal free need : F) := mul_nonneg h0 hpos.le
    have hpick : ∀ m, pickLocation (roll * (eligibleTotal free need : F)) (eligibleLocations free need) = some m ↔
        InSlot (eligibleWeights free need) (roll * (eligibleTotal free need : F)) m := by
      intro m
      rw [eligibleLocations_eq, pickLocation_eligibleFrom htarget]
      constructor
      · rintro ⟨i, rfl, -, hs⟩
        rwa [Nat.zero_add]
      · intro hs
        exact ⟨m, (Nat.zero_add m).symm, fitsAt_iff_zip.mp (fitsAt_of_inSlot hs), hs⟩
    obtain ⟨m, hm⟩ : ∃ m, InSlot (eligibleWeights free need) (roll * (eligibleTotal free need : F)) m :=
      exists_inSlot htarget (mul_lt_of_lt_one_left hpos h1)
    have hchoose : chooseLocation free need roll = some m := by
      have htotal : (eligibleLocations free need).foldl (fun acc p => acc + (p.2 : F)) ((0 : Nat) : F) =
          eligibleTotal free need := by
        rw [foldl_free_eq, eligibleLocations_eq, eligibleFrom_sum, Nat.cast_zero, zero_add]
        rfl
      simp only [chooseLocation, htotal, (hpick m).mpr hm, Option.some_or]
    rw [hchoose, Option.some.injEq]
    constructor
    · rintro rfl
      exact hm
    · exact inSlot_unique hm
  next =>
    rw [chooseLocation_of_no_fit (not_exists.mp hany)]
    constructor
    · exact fun h => absurd h (Option.some_ne_none i).symm
    · exact fun h => absurd ⟨i, fitsAt_of_inSlot h⟩ hany

theorem inSlot_iff_ownStretch {free need : List Nat} {t : F} {i : Nat} :
    InSlot (eligibleWeights free need) t i ↔ InOwnStretch free need t i := by
  constructor
  · intro h
    obtain ⟨f, n, hf, hn, hle⟩ := fitsAt_of_inSlot h
    have hstep := eligibleBefore_succ ⟨f, n, hf, hn, hle⟩ hf
    refine ⟨f, hf, ⟨f, n, hf, hn, hle⟩, h.1, ?_⟩
    rw [← Nat.cast_add, ← hstep]
    exact h.2
  · rintro ⟨f, hf, hfit, hlo, hhi⟩
    rw [← Nat.cast_add, ← eligibleBefore_succ hfit hf] at hhi
    exact ⟨hlo, hhi⟩

/-- The choice divides the rolls among the locations that fit, each by its free space. -/
theorem chooseLocation_weighted {free need : List Nat} (hneed : ∀ n ∈ need, 0 < n) :
    (∀ roll : F, 0 ≤ roll → roll < 1 →
      (chooseLocation free need roll = none ↔ ∀ i, ¬ FitsAt free need i) ∧
      ((∃ i, FitsAt free need i) → ∃! i, InOwnStretch free need (roll * eligibleTotal free need) i) ∧
      ∀ i, chooseLocation free need roll = some i ↔
        InOwnStretch free need (roll * eligibleTotal free need) i) ∧
    (∀ i (f : Nat), free[i]? = some f → FitsAt free need i →
      {roll : F | 0 ≤ roll ∧ roll < 1 ∧ chooseLocation free need roll = some i} =
        Set.Ico ((eligibleBefore free need i : F) / eligibleTotal free need)
          ((eligibleBefore free need i : F) / eligibleTotal free need +
            (f : F) / eligibleTotal free need)) ∧
    ∀ i, ¬ FitsAt free need i → ∀ roll : F, chooseLocation free need roll ≠ some i := by
  refine ⟨fun roll h0 h1 => ⟨?_, fun hany => ?_, fun i => ?_⟩, fun i f hf hfit => ?_, fun i hi roll h => ?_⟩
  next =>
    constructor
    · intro hnone i hfit
      obtain ⟨f, n, hf, hn, hle⟩ := hfit
      obtain ⟨j, hj⟩ := chooseLocation_isSome hf hn hle roll
      exact absurd (hnone.symm.trans hj) (Option.some_ne_none j).symm
    · exact fun h => chooseLocation_of_no_fit h roll
  next =>
    obtain ⟨j, f, n, hf, hn, hle⟩ := hany
    obtain ⟨i, hi⟩ := chooseLocation_isSome hf hn hle roll
    have hslot := (chooseLocation_eq_some_iff hneed h0 h1 i).mp hi
    refine ⟨i, inSlot_iff_ownStretch.mp hslot, fun k hk => ?_⟩
    exact inSlot_unique (inSlot_iff_ownStretch.mpr hk) hslot
  next => rw [chooseLocation_eq_some_iff hneed h0 h1, inSlot_iff_ownStretch]
  next =>
    have hslots := inSlot_mul_sum (F := F) (eligibleTotal_pos hneed hfit) i
    have hend : weightBefore (eligibleWeights free need) (i + 1) = eligibleBefore free need i + f :=
      eligibleBefore_succ hfit hf
    rw [hend, Nat.cast_add, add_div] at hslots
    refine Eq.trans (Set.ext (fun roll => ?_)) hslots
    simp only [Set.mem_ofPred_eq]
    constructor
    · rintro ⟨h0, h1, h⟩
      exact ⟨h0, h1, (chooseLocation_eq_some_iff hneed h0 h1 i).mp h⟩
    · rintro ⟨h0, h1, h⟩
      exact ⟨h0, h1, (chooseLocation_eq_some_iff hneed h0 h1 i).mpr h⟩
  next =>
    obtain ⟨f, n, hf, hn, hle⟩ := chooseLocation_eligible h
    exact hi ⟨f, n, hf, hn, hle⟩

end Exact

theorem chooseLocation_weighted_three :
    {roll : ℚ | 0 ≤ roll ∧ roll < 1 ∧ chooseLocation [5, 1, 3] [2, 2, 2] roll = some 2} =
      Set.Ico (5 / 8) (5 / 8 + 3 / 8) := by
  have hneed : ∀ n ∈ [2, 2, 2], 0 < n := by decide
  have hfit : FitsAt [5, 1, 3] [2, 2, 2] 2 := ⟨3, 2, rfl, rfl, by decide⟩
  have hbefore : eligibleBefore [5, 1, 3] [2, 2, 2] 2 = 5 := by decide
  have htotal : eligibleTotal [5, 1, 3] [2, 2, 2] = 8 := by decide
  have h := (chooseLocation_weighted (F := ℚ) hneed).2.1 2 3 rfl hfit
  rw [hbefore, htotal] at h
  exact_mod_cast h

end KeepAt
