import KeepAt.ConfigFields

namespace KeepAt

/-- A size whose text is read back as a size, and which never falls below a floor of 100 units on the way. -/
structure SizeKept (fmt : Formatters) (n m : Nat) : Prop where
  text : (formatByteSize n).map (parseByteSize fmt) = some (.ok m)
  zero : n = 0 → m = 0
  floor : ∀ j ≤ 5, 100 * 1024 ^ j ≤ n → 100 * 1024 ^ j ≤ m

theorem round64_natCast_self {n : Nat} (h : n < 2 ^ 53) : round64 (n : ℚ) = n :=
  round64_eq_self (representable_natCast h).2

theorem le_round64_natCast {n m : Nat} {q : ℚ} (h : n < 2 ^ 53) (hq : (n : ℚ) ≤ q) (hm : n = m) :
    (m : ℚ) ≤ round64 q := by
  subst hm
  have hmono := round64_mono (Nat.cast_nonneg n) hq
  rwa [round64_natCast_self h] at hmono

/-- The shown value is at least any whole number of units that the size reaches. -/
theorem le_shownTenths {n k : Nat} (h : (k : ℚ) * 1024 ^ sizeUnit n ≤ round64 n) :
    (k : ℚ) ≤ (shownTenths n : ℚ) / 10 := by
  have hle : (k : ℚ) ≤ round64 n / 1024 ^ sizeUnit n := (le_div_iff₀ (by positivity)).mpr h
  have hround : (10 * k : ℤ) ≤ roundHalfEven (10 * (round64 n / 1024 ^ sizeUnit n)) :=
    roundHalfEven_ge_of_intCast_le (by push_cast; linarith)
  rw [← shownTenths_cast] at hround
  have hcast : (10 * k : ℚ) ≤ (shownTenths n : ℚ) := by exact_mod_cast hround
  linarith

theorem hundred_units_le {n j : Nat} (hj : j ≤ 5) (h : 100 * 1024 ^ j ≤ n) :
    (100 : ℚ) * 1024 ^ j ≤ round64 n := by
  have hrep : Representable ((100 : ℚ) * 1024 ^ j) := by
    have hcast := representable_mul_1024 (q := 100) (u := j)
      (by exact_mod_cast representable_natCast (n := 100) (by norm_num)) (by norm_num) (by norm_num) hj
    exact hcast
  have hmono := round64_mono (q := (100 : ℚ) * 1024 ^ j) (by positivity) (show _ ≤ (n : ℚ) by exact_mod_cast h)
  rwa [round64_eq_self hrep.2] at hmono

/-- A size that shows at least `k` units reads back as at least as many. -/
theorem le_reread {n k : Nat} (hk : k < 2 ^ 53) (h : (k : ℚ) * 1024 ^ sizeUnit n ≤ round64 n) :
    k * 1024 ^ sizeUnit n ≤ ⌊round64 ((shownTenths n : ℚ) / 10) * 1024 ^ sizeUnit n⌋₊ := by
  have hround := le_round64_natCast hk (le_shownTenths h) rfl
  refine Nat.le_floor ?_
  push_cast
  exact mul_le_mul_of_nonneg_right hround (by positivity)

/-- What a size of at least one binary unit reads back as. -/
theorem sizeKept_scaled (fmt : Formatters) {n : Nat} (hlo : 1024 ≤ n) (h : n < 2 ^ 63) :
    SizeKept fmt n ⌊round64 ((shownTenths n : ℚ) / 10) * 1024 ^ sizeUnit n⌋₊ := by
  have hu : sizeUnit n ≤ 5 := min_le_left _ _
  have hread := parseByteSize_value fmt (isNumberChar_of_mem_tenths (shownTenths n))
    (parseDecimal_tenths (shownTenths n)) (unitText (by omega)) hu (by positivity) (shownTenths_le h)
  refine ⟨by rw [formatByteSize_scaled hlo h, Option.map_some, hread], by omega, fun j hj hfloor => ?_⟩
  have hpow : 1024 ^ j ≤ n := le_trans (Nat.le_mul_of_pos_left _ (by norm_num)) hfloor
  have hunit : j ≤ sizeUnit n := le_min hj (Nat.le_log_of_pow_le (by norm_num) hpow)
  rcases hunit.eq_or_lt with heq | hlt
  · have hhundred := hundred_units_le hj hfloor
    rw [heq] at hhundred ⊢
    exact le_reread (k := 100) (by norm_num) (by exact_mod_cast hhundred)
  · have hreach : 1024 ^ sizeUnit n ≤ n := by
      refine (Nat.pow_le_pow_right (by norm_num) (min_le_right _ _)).trans (Nat.pow_log_le_self 1024 (by omega))
    have hone := (pow_1024_le_round64_iff hu).mpr hreach
    have hle := le_reread (n := n) (k := 1) (by norm_num) (by rw [Nat.cast_one, one_mul]; exact hone)
    calc 100 * 1024 ^ j ≤ 1024 * 1024 ^ j := Nat.mul_le_mul_right _ (by norm_num)
      _ = 1024 ^ (j + 1) := by rw [pow_succ, mul_comm]
      _ ≤ 1024 ^ sizeUnit n := Nat.pow_le_pow_right (by norm_num) hlt
      _ ≤ _ := by rwa [one_mul] at hle

theorem sizeKept_small (fmt : Formatters) {n : Nat} (h : n < 1024) : SizeKept fmt n n :=
  ⟨(parseByteSize_formatByteSize_iff fmt (h.le.trans (by decide))).mpr (.inl h), id, fun _ _ hle => hle⟩

theorem exists_sizeKept (fmt : Formatters) {n : Nat} (h : n < 2 ^ 63) : ∃ m, SizeKept fmt n m := by
  rcases Nat.lt_or_ge n 1024 with hsmall | hlo
  · exact ⟨n, sizeKept_small fmt hsmall⟩
  · exact ⟨_, sizeKept_scaled fmt hlo h⟩

theorem formatByteSize_eq_none_iff {n : Nat} (hmax : n ≤ u64Max) : formatByteSize n = none ↔ n = 2 ^ 63 := by
  constructor
  · intro hnone
    rcases Nat.lt_trichotomy n (2 ^ 63) with hlt | heq | hgt
    · rw [formatByteSize_of_lt hlt] at hnone
      cases hnone
    · exact heq
    · unfold u64Max at hmax
      have hcast : asI64 n = -((2 ^ 64 - n : Nat) : Int) := by
        simp only [asI64]
        omega
      rw [formatByteSize, hcast, humanBytes_of_neg (by omega) (by omega)] at hnone
      cases hnone
  · rintro rfl
    have hcast : asI64 (2 ^ 63) = -2 ^ 63 := by decide
    rw [formatByteSize, hcast, show humanBytes (-2 ^ 63) = none from humanBytesFuel_min 2, Option.map_none]

/-- A size from 2^63 on is never read back: its text is missing or carries a sign. -/
theorem lt_of_reread {fmt : Formatters} {n m : Nat} (hmax : n ≤ u64Max)
    (h : (formatByteSize n).map (parseByteSize fmt) = some (.ok m)) : n < 2 ^ 63 := by
  by_contra hge
  rcases formatByteSize_large (not_lt.mp hge) hmax with hnone | ⟨l, hl, -⟩
  · rw [hnone] at h
    cases h
  · obtain ⟨message, herror⟩ := parseByteSize_sign fmt l
    rw [hl, Option.map_some, herror] at h
    cases h

end KeepAt
