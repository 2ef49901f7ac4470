import KeepAt.SizeText

namespace KeepAt

theorem representable_pow_1024 {u : Nat} (h : u ≤ 6) : Representable (1024 ^ u) := by
  have hr := representable_mul_two_zpow (m := 1) (e := 10 * u) (by norm_num) (by omega) (by omega)
  have heq : ((1 : ℤ) : ℚ) * 2 ^ ((10 : ℤ) * u) = 1024 ^ u := by
    rw [zpow_mul, Int.cast_one, one_mul, zpow_natCast]
    norm_num
  rwa [heq] at hr

theorem representable_natCast {n : Nat} (h : n < 2 ^ 53) : Representable n := by
  have hr := representable_mul_two_zpow (m := n) (e := 0) (by rw [abs_of_nonneg (by omega)]; exact_mod_cast h)
    (by norm_num) (by norm_num)
  simpa using hr

/-- A grid value that is at least one has room below for ten more binary places. -/
theorem representable_div_1024 {q : ℚ} (hr : Representable q) (hq : 1 ≤ q) : Representable (q / 1024) := by
  obtain ⟨hmax, m, e, hm, he, rfl⟩ := hr
  have hexp : -53 ≤ e := by
    by_contra hc
    have hmq : (m : ℚ) ≤ 2 ^ 53 := by
      have : m ≤ 2 ^ 53 := (le_abs_self m).trans hm.le
      exact_mod_cast this
    have hpow : (2 : ℚ) ^ e ≤ 2 ^ (-54 : ℤ) := zpow_le_zpow_right₀ (by norm_num) (by omega)
    have hprod : (m : ℚ) * 2 ^ e ≤ 2 ^ 53 * 2 ^ (-54 : ℤ) :=
      mul_le_mul hmq hpow (two_zpow_pos e).le (by norm_num)
    norm_num at hprod hq
    linarith
  refine ⟨?_, m, e - 10, hm, by omega, ?_⟩
  · rw [abs_div]
    exact (div_le_self (abs_nonneg _) (by norm_num)).trans_lt hmax
  · rw [zpow_sub₀ (by norm_num)]
    norm_num
    ring

theorem natCast_1024 : ((1024 : Nat) : F64) = .fin 1024 (by simpa using representable_pow_1024 (u := 1) (by omega)) :=
  F64.ofRat_eq_fin _

/-- Dividing by 1024 loses nothing, so the scaled value is the value over a power of 1024. -/
theorem scaleUnits_spec (k : Nat) {q : ℚ} (hr : Representable q) (u : Nat) :
    ∃ j hv, scaleUnits k (.fin q hr) u = (.fin (q / 1024 ^ j) hv, u + j) ∧ j ≤ k ∧
      (j < k → q < 1024 ^ (j + 1)) ∧ (0 < j → 1024 ^ j ≤ q) := by
  induction k generalizing q u with
  | zero => exact ⟨0, by simpa using hr, by simp [scaleUnits], le_rfl, by simp, by simp⟩
  | succ k ih =>
    by_cases hle : 1024 ≤ q
    · have hdiv := representable_div_1024 hr (by linarith)
      obtain ⟨j, hv, heq, hj, hlt, hge⟩ := ih hdiv (u + 1)
      have hpow : q / 1024 / 1024 ^ j = q / 1024 ^ (j + 1) := by rw [div_div, ← pow_succ']
      have hstep : scaleUnits (k + 1) (.fin q hr) u = scaleUnits k (.fin (q / 1024) hdiv) (u + 1) := by
        rw [scaleUnits, natCast_1024, if_pos (F64.fin_le_fin.mpr hle), F64.fin_div_fin (by norm_num),
          F64.ofRat_eq_fin hdiv]
      refine ⟨j + 1, hpow ▸ hv, ?_, by omega, fun h => ?_, fun _ => ?_⟩
      · rw [hstep, heq]
        simp only [hpow, Prod.mk.injEq, true_and]
        omega
      · have := hlt (by omega)
        rw [div_lt_iff₀ (by norm_num)] at this
        rwa [pow_succ 1024 (j + 1)]
      · rcases Nat.eq_zero_or_pos j with rfl | hpos
        · simpa using hle
        · have := hge hpos
          rw [le_div_iff₀ (by norm_num)] at this
          rwa [pow_succ]
    · refine ⟨0, by simpa using hr, ?_, by omega, fun _ => by simpa using hle, by simp⟩
      rw [scaleUnits, natCast_1024, if_neg (fun h => hle (F64.fin_le_fin.mp h))]
      simp

/-- Rounding a count to binary64 moves it across no unit. -/
theorem pow_1024_le_round64_iff {n i : Nat} (hi : i ≤ 5) :
    (1024 : ℚ) ^ i ≤ round64 n ↔ 1024 ^ i ≤ n := by
  have hpow : (1024 : Nat) ^ i ≤ 2 ^ 50 := (Nat.pow_le_pow_right (by norm_num) hi).trans (by norm_num)
  constructor
  · intro h
    by_contra hc
    have hself := round64_eq_self (representable_natCast (n := n) (by omega)).2
    rw [hself] at h
    have : 1024 ^ i ≤ n := by exact_mod_cast h
    exact hc this
  · intro h
    have hself := round64_eq_self (representable_pow_1024 (u := i) (by omega)).2
    rw [← hself]
    refine round64_mono (by positivity) ?_
    exact_mod_cast h

theorem sizeUnit_unique {n j : Nat} (hj : j ≤ 5) (hge : 0 < j → (1024 : ℚ) ^ j ≤ round64 n)
    (hlt : j < 5 → round64 n < (1024 : ℚ) ^ (j + 1)) : j = sizeUnit n := by
  have hlow : j ≤ Nat.log 1024 n := by
    rcases Nat.eq_zero_or_pos j with rfl | hpos
    · exact Nat.zero_le _
    · exact Nat.le_log_of_pow_le (by norm_num) ((pow_1024_le_round64_iff hj).mp (hge hpos))
  have hhigh : j < 5 → Nat.log 1024 n < j + 1 := by
    intro h
    refine Nat.log_lt_of_lt_pow' (by omega) ?_
    by_contra hc
    exact absurd ((pow_1024_le_round64_iff (by omega)).mpr (not_lt.mp hc)) (not_le.mpr (hlt h))
  unfold sizeUnit
  omega

/-- The value a count is shown with, in tenths of its unit. -/
def shownTenths (n : Nat) : Nat := (roundHalfEven (10 * (round64 n / 1024 ^ sizeUnit n))).toNat

theorem scaleUnits_natCast {n : Nat} (h : n < 2 ^ 63) :
    ∃ hv, scaleUnits 5 (n : F64) 0 = (.fin (round64 n / 1024 ^ sizeUnit n) hv, sizeUnit n) := by
  have hn : (n : ℚ) ≤ 2 ^ 64 := by exact_mod_cast (show n ≤ 2 ^ 64 by omega)
  obtain ⟨hr, hcast⟩ := ofRat_of_le (Nat.cast_nonneg n) hn representable_two_pow_64
  obtain ⟨j, hv, heq, hj, hlt, hge⟩ := scaleUnits_spec 5 hr 0
  obtain rfl := sizeUnit_unique hj hge hlt
  have hstart : (n : F64) = .fin (round64 n) hr := hcast
  exact ⟨hv, by rw [hstart, heq, Nat.zero_add]⟩

theorem scaled_le {n : Nat} (h : n < 2 ^ 63) : round64 n / 1024 ^ sizeUnit n ≤ 2 ^ 13 := by
  rw [div_le_iff₀ (by positivity)]
  rcases Nat.lt_or_ge (sizeUnit n) 5 with hu | hu
  · have hlog : n < 1024 ^ (sizeUnit n + 1) := by
      have hmin : sizeUnit n = Nat.log 1024 n := by
        unfold sizeUnit at hu ⊢
        omega
      rw [hmin]
      exact Nat.lt_pow_succ_log_self (by norm_num) n
    have hn : (n : ℚ) ≤ 1024 ^ (sizeUnit n + 1) := by exact_mod_cast hlog.le
    have hle := round64_le_of_le_grid (Nat.cast_nonneg n) hn (representable_pow_1024 (by omega)).2
    refine hle.trans ?_
    rw [pow_succ, mul_comm]
    exact mul_le_mul_of_nonneg_right (by norm_num) (by positivity)
  · have hfive : sizeUnit n = 5 := le_antisymm (min_le_left _ _) hu
    have hn : (n : ℚ) ≤ 2 ^ 63 := by exact_mod_cast h.le
    have hgrid : ∃ m e : ℤ, |m| < 2 ^ 53 ∧ -1074 ≤ e ∧ (2 ^ 63 : ℚ) = m * 2 ^ e :=
      ⟨1, 63, by norm_num, by norm_num, by norm_num⟩
    rw [hfive]
    exact (round64_le_of_le_grid (Nat.cast_nonneg n) hn hgrid).trans (by norm_num)

theorem shownTenths_cast (n : Nat) :
    ((shownTenths n : ℤ)) = roundHalfEven (10 * (round64 n / 1024 ^ sizeUnit n)) := by
  have hpos : (0 : ℤ) ≤ roundHalfEven (10 * (round64 n / 1024 ^ sizeUnit n)) :=
    roundHalfEven_ge_of_intCast_le (by
      have := round64_nonneg (Nat.cast_nonneg (α := ℚ) n)
      push_cast
      positivity)
  exact Int.toNat_of_nonneg hpos

theorem shownTenths_le {n : Nat} (h : n < 2 ^ 63) : (shownTenths n : ℚ) / 10 ≤ 2 ^ 13 := by
  have hle : roundHalfEven (10 * (round64 n / 1024 ^ sizeUnit n)) ≤ 10 * 2 ^ 13 :=
    roundHalfEven_le_of_le_intCast (by push_cast; linarith [scaled_le h])
  rw [← shownTenths_cast] at hle
  have : (shownTenths n : ℚ) ≤ 10 * 2 ^ 13 := by exact_mod_cast hle
  linarith

theorem representable_mul_1024 {q : ℚ} {u : Nat} (hr : Representable q) (h0 : 0 ≤ q) (hq : q ≤ 2 ^ 13)
    (hu : u ≤ 5) : Representable (q * 1024 ^ u) := by
  obtain ⟨-, m, e, hm, he, rfl⟩ := hr
  refine ⟨?_, m, e + 10 * u, hm, by omega, ?_⟩
  · rw [abs_of_nonneg (by positivity)]
    calc (m : ℚ) * 2 ^ e * 1024 ^ u ≤ 2 ^ 13 * 1024 ^ 5 :=
          mul_le_mul hq (pow_le_pow_right₀ (by norm_num) hu) (by positivity) (by norm_num)
      _ = 2 ^ 63 := by norm_num
      _ < 2 ^ 1024 := pow_lt_pow_right₀ (by norm_num) (by norm_num)
  · rw [zpow_add₀ (by norm_num), zpow_mul, zpow_natCast]
    norm_num
    ring

theorem parseByteSize_value (fmt : Formatters) {num suffix : List Char} {q : ℚ} {u : Nat}
    (hnum : ∀ c ∈ num, isNumberChar c = true) (hq : parseDecimal num = some q)
    (hu : UnitText u suffix) (hu5 : u ≤ 5) (h0 : 0 ≤ q) (hle : q ≤ 2 ^ 13) :
    parseByteSize fmt (String.ofList (num ++ suffix)) = .ok ⌊round64 q * 1024 ^ u⌋₊ := by
  have hr13 : Representable (2 ^ 13) := by
    have := representable_natCast (n := 2 ^ 13) (by norm_num)
    exact_mod_cast this
  obtain ⟨hr, hof⟩ := ofRat_of_le h0 hle hr13
  have hx0 := round64_nonneg h0
  have hx := round64_le_of_le_grid h0 hle hr13.2
  have hprod := representable_mul_1024 hr hx0 hx hu5
  have hpow : ((1024 ^ u : Nat) : F64) = .fin (1024 ^ u) (representable_pow_1024 (by omega)) := by
    have : ((1024 ^ u : Nat) : ℚ) = 1024 ^ u := by push_cast; rfl
    show F64.ofRat ((1024 ^ u : Nat) : ℚ) = _
    rw [this]
    exact F64.ofRat_eq_fin _
  have hvalue : F64.ofRat q * ((1024 ^ u : Nat) : F64) = .fin (round64 q * 1024 ^ u) hprod := by
    rw [hof, hpow, F64.fin_mul_fin, F64.ofRat_eq_fin hprod]
  have hbound : round64 q * 1024 ^ u ≤ 2 ^ 63 := by
    calc round64 q * 1024 ^ u ≤ 2 ^ 13 * 1024 ^ 5 :=
          mul_le_mul hx (pow_le_pow_right₀ (by norm_num) hu5) (by positivity) (by norm_num)
      _ = 2 ^ 63 := by norm_num
  have hfits : ¬((u64Max : Nat) : F64) ≤ F64.ofRat q * ((1024 ^ u : Nat) : F64) := by
    rw [hvalue, natCast_u64Max, F64.fin_le_fin]
    intro h
    norm_num at h hbound
    linarith
  have hfloor : ⌊round64 q * 1024 ^ u⌋₊ ≤ 2 ^ 63 := by
    have := Nat.floor_le_floor hbound
    exact this.trans (by norm_num)
  rw [parseByteSize_number hnum hq hu hfits, hvalue]
  refine congrArg Except.ok ?_
  have htoNat : ⌊round64 q * 1024 ^ u⌋.toNat = ⌊round64 q * 1024 ^ u⌋₊ := Int.floor_toNat _
  rw [F64.toU64, htoNat]
  omega

theorem abs_round64_sub_le_of_le {q : ℚ} (h0 : 0 ≤ q) (hq : q ≤ 2 ^ 15) :
    |round64 q - q| ≤ 1 / 2 ^ 38 := by
  rcases h0.eq_or_lt with rfl | hpos
  · rw [round64_zero]
    norm_num
  · have hlast : quantumExponent (2 ^ 15) = -37 := by decide +kernel
    have hexp := quantumExponent_mono hpos hq
    rw [hlast] at hexp
    have hpow : (2 : ℚ) ^ quantumExponent q ≤ 2 ^ (-37 : ℤ) := zpow_le_zpow_right₀ (by norm_num) hexp
    have herr := abs_round64_sub_le q
    norm_num at hpow ⊢
    linarith

theorem abs_round64_natCast_sub_le {n : Nat} (h : 1 ≤ n) : |round64 n - n| ≤ (n : ℚ) / 2 ^ 53 := by
  have hn : (1 : ℚ) ≤ |(n : ℚ)| := by
    rw [Nat.abs_cast]
    exact_mod_cast h
  have herr := abs_round64_sub_le (n : ℚ)
  have hquantum := quantum_le_of_one_le hn
  rw [Nat.abs_cast] at hquantum
  calc |round64 n - n| ≤ 2 ^ quantumExponent (n : ℚ) / 2 := herr
    _ ≤ (n : ℚ) / 2 ^ 52 / 2 := by linarith
    _ = _ := by ring

/-- Where a tenth of a unit reads back to the count, it is the tenth the count is shown with. -/
theorem shownTenths_eq {n k : Nat} (hlo : 1024 ≤ n) (hn : n < 2 ^ 63)
    (h : n = ⌊round64 (k / 10) * 1024 ^ sizeUnit n⌋₊) : shownTenths n = k := by
  have hunit : (1024 : ℚ) ≤ 1024 ^ sizeUnit n := by
    have hpos : 1 ≤ sizeUnit n := by
      have : 1 ≤ Nat.log 1024 n := Nat.le_log_of_pow_le (by norm_num) (by simpa using hlo)
      unfold sizeUnit
      omega
    exact le_self_pow₀ (by norm_num) (by omega)
  have hpos : (0 : ℚ) < 1024 ^ sizeUnit n := by positivity
  have hx0 : (0 : ℚ) ≤ round64 (k / 10) := round64_nonneg (by positivity)
  have hfloor := Nat.floor_le (mul_nonneg hx0 hpos.le)
  have hceil := Nat.lt_floor_add_one (round64 (k / 10) * 1024 ^ sizeUnit n)
  rw [← h] at hfloor hceil
  have hbelow : (n : ℚ) / 1024 ^ sizeUnit n ≤ round64 (k / 10) := (div_le_iff₀ hpos).mpr hfloor
  have habove : round64 (k / 10) ≤ n / 1024 ^ sizeUnit n + 1 / 1024 := by
    have hlt : round64 (k / 10) < (n + 1) / 1024 ^ sizeUnit n := (lt_div_iff₀ hpos).mpr hceil
    have hone : (1 : ℚ) / 1024 ^ sizeUnit n ≤ 1 / 1024 := one_div_le_one_div_of_le (by norm_num) hunit
    rw [add_div] at hlt
    linarith
  have hcount : |round64 n / 1024 ^ sizeUnit n - n / 1024 ^ sizeUnit n| ≤
      (n : ℚ) / 1024 ^ sizeUnit n / 2 ^ 53 := by
    rw [← sub_div, abs_div, abs_of_pos hpos, div_right_comm]
    exact div_le_div_of_nonneg_right (abs_round64_natCast_sub_le (by omega)) hpos.le
  have hscaled := scaled_le hn
  obtain ⟨hcount1, hcount2⟩ := abs_le.mp hcount
  have hy : (n : ℚ) / 1024 ^ sizeUnit n ≤ 2 ^ 14 := by
    norm_num at hcount1 hscaled ⊢
    linarith
  have hk : (k : ℚ) / 10 ≤ 2 ^ 15 := by
    by_contra hc
    have hgrid : ∃ m e : ℤ, |m| < 2 ^ 53 ∧ -1074 ≤ e ∧ (2 ^ 15 : ℚ) = m * 2 ^ e :=
      ⟨1, 15, by norm_num, by norm_num, by norm_num⟩
    have hmono := round64_mono (by norm_num) (not_le.mp hc).le
    rw [round64_eq_self hgrid] at hmono
    norm_num at hmono hy
    linarith
  obtain ⟨htenth1, htenth2⟩ := abs_le.mp (abs_round64_sub_le_of_le (by positivity) hk)
  have hnear : |10 * (round64 n / 1024 ^ sizeUnit n) - (k : ℤ)| < 1 / 2 := by
    rw [abs_lt]
    norm_num at hcount1 hcount2 htenth1 htenth2 hy ⊢
    constructor <;> linarith
  have hround := roundHalfEven_eq_of_abs_lt hnear
  rw [← shownTenths_cast] at hround
  exact_mod_cast hround

theorem filter_space_toDigits (n : Nat) :
    (Nat.toDigits 10 n).filter (· ≠ ' ') = Nat.toDigits 10 n := by
  refine List.filter_eq_self.mpr fun c hc => decide_eq_true ?_
  rintro rfl
  exact absurd (isDigit_of_mem_toDigits hc) (by decide)

theorem filter_space_unit {u : Nat} (h : u < 6) :
    (unitNames.getD u "").toList.filter (· ≠ ' ') = (unitNames.getD u "").toList := by
  interval_cases u <;> decide

theorem formatByteSize_of_lt {n : Nat} (h : n < 2 ^ 63) :
    formatByteSize n = some (String.ofList ((humanMagnitude n).toList.filter (· ≠ ' '))) := by
  rw [formatByteSize, asI64_of_lt h, humanBytes_of_nonneg, Option.map_some]

theorem formatByteSize_small {n : Nat} (h : n < 1024) :
    formatByteSize n = some (String.ofList (Nat.toDigits 10 n ++ (unitNames.getD 0 "").toList)) := by
  obtain ⟨hv, hs⟩ := scaleUnits_natCast (show n < 2 ^ 63 by omega)
  have hu : sizeUnit n = 0 := by
    have : Nat.log 1024 n = 0 := Nat.log_of_lt h
    unfold sizeUnit
    omega
  rw [formatByteSize_of_lt (by omega)]
  simp only [humanMagnitude, show unitNames.length - 1 = 5 from rfl, hs, hu]
  rw [String.toList_append, List.filter_append, Nat.toString_eq_ofList_toDigits, String.toList_ofList,
    filter_space_toDigits]
  rfl

theorem formatByteSize_scaled {n : Nat} (hlo : 1024 ≤ n) (h : n < 2 ^ 63) :
    formatByteSize n = some (String.ofList
      ((Nat.toDigits 10 (shownTenths n / 10) ++ '.' :: Nat.toDigits 10 (shownTenths n % 10)) ++
        (unitNames.getD (sizeUnit n) "").toList)) := by
  obtain ⟨hv, hs⟩ := scaleUnits_natCast h
  have hv0 : 0 ≤ round64 n / 1024 ^ sizeUnit n :=
    div_nonneg (round64_nonneg (Nat.cast_nonneg n)) (by positivity)
  have hu : sizeUnit n < 6 := (min_le_left _ _).trans_lt (by norm_num)
  have hpos : 0 < sizeUnit n := by
    have : 1 ≤ Nat.log 1024 n := Nat.le_log_of_pow_le (by norm_num) (by simpa using hlo)
    unfold sizeUnit
    omega
  have hmagnitude : humanMagnitude n =
      toString (shownTenths n / 10) ++ "." ++ toString (shownTenths n % 10) ++ " " ++
        unitNames.getD (sizeUnit n) "" := by
    rw [humanMagnitude, show unitNames.length - 1 = 5 from rfl, hs]
    split
    next heq =>
      obtain ⟨-, hz⟩ := Prod.mk.inj heq
      omega
    next heq =>
      obtain ⟨rfl, rfl⟩ := Prod.mk.inj heq
      simp only [formatTenths, abs_of_nonneg hv0, if_neg (not_lt.mpr hv0), String.empty_append]
      rfl
  rw [formatByteSize_of_lt h, hmagnitude]
  simp only [String.toList_append, List.filter_append, Nat.toString_eq_ofList_toDigits,
    String.toList_ofList, filter_space_toDigits, filter_space_unit hu]
  simp

theorem humanMagnitude_plain {n : Nat} (h : n < 2 ^ 63) :
    ∃ c l, (humanMagnitude n).toList.filter (· ≠ ' ') = c :: l ∧ isNumberChar c = true ∧
      ∀ x ∈ c :: l, isWhiteSpace x = false := by
  have of_number : ∀ num suffix u, (∀ c ∈ num, isNumberChar c = true) → num ≠ [] → UnitText u suffix →
      (humanMagnitude n).toList.filter (· ≠ ' ') = num ++ suffix →
      ∃ c l, (humanMagnitude n).toList.filter (· ≠ ' ') = c :: l ∧ isNumberChar c = true ∧
        ∀ x ∈ c :: l, isWhiteSpace x = false := by
    intro num suffix u hnum hne hu heq
    obtain ⟨c, l, rfl⟩ := List.exists_cons_of_ne_nil hne
    refine ⟨c, l ++ suffix, heq, hnum c List.mem_cons_self, fun x hx => ?_⟩
    rw [← List.cons_append] at hx
    rcases List.mem_append.mp hx with hx | hx
    · exact not_isWhiteSpace_of_isNumberChar (hnum x hx)
    · exact hu.plain x hx
  have hformat := formatByteSize_of_lt h
  rcases Nat.lt_or_ge n 1024 with hsmall | hlo
  · rw [formatByteSize_small hsmall] at hformat
    exact of_number _ _ 0 (fun c hc => isNumberChar_of_mem_toDigits hc) Nat.toDigits_ne_nil
      (unitText (by omega)) (String.ofList_injective (Option.some.inj hformat)).symm
  · rw [formatByteSize_scaled hlo h] at hformat
    exact of_number _ _ (sizeUnit n) (isNumberChar_of_mem_tenths (shownTenths n)) (by simp)
      (unitText ((min_le_left _ _).trans_lt (by norm_num)))
      (String.ofList_injective (Option.some.inj hformat)).symm

theorem formatByteSize_large {n : Nat} (hlo : 2 ^ 63 ≤ n) (hmax : n ≤ u64Max) :
    formatByteSize n = none ∨ ∃ l, formatByteSize n = some (String.ofList ('-' :: l)) ∧
      ∀ x ∈ l, isWhiteSpace x = false := by
  have hcast : asI64 n = -((2 ^ 64 - n : Nat) : Int) := by
    unfold u64Max at hmax
    simp only [asI64]
    omega
  rcases hlo.eq_or_lt with rfl | hlt
  · have hmin : humanBytes (-2 ^ 63) = none := humanBytesFuel_min 2
    left
    rw [formatByteSize, hcast, show -((2 ^ 64 - 2 ^ 63 : Nat) : Int) = -2 ^ 63 by norm_num, hmin,
      Option.map_none]
  · right
    obtain ⟨c, l, heq, -, hplain⟩ := humanMagnitude_plain (show 2 ^ 64 - n < 2 ^ 63 by omega)
    refine ⟨c :: l, ?_, hplain⟩
    rw [formatByteSize, hcast, humanBytes_of_neg (by unfold u64Max at hmax; omega) (by omega),
      Option.map_some, String.toList_append, List.filter_append, heq]
    rfl

theorem formatByteSize_plain {n : Nat} (hmax : n ≤ u64Max) {s : String} (h : formatByteSize n = some s) :
    ∃ c l, s = String.ofList (c :: l) ∧ (isNumberChar c = true ∨ c = '-') ∧
      ∀ x ∈ c :: l, isWhiteSpace x = false := by
  rcases Nat.lt_or_ge n (2 ^ 63) with hn | hlarge
  · obtain ⟨c, l, heq, hc, hplain⟩ := humanMagnitude_plain hn
    rw [formatByteSize_of_lt hn, heq] at h
    exact ⟨c, l, (Option.some.inj h).symm, Or.inl hc, hplain⟩
  · rcases formatByteSize_large hlarge hmax with hnone | ⟨l, hl, hplain⟩
    · rw [hnone] at h
      cases h
    · rw [hl] at h
      refine ⟨'-', l, (Option.some.inj h).symm, Or.inr rfl, fun x hx => ?_⟩
      rcases List.mem_cons.mp hx with rfl | hx
      · rfl
      · exact hplain x hx

/-- A byte count is read back from its text exactly when it is a one-decimal multiple of its
unit. -/
theorem parseByteSize_formatByteSize_iff (fmt : Formatters) {n : Nat} (hmax : n ≤ u64Max) :
    (formatByteSize n).map (parseByteSize fmt) = some (.ok n) ↔ OneDecimal n := by
  rcases Nat.lt_or_ge n 1024 with hsmall | hlo
  · have hle : (n : ℚ) ≤ 2 ^ 13 := by exact_mod_cast (show n ≤ 2 ^ 13 by omega)
    have hread := parseByteSize_value fmt (fun c hc => isNumberChar_of_mem_toDigits hc)
      (parseDecimal_toDigits n) (unitText (u := 0) (by omega)) (by omega) (Nat.cast_nonneg n) hle
    rw [formatByteSize_small hsmall, Option.map_some, hread]
    refine iff_of_true ?_ (Or.inl hsmall)
    rw [round64_eq_self (representable_natCast (by omega)).2]
    simp
  · rcases Nat.lt_or_ge n (2 ^ 63) with hn | hlarge
    · have hu : sizeUnit n ≤ 5 := min_le_left _ _
      have hread := parseByteSize_value fmt (isNumberChar_of_mem_tenths (shownTenths n))
        (parseDecimal_tenths (shownTenths n)) (unitText (by omega)) hu (by positivity) (shownTenths_le hn)
      rw [formatByteSize_scaled hlo hn, Option.map_some, hread]
      constructor
      · intro h
        exact Or.inr ⟨hn, _, (Except.ok.inj (Option.some.inj h)).symm⟩
      · rintro (hsmall | ⟨-, k, hk⟩)
        · omega
        · rw [shownTenths_eq hlo hn hk, ← hk]
    · refine iff_of_false (fun h => ?_) (by rintro (h | ⟨h, -⟩) <;> omega)
      rcases formatByteSize_large hlarge hmax with hnone | ⟨l, hl, -⟩
      · rw [hnone] at h
        cases h
      · obtain ⟨message, herror⟩ := parseByteSize_sign fmt l
        rw [hl, Option.map_some, herror] at h
        cases h

end KeepAt
