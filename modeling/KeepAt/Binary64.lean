import Mathlib.Algebra.Order.Floor.Ring
import Mathlib.Data.Int.Log
import Mathlib.Data.Rat.Floor
import Mathlib.Tactic.Linarith
import Mathlib.Tactic.NormNum
import Mathlib.Tactic.Positivity

namespace KeepAt

/-- The nearest integer, a tie going to the even one. -/
def roundHalfEven (x : ℚ) : ℤ :=
  if x - ⌊x⌋ < 1 / 2 then ⌊x⌋
  else if 1 / 2 < x - ⌊x⌋ then ⌊x⌋ + 1
  else ⌊x⌋ + ⌊x⌋ % 2

theorem abs_roundHalfEven_sub_le (x : ℚ) : |(roundHalfEven x : ℚ) - x| ≤ 1 / 2 := by
  have hlo := Int.floor_le x
  have hhi := Int.lt_floor_add_one x
  have hmod : (0 : ℚ) ≤ (⌊x⌋ % 2 : ℤ) ∧ ((⌊x⌋ % 2 : ℤ) : ℚ) ≤ 1 := by
    constructor
    · exact_mod_cast Int.emod_nonneg ⌊x⌋ (by norm_num)
    · exact_mod_cast (show ⌊x⌋ % 2 ≤ 1 by omega)
  unfold roundHalfEven
  rw [abs_le]
  split_ifs <;> push_cast <;> constructor <;> linarith [hmod.1, hmod.2]

theorem roundHalfEven_eq_of_abs_lt {x : ℚ} {n : ℤ} (h : |x - n| < 1 / 2) : roundHalfEven x = n := by
  have hr := abs_le.mp (abs_roundHalfEven_sub_le x)
  obtain ⟨hl, hu⟩ := abs_lt.mp h
  have h1 : ((roundHalfEven x : ℤ) : ℚ) < (n + 1 : ℤ) := by push_cast; linarith [hr.2]
  have h2 : ((n - 1 : ℤ) : ℚ) < (roundHalfEven x : ℤ) := by push_cast; linarith [hr.1]
  have h3 : roundHalfEven x < n + 1 := by exact_mod_cast h1
  have h4 : n - 1 < roundHalfEven x := by exact_mod_cast h2
  omega

@[simp] theorem roundHalfEven_intCast (n : ℤ) : roundHalfEven n = n :=
  roundHalfEven_eq_of_abs_lt (by simp)

theorem roundHalfEven_le_of_le_intCast {x : ℚ} {n : ℤ} (h : x ≤ n) : roundHalfEven x ≤ n := by
  rcases h.eq_or_lt with rfl | h
  · simp
  · have hf : ⌊x⌋ < n := Int.floor_lt.mpr h
    unfold roundHalfEven
    split_ifs <;> omega

theorem roundHalfEven_ge_of_intCast_le {x : ℚ} {n : ℤ} (h : (n : ℚ) ≤ x) : n ≤ roundHalfEven x := by
  have hf : n ≤ ⌊x⌋ := Int.le_floor.mpr h
  unfold roundHalfEven
  split_ifs <;> omega

theorem roundHalfEven_mono {x y : ℚ} (h : x ≤ y) : roundHalfEven x ≤ roundHalfEven y := by
  by_contra hc
  have hstep : ((roundHalfEven y + 1 : ℤ) : ℚ) ≤ (roundHalfEven x : ℤ) := by
    exact_mod_cast (show roundHalfEven y + 1 ≤ roundHalfEven x by omega)
  push_cast at hstep
  have hx := abs_le.mp (abs_roundHalfEven_sub_le x)
  have hy := abs_le.mp (abs_roundHalfEven_sub_le y)
  have heq : x = y := by linarith [hx.2, hy.1]
  rw [heq] at hc
  omega

/-- Exponent of the last mantissa bit at the magnitude of `q`. -/
def quantumExponent (q : ℚ) : ℤ := max (Int.log 2 |q| - 52) (-1074)

/-- Round to the binary64 grid, without its upper bound. -/
def round64 (q : ℚ) : ℚ := roundHalfEven (q / 2 ^ quantumExponent q) * 2 ^ quantumExponent q

/-- The finite binary64 values: a 53-bit mantissa and an exponent in range. -/
def Representable (q : ℚ) : Prop :=
  |q| < 2 ^ 1024 ∧ ∃ m e : ℤ, |m| < 2 ^ 53 ∧ -1074 ≤ e ∧ q = m * 2 ^ e

theorem two_zpow_pos (e : ℤ) : (0 : ℚ) < 2 ^ e := zpow_pos (by norm_num) e

theorem abs_lt_two_zpow_log_succ (q : ℚ) : |q| < 2 ^ (Int.log 2 |q| + 1) := by
  simpa using Int.lt_zpow_succ_log_self (R := ℚ) (b := 2) (by norm_num) |q|

theorem abs_div_quantum_lt (q : ℚ) : |q / 2 ^ quantumExponent q| < (2 ^ 53 : ℤ) := by
  have he : Int.log 2 |q| + 1 ≤ 53 + quantumExponent q := by
    unfold quantumExponent
    omega
  have hpow : (2 : ℚ) ^ (Int.log 2 |q| + 1) ≤ 2 ^ (53 : ℤ) * 2 ^ quantumExponent q := by
    rw [← zpow_add₀ (by norm_num)]
    exact zpow_le_zpow_right₀ (by norm_num) he
  have hq := (abs_lt_two_zpow_log_succ q).trans_le hpow
  rw [abs_div, abs_of_pos (two_zpow_pos _), div_lt_iff₀ (two_zpow_pos _)]
  push_cast
  exact_mod_cast hq

/-- Rounding lands on the grid; a mantissa that rounds up to `2 ^ 53` is the next binade's first. -/
theorem round64_grid (q : ℚ) : ∃ m e : ℤ, |m| < 2 ^ 53 ∧ -1074 ≤ e ∧ round64 q = m * 2 ^ e := by
  obtain ⟨hlo, hhi⟩ := abs_lt.mp (abs_div_quantum_lt q)
  have hup := roundHalfEven_le_of_le_intCast hhi.le
  have hdown := roundHalfEven_ge_of_intCast_le (n := -2 ^ 53) (by push_cast at hlo ⊢; exact hlo.le)
  have hexp : -1074 ≤ quantumExponent q := le_max_right _ _
  by_cases hm : |roundHalfEven (q / 2 ^ quantumExponent q)| < 2 ^ 53
  · exact ⟨_, _, hm, hexp, rfl⟩
  · have hcase : roundHalfEven (q / 2 ^ quantumExponent q) = 2 ^ 53 ∨
        roundHalfEven (q / 2 ^ quantumExponent q) = -2 ^ 53 := by
      rw [abs_lt] at hm
      omega
    have hnext : (2 : ℚ) ^ (quantumExponent q + 1) = 2 ^ quantumExponent q * 2 := by
      rw [zpow_add₀ (by norm_num), zpow_one]
    rcases hcase with h | h
    · refine ⟨2 ^ 52, quantumExponent q + 1, by norm_num, by omega, ?_⟩
      rw [round64, h, hnext]
      push_cast
      ring
    · refine ⟨-2 ^ 52, quantumExponent q + 1, by norm_num, by omega, ?_⟩
      rw [round64, h, hnext]
      push_cast
      ring

theorem representable_mul_two_zpow {m e : ℤ} (hm : |m| < 2 ^ 53) (hlo : -1074 ≤ e) (hhi : e ≤ 970) :
    Representable (m * 2 ^ e) := by
  refine ⟨?_, m, e, hm, hlo, rfl⟩
  have hmq : |(m : ℚ)| < 2 ^ 53 := by
    rw [← Int.cast_abs]
    exact_mod_cast hm
  have hpow : (2 : ℚ) ^ e ≤ 2 ^ (970 : ℤ) := zpow_le_zpow_right₀ (by norm_num) hhi
  rw [abs_mul, abs_of_pos (two_zpow_pos e)]
  calc |(m : ℚ)| * 2 ^ e < 2 ^ 53 * 2 ^ e := mul_lt_mul_of_pos_right hmq (two_zpow_pos e)
    _ ≤ 2 ^ 53 * 2 ^ (970 : ℤ) := mul_le_mul_of_nonneg_left hpow (by norm_num)
    _ < 2 ^ 1024 := by
      rw [← zpow_natCast, ← zpow_natCast, ← zpow_add₀ (by norm_num)]
      exact zpow_lt_zpow_right₀ (by norm_num) (by norm_num)

theorem round64_zero : round64 0 = 0 := by
  have hz : roundHalfEven 0 = 0 := roundHalfEven_intCast 0
  simp [round64, hz]

theorem quantumExponent_le {m e : ℤ} (hm : |m| < 2 ^ 53) (hm0 : m ≠ 0) (he : -1074 ≤ e) :
    quantumExponent (m * 2 ^ e) ≤ e := by
  have hpos : (0 : ℚ) < |(m : ℚ) * 2 ^ e| := by
    rw [abs_pos]
    exact mul_ne_zero (by exact_mod_cast hm0) (two_zpow_pos e).ne'
  have hmq : |(m : ℚ)| < 2 ^ (53 : ℤ) := by
    have : ((|m| : ℤ) : ℚ) < ((2 ^ 53 : ℤ) : ℚ) := by exact_mod_cast hm
    rw [← Int.cast_abs]
    exact this.trans_eq (by norm_num)
  have hlt : |(m : ℚ) * 2 ^ e| < ((2 : ℕ) : ℚ) ^ (53 + e) := by
    rw [abs_mul, abs_of_pos (two_zpow_pos e), Nat.cast_ofNat, zpow_add₀ (by norm_num)]
    exact mul_lt_mul_of_pos_right hmq (two_zpow_pos e)
  have hlog := (Int.lt_zpow_iff_log_lt (by norm_num) hpos).mp hlt
  unfold quantumExponent
  omega

theorem round64_eq_self {q : ℚ} (h : ∃ m e : ℤ, |m| < 2 ^ 53 ∧ -1074 ≤ e ∧ q = m * 2 ^ e) :
    round64 q = q := by
  obtain ⟨m, e, hm, he, hq⟩ := h
  rcases eq_or_ne m 0 with rfl | hm0
  · simp only [hq, Int.cast_zero, zero_mul, round64_zero]
  · have hle := quantumExponent_le hm hm0 he
    rw [← hq] at hle
    obtain ⟨d, hd⟩ := Int.le.dest hle
    have hquot : q / 2 ^ quantumExponent q = ((m * 2 ^ d : ℤ) : ℚ) := by
      have hsplit : (2 : ℚ) ^ e = 2 ^ quantumExponent q * 2 ^ d := by
        rw [← hd, zpow_add₀ (by norm_num), zpow_natCast]
      rw [div_eq_iff (two_zpow_pos _).ne']
      calc q = m * (2 ^ quantumExponent q * 2 ^ d) := by rw [← hsplit, hq]
        _ = _ := by push_cast; ring
    rw [round64, hquot, roundHalfEven_intCast, ← hquot, div_mul_cancel₀ _ (two_zpow_pos _).ne']

theorem quantumExponent_mono {q r : ℚ} (hq : 0 < q) (h : q ≤ r) :
    quantumExponent q ≤ quantumExponent r := by
  have hlog : Int.log 2 |q| ≤ Int.log 2 |r| := by
    rw [abs_of_pos hq, abs_of_pos (hq.trans_le h)]
    exact Int.log_mono_right hq h
  unfold quantumExponent
  omega

theorem round64_nonneg {q : ℚ} (h : 0 ≤ q) : 0 ≤ round64 q := by
  have hr : (0 : ℤ) ≤ roundHalfEven (q / 2 ^ quantumExponent q) :=
    roundHalfEven_ge_of_intCast_le (by simpa using div_nonneg h (two_zpow_pos _).le)
  exact mul_nonneg (by exact_mod_cast hr) (two_zpow_pos _).le

/-- A larger magnitude in a higher binade rounds to at least the binade's first value, which
the smaller one cannot pass. -/
theorem round64_mono {q r : ℚ} (hq : 0 ≤ q) (h : q ≤ r) : round64 q ≤ round64 r := by
  rcases hq.eq_or_lt with rfl | hpos
  · rw [round64_zero]
    exact round64_nonneg h
  rcases (quantumExponent_mono hpos h).eq_or_lt with he | hlt
  · have hdiv : q / 2 ^ quantumExponent q ≤ r / 2 ^ quantumExponent r := by
      rw [he]
      exact div_le_div_of_nonneg_right h (two_zpow_pos _).le
    have hle : ((roundHalfEven (q / 2 ^ quantumExponent q) : ℤ) : ℚ) ≤
        roundHalfEven (r / 2 ^ quantumExponent r) := by exact_mod_cast roundHalfEven_mono hdiv
    unfold round64
    rw [he] at hle ⊢
    exact mul_le_mul_of_nonneg_right hle (two_zpow_pos _).le
  · have hexp : quantumExponent r = Int.log 2 |r| - 52 := by
      have := le_max_right (Int.log 2 |q| - 52) (-1074)
      unfold quantumExponent at hlt ⊢
      omega
    have hrpos := hpos.trans_le h
    have hfirst : (2 : ℚ) ^ (52 : ℤ) ≤ r / 2 ^ quantumExponent r := by
      rw [le_div_iff₀ (two_zpow_pos _), ← zpow_add₀ (by norm_num), hexp, abs_of_pos hrpos]
      have := Int.zpow_log_le_self (R := ℚ) (b := 2) (by norm_num) hrpos
      simpa using this
    have hr : (2 ^ 52 : ℤ) ≤ roundHalfEven (r / 2 ^ quantumExponent r) :=
      roundHalfEven_ge_of_intCast_le (by push_cast; exact_mod_cast hfirst)
    have hq53 : roundHalfEven (q / 2 ^ quantumExponent q) ≤ 2 ^ 53 :=
      roundHalfEven_le_of_le_intCast (le_of_lt ((le_abs_self _).trans_lt (abs_div_quantum_lt q)))
    obtain ⟨d, hd⟩ := Int.le.dest (Int.add_one_le_iff.mpr hlt)
    have hbinade : (2 : ℚ) * 2 ^ quantumExponent q ≤ 2 ^ quantumExponent r := by
      rw [← hd, zpow_add₀ (by norm_num), zpow_add₀ (by norm_num), zpow_one, zpow_natCast, mul_comm 2]
      exact le_mul_of_one_le_right (mul_nonneg (two_zpow_pos _).le (by norm_num)) (one_le_pow₀ (by norm_num))
    calc round64 q ≤ (2 ^ 53 : ℤ) * 2 ^ quantumExponent q :=
          mul_le_mul_of_nonneg_right (by exact_mod_cast hq53) (two_zpow_pos _).le
      _ = 2 ^ 52 * (2 * 2 ^ quantumExponent q) := by push_cast; ring
      _ ≤ 2 ^ 52 * 2 ^ quantumExponent r := mul_le_mul_of_nonneg_left hbinade (by norm_num)
      _ ≤ round64 r := mul_le_mul_of_nonneg_right (by exact_mod_cast hr) (two_zpow_pos _).le

/-- One rounding moves a value by at most half a unit in the last place. -/
theorem abs_round64_sub_le (q : ℚ) : |round64 q - q| ≤ 2 ^ quantumExponent q / 2 := by
  have hpos := two_zpow_pos (quantumExponent q)
  have hh := abs_roundHalfEven_sub_le (q / 2 ^ quantumExponent q)
  have heq : round64 q - q =
      (roundHalfEven (q / 2 ^ quantumExponent q) - q / 2 ^ quantumExponent q) *
        2 ^ quantumExponent q := by
    rw [sub_mul, div_mul_cancel₀ _ hpos.ne', round64]
  rw [heq, abs_mul, abs_of_pos hpos]
  calc _ ≤ 1 / 2 * (2 : ℚ) ^ quantumExponent q := mul_le_mul_of_nonneg_right hh hpos.le
    _ = _ := by ring

theorem quantum_le_of_one_le {q : ℚ} (h : 1 ≤ |q|) : (2 : ℚ) ^ quantumExponent q ≤ |q| / 2 ^ 52 := by
  have hlog : (0 : ℤ) ≤ Int.log 2 |q| := by
    have := Int.log_mono_right (b := 2) (by norm_num : (0 : ℚ) < 1) h
    simpa using this
  have hexp : quantumExponent q = Int.log 2 |q| - 52 := by
    unfold quantumExponent
    omega
  have hpow : (2 : ℚ) ^ Int.log 2 |q| ≤ |q| := by
    simpa using Int.zpow_log_le_self (R := ℚ) (b := 2) (by norm_num) (by linarith : 0 < |q|)
  rw [hexp, zpow_sub₀ (by norm_num)]
  exact div_le_div_of_nonneg_right hpow (by positivity)

/-- A binary64 value; the two zeros are one, as no operation below tells them apart. -/
inductive F64 where
  | nan
  | inf (negative : Bool)
  | fin (q : ℚ) (valid : Representable q)
  deriving DecidableEq

namespace F64

def ofRat (q : ℚ) : F64 :=
  if h : |round64 q| < 2 ^ 1024 then fin (round64 q) ⟨h, round64_grid q⟩ else inf (decide (q < 0))

def neg : F64 → F64
  | nan => nan
  | inf s => inf !s
  | fin q _ => ofRat (-q)

def add : F64 → F64 → F64
  | nan, _ | _, nan => nan
  | inf s, inf t => if s = t then inf s else nan
  | inf s, fin _ _ | fin _ _, inf s => inf s
  | fin p _, fin q _ => ofRat (p + q)

def sub (a b : F64) : F64 := add a (neg b)

def mul : F64 → F64 → F64
  | nan, _ | _, nan => nan
  | inf s, inf t => inf (s != t)
  | inf s, fin q _ | fin q _, inf s => if q = 0 then nan else inf (s != decide (q < 0))
  | fin p _, fin q _ => ofRat (p * q)

def div : F64 → F64 → F64
  | nan, _ | _, nan => nan
  | inf _, inf _ => nan
  | inf s, fin q _ => inf (s != decide (q < 0))
  | fin _ _, inf _ => ofRat 0
  | fin p _, fin q _ =>
    if q = 0 then (if p = 0 then nan else inf (decide (p < 0))) else ofRat (p / q)

def ltb : F64 → F64 → Bool
  | nan, _ | _, nan => false
  | inf s, inf t => s && !t
  | inf s, fin _ _ => s
  | fin _ _, inf s => !s
  | fin p _, fin q _ => decide (p < q)

def leb : F64 → F64 → Bool
  | nan, _ | _, nan => false
  | inf s, inf t => s || !t
  | inf s, fin _ _ => s
  | fin _ _, inf s => !s
  | fin p _, fin q _ => decide (p ≤ q)

instance : NatCast F64 := ⟨fun n => ofRat n⟩
instance : Neg F64 := ⟨neg⟩
instance : Add F64 := ⟨add⟩
instance : Sub F64 := ⟨sub⟩
instance : Mul F64 := ⟨mul⟩
instance : Div F64 := ⟨div⟩
instance : LT F64 := ⟨fun a b => a.ltb b = true⟩
instance : LE F64 := ⟨fun a b => a.leb b = true⟩
instance : DecidableLT F64 := fun a b => inferInstanceAs (Decidable (a.ltb b = true))
instance : DecidableLE F64 := fun a b => inferInstanceAs (Decidable (a.leb b = true))

/-- The saturating `as u64` cast. -/
def toU64 : F64 → Nat
  | nan => 0
  | inf s => if s then 0 else 2 ^ 64 - 1
  | fin q _ => min ⌊q⌋.toNat (2 ^ 64 - 1)

@[simp] theorem fin_le_fin {p q : ℚ} {hp : Representable p} {hq : Representable q} :
    fin p hp ≤ fin q hq ↔ p ≤ q := decide_eq_true_iff

theorem fin_mul_fin {p q : ℚ} {hp : Representable p} {hq : Representable q} :
    fin p hp * fin q hq = ofRat (p * q) := by
  show mul (fin p hp) (fin q hq) = ofRat (p * q)
  rw [mul]

theorem fin_div_fin {p q : ℚ} {hp : Representable p} {hq : Representable q} (h : q ≠ 0) :
    fin p hp / fin q hq = ofRat (p / q) := if_neg h

theorem ofRat_eq_fin {q : ℚ} (h : Representable q) : ofRat q = fin q h := by
  have hr := round64_eq_self h.2
  unfold ofRat
  rw [dif_pos (by rw [hr]; exact h.1)]
  congr

/-- A representable value below `2 ^ 64` is at most the last one, `2 ^ 64 - 2048`. -/
theorem representable_floor_lt {q : ℚ} (h : Representable q) (hq : q < 2 ^ 64) :
    ⌊q⌋ < 2 ^ 64 - 1 := by
  rcases le_or_gt q (2 ^ 63) with hle | hgt
  · have : ⌊q⌋ ≤ 2 ^ 63 := by
      have := Int.floor_le_floor hle
      exact this.trans (by norm_num)
    omega
  · obtain ⟨-, m, e, hm, -, rfl⟩ := h
    have hmq : (m : ℚ) ≤ 2 ^ 53 := by
      have : m ≤ 2 ^ 53 := (le_abs_self m).trans hm.le
      exact_mod_cast this
    have he : 11 ≤ e := by
      by_contra hc
      have hpow : (2 : ℚ) ^ e ≤ 2 ^ (10 : ℤ) := zpow_le_zpow_right₀ (by norm_num) (by omega)
      have hprod : (m : ℚ) * 2 ^ e ≤ 2 ^ 53 * 2 ^ (10 : ℤ) :=
        mul_le_mul hmq hpow (two_zpow_pos e).le (by norm_num)
      norm_num at hprod hgt
      linarith
    obtain ⟨d, rfl⟩ := Int.le.dest he
    have hval : (m : ℚ) * 2 ^ ((11 : ℤ) + d) = ((2048 * (m * 2 ^ d) : ℤ) : ℚ) := by
      rw [zpow_add₀ (by norm_num), zpow_natCast]
      push_cast
      ring
    rw [hval] at hq ⊢
    rw [Int.floor_intCast]
    have hint : 2048 * (m * 2 ^ d) < (2 ^ 64 : ℤ) := by exact_mod_cast hq
    omega

end F64

end KeepAt
