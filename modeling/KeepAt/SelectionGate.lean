import KeepAt.Displace
import Mathlib.Algebra.Order.Ring.Pow
import Mathlib.Algebra.Order.Field.Basic
import Mathlib.Tactic.NormNum

namespace KeepAt

section Power

variable {F : Type} [Field F]

/-- The loop multiplies its result by the power that is left. -/
theorem powiLoop_eq (fuel : Nat) (a r : F) {n : Nat} (h : n < 2 ^ fuel) :
    powiLoop fuel a r n = r * a ^ n := by
  induction fuel generalizing a r n with
  | zero =>
    obtain rfl : n = 0 := by omega
    rw [powiLoop, pow_zero, mul_one]
  | succ fuel ih =>
    have hhalf : n / 2 < 2 ^ fuel := by
      rw [pow_succ] at h
      omega
    have hsquare : (a * a) ^ (n / 2) = a ^ (2 * (n / 2)) := by rw [pow_mul, pow_two]
    have hodd : (if n % 2 = 1 then r * a else r) = r * a ^ (n % 2) := by
      rcases Nat.mod_two_eq_zero_or_one n with hmod | hmod
      · rw [hmod, if_neg (by simp), pow_zero, mul_one]
      · rw [hmod, if_pos rfl, pow_one]
    have hsplit : r * a ^ (n % 2) * a ^ (2 * (n / 2)) = r * a ^ n := by
      rw [mul_assoc, ← pow_add, Nat.mod_add_div]
    simp only [powiLoop, hodd]
    split
    next hzero => rw [← hsplit, hzero, mul_zero, pow_zero, mul_one]
    next => rw [ih _ _ hhalf, hsquare, hsplit]

theorem powi_eq_pow (a : F) {n : Nat} (h : n < 2 ^ 32) : powi a n = a ^ n := by
  rw [powi, powiLoop_eq 32 a _ h, Nat.cast_one, one_mul]

def exponentOf (seeders seederFloor : Nat) : Nat := min (max seeders 1 - max seederFloor 1) i32Max

theorem selectionChance_eq_pow (a : F) (seeders seederFloor : Nat) :
    selectionChance a seeders seederFloor = a ^ exponentOf seeders seederFloor := by
  refine powi_eq_pow a ?_
  unfold i32Max
  omega

end Power

section Chance

variable {F : Type} [Field F] [LinearOrder F] [IsStrictOrderedRing F] {a : F} {s s' f f' : Nat}

theorem selectionChance_pos (hpos : 0 < a) : 0 < selectionChance a s f := by
  rw [selectionChance_eq_pow]
  exact pow_pos hpos _

theorem selectionChance_le_one (hpos : 0 < a) (hlt : a < 1) : selectionChance a s f ≤ 1 := by
  rw [selectionChance_eq_pow]
  exact pow_le_one₀ hpos.le hlt.le

theorem selectionChance_eq_one (hpos : 0 < a) (hlt : a < 1) : selectionChance a s f = 1 ↔ s ≤ max f 1 := by
  rw [selectionChance_eq_pow]
  constructor
  · intro hone
    by_contra hnot
    have hexp : exponentOf s f ≠ 0 := by
      unfold exponentOf i32Max
      omega
    exact absurd hone (pow_lt_one₀ hpos.le hlt hexp).ne
  · intro hle
    have hexp : exponentOf s f = 0 := by
      unfold exponentOf
      omega
    rw [hexp, pow_zero]

theorem selectionChance_mono (hpos : 0 < a) (hlt : a < 1) (hs : s' ≤ s) (hf : f ≤ f') :
    selectionChance a s f ≤ selectionChance a s' f' := by
  have hexp : exponentOf s' f' ≤ exponentOf s f := by
    unfold exponentOf
    omega
  rw [selectionChance_eq_pow, selectionChance_eq_pow]
  exact pow_le_pow_of_le_one hpos.le hlt.le hexp

theorem selectionChance_strictAnti (hpos : 0 < a) (hlt : a < 1) (hs : max f 1 ≤ s) (hss : s < s')
    (clamp : s' ≤ max f 1 + i32Max) : selectionChance a s' f < selectionChance a s f := by
  have hexp : exponentOf s f < exponentOf s' f := by
    unfold exponentOf
    omega
  rw [selectionChance_eq_pow, selectionChance_eq_pow]
  exact pow_lt_pow_right_of_lt_one₀ hpos hlt hexp

end Chance

theorem meetsSeedMargin_mono {seeders seeders' : Nat} {displaced : List Held} {margin : Int}
    (hs : seeders' ≤ seeders) (h : meetsSeedMargin seeders displaced margin = true) :
    meetsSeedMargin seeders' displaced margin = true := by
  unfold meetsSeedMargin at h ⊢
  split at h
  next => rfl
  next minDisplaced _ =>
    have hle := of_decide_eq_true h
    exact decide_eq_true (by omega)

/-- What the gate lets through it also lets through with fewer seeders, as long as there is one, and over a
higher floor. Its chance is 1 up to the floor, and falls with every seeder above it until the exponent is at
its largest. -/
theorem selection_gate_monotone (aggressiveness : ℚ) (hpos : 0 < aggressiveness) (hlt : aggressiveness < 1) :
    (∀ (c : Candidate) (displaced : List Held) (margin : Int) (roll : ℚ) (seeders seederFloor : Nat),
      (evaluateSwap c displaced margin aggressiveness roll).shouldSwap = true →
      1 ≤ seeders → seeders ≤ c.seeders → c.seederFloor ≤ seederFloor →
      (evaluateSwap { c with seeders, seederFloor } displaced margin aggressiveness roll).shouldSwap = true) ∧
    (∀ s f : Nat, 0 < selectionChance aggressiveness s f ∧ selectionChance aggressiveness s f ≤ 1 ∧
      (selectionChance aggressiveness s f = 1 ↔ s ≤ max f 1)) ∧
    ∀ s s' f : Nat, max f 1 ≤ s → s < s' →
      (s' ≤ max f 1 + i32Max → selectionChance aggressiveness s' f < selectionChance aggressiveness s f) ∧
      (max f 1 + i32Max ≤ s → selectionChance aggressiveness s' f = selectionChance aggressiveness s f) := by
  refine ⟨?_, fun s f => ?_, fun s s' f hs hss => ⟨selectionChance_strictAnti hpos hlt hs hss, ?_⟩⟩
  · intro c displaced margin roll seeders seederFloor hswap hseeded hseeders hfloor
    obtain ⟨-, hmargin, hroll⟩ := evaluateSwap_shouldSwap.mp hswap
    have hchance := selectionChance_mono hpos hlt hseeders hfloor
    exact evaluateSwap_shouldSwap.mpr
      ⟨decide_eq_true hseeded, meetsSeedMargin_mono hseeders hmargin, hroll.trans_le hchance⟩
  · exact ⟨selectionChance_pos hpos, selectionChance_le_one hpos hlt, selectionChance_eq_one hpos hlt⟩
  · intro hclamp
    have hexp : exponentOf s' f = exponentOf s f := by
      unfold exponentOf
      omega
    rw [selectionChance_eq_pow, selectionChance_eq_pow, hexp]

theorem selection_gate_monotone_half :
    selectionChance (1 / 2 : ℚ) 5 2 < selectionChance (1 / 2 : ℚ) 4 2 ∧
      selectionChance (1 / 2 : ℚ) 5 2 = 1 / 8 := by
  obtain ⟨-, -, hanti⟩ := selection_gate_monotone (1 / 2) (by norm_num) (by norm_num)
  exact ⟨(hanti 4 5 2 (by decide) (by decide)).1 (by decide), by decide +kernel⟩

end KeepAt
