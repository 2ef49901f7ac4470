import Mathlib.Algebra.BigOperators.Group.List.Basic
import Mathlib.Algebra.GroupWithZero.Nat
import Mathlib.Algebra.Order.BigOperators.Group.List

namespace KeepAt

/-- `u64::MAX`. Fixed-width values are natural numbers; an operation that can leave the range
states what the width makes of it. -/
def u64Max : Nat := 2 ^ 64 - 1

def u32Max : Nat := 2 ^ 32 - 1

def saturatingAdd (a b : Nat) : Nat := min (a + b) u64Max

def saturatingMul (a b : Nat) : Nat := min (a * b) u64Max

/-- A release-profile sum of `u64` values: the accumulator wraps. -/
def wrappingSum (xs : List Nat) : Nat := xs.sum % 2 ^ 64

/-- The `as i64` cast of a `u64`. -/
def asI64 (n : Nat) : Int :=
  if n % 2 ^ 64 < 2 ^ 63 then (n % 2 ^ 64 : Nat) else (n % 2 ^ 64 : Nat) - 2 ^ 64

theorem saturatingAdd_le_add (a b : Nat) : saturatingAdd a b ≤ a + b := min_le_left _ _

theorem saturatingAdd_le_max (a b : Nat) : saturatingAdd a b ≤ u64Max := min_le_right _ _

theorem le_saturatingAdd {k a b : Nat} (h : k ≤ a + b) (hk : k ≤ u64Max) : k ≤ saturatingAdd a b :=
  le_min h hk

theorem saturatingAdd_eq {a b : Nat} (h : a + b ≤ u64Max) : saturatingAdd a b = a + b :=
  min_eq_left h

theorem saturatingAdd_eq_of_lt_max {a b : Nat} (h : saturatingAdd a b < u64Max) :
    saturatingAdd a b = a + b := by
  unfold saturatingAdd at h ⊢
  omega

theorem le_add_of_le_saturatingAdd {n a b : Nat} (h : n ≤ saturatingAdd a b) : n ≤ a + b :=
  h.trans (saturatingAdd_le_add a b)

theorem wrappingSum_eq {xs : List Nat} (h : xs.sum ≤ u64Max) : wrappingSum xs = xs.sum := by
  unfold wrappingSum
  unfold u64Max at h
  omega

theorem asI64_of_lt {n : Nat} (h : n < 2 ^ 63) : asI64 n = n := by
  have hm : n % 2 ^ 64 = n := Nat.mod_eq_of_lt (by omega)
  simp only [asI64, hm, if_pos h]

theorem foldl_saturatingAdd (xs : List Nat) {start : Nat} (hs : start ≤ u64Max) :
    xs.foldl saturatingAdd start = min (start + xs.sum) u64Max := by
  induction xs generalizing start with
  | nil => simp [hs]
  | cons x xs ih =>
    rw [List.foldl_cons, ih (saturatingAdd_le_max start x), List.sum_cons]
    unfold saturatingAdd
    omega

end KeepAt
