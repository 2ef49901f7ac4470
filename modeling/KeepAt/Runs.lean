import Mathlib.Logic.Relation
import Mathlib.Order.Defs.PartialOrder

namespace KeepAt

/-- What every step preserves, every run preserves. -/
theorem run_preserves {α : Type*} {step : α → α → Prop} {P : α → Prop}
    (preserves : ∀ {x y}, step x y → P x → P y) {x y : α} (run : Relation.ReflTransGen step x y)
    (start : P x) : P y := by
  induction run with
  | refl => exact start
  | tail _ hs ih => exact preserves hs ih

/-- A list that every step extends, every run extends. -/
theorem run_extends {α β : Type*} {step : α → α → Prop} {f : α → List β}
    (extends_ : ∀ {x y}, step x y → f x <+: f y) {x y : α} (run : Relation.ReflTransGen step x y) :
    f x <+: f y := by
  induction run with
  | refl => exact List.prefix_refl _
  | tail _ h ih => exact ih.trans (extends_ h)

/-- A measure that every step takes down, where the invariant holds, is lower after any run of at least
one step. -/
theorem run_lt {α β : Type*} [Preorder β] {step : α → α → Prop} {P : α → Prop} {f : α → β}
    (preserves : ∀ {x y}, step x y → P x → P y) (down : ∀ {x y}, step x y → P x → f y < f x) {x y : α}
    (run : Relation.TransGen step x y) (start : P x) : f y < f x := by
  induction run with
  | single h => exact down h start
  | tail hrun h ih => exact lt_trans (down h (run_preserves (P := P) preserves hrun.to_reflTransGen start)) ih

/-- The steps of a fold over a batch: an entry that does not hit leaves everything alone, and one that does
marks the batch as changed for good. -/
structure Batch {α β γ : Type*} (step : β × γ → α → β × γ) (hit : β → α → Bool) (changed : γ → Bool) :
    Prop where
  quiet : ∀ b c x, hit b x = false → step (b, c) x = (b, c)
  marks : ∀ b c x, hit b x = true → changed (step (b, c) x).2 = true
  keeps : ∀ acc x, changed acc.2 = true → changed (step acc x).2 = true

namespace Batch

variable {α β γ : Type*} {step : β × γ → α → β × γ} {hit : β → α → Bool} {changed : γ → Bool}
  {xs : List α} {b : β} {c : γ}

theorem foldl_quiet (batch : Batch step hit changed) (h : xs.any (hit b) = false) :
    xs.foldl step (b, c) = (b, c) := by
  induction xs with
  | nil => rfl
  | cons x xs ih =>
    rw [List.any_cons, Bool.or_eq_false_iff] at h
    rw [List.foldl_cons, batch.quiet b c x h.1]
    exact ih h.2

theorem foldl_marks (batch : Batch step hit changed) (h : xs.any (hit b) = true) :
    changed (xs.foldl step (b, c)).2 = true := by
  have kept : ∀ (ys : List α) (acc : β × γ), changed acc.2 = true → changed (ys.foldl step acc).2 = true := by
    intro ys
    induction ys with
    | nil => exact fun _ hp => hp
    | cons y ys ih => exact fun acc hp => ih _ (batch.keeps acc y hp)
  induction xs with
  | nil => simp at h
  | cons x xs ih =>
    rw [List.foldl_cons]
    cases hx : hit b x with
    | true => exact kept xs _ (batch.marks b c x hx)
    | false =>
      rw [List.any_cons, hx, Bool.false_or] at h
      rw [batch.quiet b c x hx]
      exact ih h

end Batch

end KeepAt
