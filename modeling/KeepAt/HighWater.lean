import Mathlib.Data.List.MinMax

namespace KeepAt

namespace HighWater

universe u v

variable {α : Type u} {τ : Type v} [LinearOrder α]

/-- A reading replaces the mark exactly when it is above it. -/
def raise (mark reading : α × τ) : α × τ := if mark.1 < reading.1 then reading else mark

def run (mark : α × τ) (readings : List (α × τ)) : α × τ := readings.foldl raise mark

/-- A reading above the mark the series started from and above every reading before it. -/
def IsRecord (mark : α × τ) (before : List (α × τ)) (reading : α × τ) : Prop :=
  mark.1 < reading.1 ∧ ∀ q ∈ before, q.1 < reading.1

theorem run_concat (mark : α × τ) (readings : List (α × τ)) (r : α × τ) :
    run mark (readings ++ [r]) = raise (run mark readings) r := by
  simp only [run, List.foldl_append, List.foldl_cons, List.foldl_nil]

theorem raise_fst (mark r : α × τ) : (raise mark r).1 = max mark.1 r.1 := by
  unfold raise
  split
  next h => exact (max_eq_right h.le).symm
  next h => exact (max_eq_left (not_lt.mp h)).symm

/-- The value of the mark is the maximum of where it started and of all readings. -/
theorem run_fst (mark : α × τ) (readings : List (α × τ)) :
    (run mark readings).1 = (readings.map Prod.fst).foldl max mark.1 := by
  induction readings generalizing mark with
  | nil => rfl
  | cons r rs ih =>
    have hstep := ih (raise mark r)
    rw [raise_fst] at hstep
    exact hstep

theorem run_fst_lt_iff {mark r : α × τ} {readings : List (α × τ)} :
    (run mark readings).1 < r.1 ↔ IsRecord mark readings r := by
  induction readings using List.reverseRecOn with
  | nil => exact ⟨fun h => ⟨h, by simp⟩, And.left⟩
  | append_singleton rs q ih =>
    rw [run_concat, raise_fst, max_lt_iff, ih]
    simp only [IsRecord, List.forall_mem_append, List.forall_mem_singleton, and_assoc]

/-- The mark is where the series started as long as no reading is a record, and the last record after
that. -/
theorem run_last_record (mark : α × τ) (readings : List (α × τ)) :
    (run mark readings = mark ∧ ∀ before r after, readings = before ++ r :: after → ¬IsRecord mark before r) ∨
    ∃ before r after, readings = before ++ r :: after ∧ IsRecord mark before r ∧
      (∀ q ∈ after, q.1 ≤ r.1) ∧ run mark readings = r := by
  induction readings using List.reverseRecOn with
  | nil => exact .inl ⟨rfl, by simp⟩
  | append_singleton rs q ih =>
    rw [run_concat]
    by_cases hq : (run mark rs).1 < q.1
    · exact .inr ⟨rs, q, [], rfl, run_fst_lt_iff.mp hq, by simp, if_pos hq⟩
    · have hkept : raise (run mark rs) q = run mark rs := if_neg hq
      rw [hkept]
      rcases ih with ⟨hmark, hnone⟩ | ⟨before, r, after, rfl, hrec, hafter, hrun⟩
      · refine .inl ⟨hmark, fun before r after hsplit hrec => ?_⟩
        rcases List.eq_nil_or_concat after with rfl | ⟨tail, last, rfl⟩
        · obtain ⟨rfl, hlast⟩ := List.append_inj' hsplit rfl
          obtain rfl := List.singleton_inj.mp hlast
          exact hq (run_fst_lt_iff.mpr hrec)
        · rw [List.concat_eq_append, ← List.cons_append, ← List.append_assoc] at hsplit
          obtain ⟨hinit, _⟩ := List.append_inj' hsplit rfl
          exact hnone before r tail hinit hrec
      · refine .inr ⟨before, r, after ++ [q], by simp, hrec, fun p hp => ?_, hrun⟩
        rcases List.mem_append.mp hp with hp | hp
        · exact hafter p hp
        · obtain rfl := List.mem_singleton.mp hp
          rw [hrun] at hq
          exact not_lt.mp hq

end HighWater

end KeepAt
