import KeepAt.Runs

namespace KeepAt

variable {α β γ : Type*} {step : α → β → α → Prop} {x y z : α} {bs cs : List β}

/-- A run of labelled steps, with what was observed of it. -/
inductive Trace (step : α → β → α → Prop) : α → List β → α → Prop
  | refl (x : α) : Trace step x [] x
  | tail {x y z : α} {bs : List β} {b : β} (run : Trace step x bs y) (last : step y b z) :
      Trace step x (bs ++ [b]) z

theorem Trace.single {b : β} (h : step x b y) : Trace step x [b] y := .tail (.refl x) h

theorem Trace.imp {step' : α → β → α → Prop} (imp : ∀ {x b y}, step x b y → step' x b y)
    (h : Trace step x bs y) : Trace step' x bs y := by
  induction h with
  | refl => exact .refl x
  | tail _ last ih => exact ih.tail (imp last)

theorem Trace.trans (h : Trace step x bs y) (h' : Trace step y cs z) : Trace step x (bs ++ cs) z := by
  induction h' with
  | refl => rwa [List.append_nil]
  | tail _ last ih =>
    rw [← List.append_assoc]
    exact ih.tail last

/-- What every step preserves, every run preserves, with its observations. -/
theorem Trace.preserves {P : List β → α → Prop} (preserves : ∀ {bs x b y}, step x b y → P bs x → P (bs ++ [b]) y)
    (h : Trace step x bs y) (start : P [] x) : P bs y := by
  induction h with
  | refl => exact start
  | tail _ last ih => exact preserves last ih

theorem Trace.invariant {P : α → Prop} (preserves : ∀ {x b y}, step x b y → P x → P y)
    (h : Trace step x bs y) (start : P x) : P y :=
  h.preserves (P := fun _ => P) preserves start

/-- Each step of the one system is a step of the other with the same observation, and the states stay
related. -/
structure Simulation (step : α → β → α → Prop) (spec : γ → β → γ → Prop) (related : α → γ → Prop) : Prop where
  step : ∀ {x b y u}, step x b y → related x u → ∃ v, spec u b v ∧ related y v

/-- Whatever is observed of a run, is observed of a run of what it simulates. -/
theorem Simulation.run {spec : γ → β → γ → Prop} {related : α → γ → Prop} {u : γ}
    (sim : Simulation step spec related) (h : Trace step x bs y) (start : related x u) :
    ∃ v, Trace spec u bs v ∧ related y v := by
  induction h with
  | refl => exact ⟨u, .refl u, start⟩
  | tail _ last ih =>
    obtain ⟨v, hv, hrel⟩ := ih
    obtain ⟨w, hw, hrel'⟩ := sim.step last hrel
    exact ⟨w, hv.tail hw, hrel'⟩

end KeepAt
