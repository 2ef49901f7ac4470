import Mathlib.Algebra.Order.Group.Defs
import Mathlib.Data.List.Pairwise

namespace KeepAt

/-- How far the holder of a gate is with its turn. -/
inductive Turn (τ : Type*) where
  | entered
  | sleeping (wake : τ)
  | ready

/-- A gate that one caller at a time passes, no sooner than `nextAllowed`. `grants` lists who passed it and
when, the last one at the end. -/
structure Gate (ι τ : Type*) where
  clock : τ
  nextAllowed : τ
  turn : Option (ι × Turn τ)
  grants : List (ι × τ)

inductive GateEvent (ι : Type*) where
  | silent
  | enter (i : ι)
  | grant (i : ι)
  | leave (i : ι)

variable {ι τ : Type*} [LinearOrder τ]

def Turn.Due (turn : Turn τ) (nextAllowed clock : τ) : Prop :=
  match turn with
  | .entered => True
  | .sleeping wake => nextAllowed ≤ wake
  | .ready => nextAllowed ≤ clock

theorem Turn.Due.later {turn : Turn τ} {next clock now : τ} (h : turn.Due next clock) (later : clock ≤ now) :
    turn.Due next now := by
  cases turn with
  | entered => trivial
  | sleeping wake => exact h
  | ready => exact le_trans h later

variable [AddCommGroup τ]

/-- A caller that finds the gate early sleeps for the rest of the gap, counted from when it falls asleep. -/
inductive GateStep (gap : τ) (g : Gate ι τ) : GateEvent ι → Gate ι τ → Prop
  | elapse (now : τ) (later : g.clock ≤ now) : GateStep gap g .silent { g with clock := now }
  | enter (i : ι) (free : g.turn = none) : GateStep gap g (.enter i) { g with turn := some (i, .entered) }
  | sleep (i : ι) (now : τ) (held : g.turn = some (i, .entered)) (early : g.clock < g.nextAllowed)
      (later : g.clock ≤ now) :
      GateStep gap g .silent
        { g with clock := now, turn := some (i, .sleeping (now + (g.nextAllowed - g.clock))) }
  | pass (i : ι) (held : g.turn = some (i, .entered)) (due : g.nextAllowed ≤ g.clock) :
      GateStep gap g .silent { g with turn := some (i, .ready) }
  | wake (i : ι) (wake : τ) (held : g.turn = some (i, .sleeping wake)) (due : wake ≤ g.clock) :
      GateStep gap g .silent { g with turn := some (i, .ready) }
  | grant (i : ι) (held : g.turn = some (i, .ready)) :
      GateStep gap g (.grant i)
        { g with nextAllowed := g.clock + gap, turn := none, grants := g.grants ++ [(i, g.clock)] }
  | leave (i : ι) (turn : Turn τ) (held : g.turn = some (i, turn)) :
      GateStep gap g (.leave i) { g with turn := none }

/-- Grants are a gap apart, and the next one will be a gap away from all of them. -/
structure GateSound (gap : τ) (g : Gate ι τ) : Prop where
  spaced : g.grants.Pairwise fun a b => a.2 + gap ≤ b.2
  next : ∀ p ∈ g.grants, p.2 + gap ≤ g.nextAllowed
  past : ∀ p ∈ g.grants, p.2 ≤ g.clock
  due : ∀ i turn, g.turn = some (i, turn) → turn.Due g.nextAllowed g.clock

variable {gap : τ} {g g' : Gate ι τ} {event : GateEvent ι}

theorem GateStep.clock_le (step : GateStep gap g event g') : g.clock ≤ g'.clock := by
  cases step with
  | elapse now later => exact later
  | sleep i now held early later => exact later
  | enter i free => exact le_rfl
  | pass i held due => exact le_rfl
  | wake i wake held due => exact le_rfl
  | grant i held => exact le_rfl
  | leave i turn held => exact le_rfl

/-- Only a grant adds to the grants. -/
theorem GateStep.grants (step : GateStep gap g event g') :
    g'.grants = g.grants ∨ ∃ i, event = .grant i ∧ g'.grants = g.grants ++ [(i, g.clock)] := by
  cases step with
  | grant i held => exact Or.inr ⟨i, rfl, rfl⟩
  | elapse now later => exact Or.inl rfl
  | sleep i now held early later => exact Or.inl rfl
  | enter i free => exact Or.inl rfl
  | pass i held due => exact Or.inl rfl
  | wake i wake held due => exact Or.inl rfl
  | leave i turn held => exact Or.inl rfl

def Gate.holder (g : Gate ι τ) : Option ι := g.turn.map Prod.fst

def GateEvent.holderAfter (event : GateEvent ι) (holder : Option ι) : Option ι :=
  match event with
  | .silent => holder
  | .enter i => some i
  | .grant _ | .leave _ => none

/-- The turn passes from one caller to the next by their entering and leaving. -/
theorem GateStep.holder (step : GateStep gap g event g') : g'.holder = event.holderAfter g.holder := by
  cases step with
  | elapse now later => rfl
  | enter i free => rfl
  | sleep i now held early later => exact (congrArg (Option.map Prod.fst) held).symm
  | pass i held due => exact (congrArg (Option.map Prod.fst) held).symm
  | wake i wake held due => exact (congrArg (Option.map Prod.fst) held).symm
  | grant i held => rfl
  | leave i turn held => rfl

theorem GateStep.grant_held {i : ι} (step : GateStep gap g (.grant i) g') : g.holder = some i := by
  cases step with
  | grant i held => exact congrArg (Option.map Prod.fst) held

/-- A step of the turn alone. -/
theorem GateSound.turn (h : GateSound gap g) {turn : Option (ι × Turn τ)}
    (due : ∀ i t, turn = some (i, t) → t.Due g.nextAllowed g.clock) :
    GateSound gap { g with turn := turn } :=
  ⟨h.spaced, h.next, h.past, due⟩

theorem gateSound_of_fresh (fresh : g.grants = []) (free : g.turn = none) : GateSound gap g := by
  refine ⟨?_, ?_, ?_, ?_⟩
  · rw [fresh]
    exact List.Pairwise.nil
  · rw [fresh]
    exact nofun
  · rw [fresh]
    exact nofun
  · rw [free]
    exact nofun

variable [IsOrderedAddMonoid τ]

theorem GateSound.grant (h : GateSound gap g) (positive : 0 ≤ gap) {i : ι}
    (held : g.turn = some (i, .ready)) :
    GateSound gap { g with nextAllowed := g.clock + gap, turn := none, grants := g.grants ++ [(i, g.clock)] } := by
  have hdue : g.nextAllowed ≤ g.clock := h.due i .ready held
  have hbefore : ∀ p ∈ g.grants, p.2 + gap ≤ g.clock := fun p hp => (h.next p hp).trans hdue
  have hafter : g.clock ≤ g.clock + gap := le_add_of_nonneg_right positive
  refine ⟨?_, fun p hp => ?_, fun p hp => ?_, nofun⟩
  · refine List.pairwise_append.mpr ⟨h.spaced, List.pairwise_singleton _ _, fun p hp q hq => ?_⟩
    rw [List.mem_singleton.mp hq]
    exact hbefore p hp
  · rcases List.mem_append.mp hp with hp | hp
    · exact (hbefore p hp).trans hafter
    · rw [List.mem_singleton.mp hp]
  · rcases List.mem_append.mp hp with hp | hp
    · exact h.past p hp
    · rw [List.mem_singleton.mp hp]

theorem gateStep_sound (positive : 0 ≤ gap) (step : GateStep gap g event g') (h : GateSound gap g) :
    GateSound gap g' := by
  cases step with
  | elapse now later =>
    exact ⟨h.spaced, h.next, fun p hp => (h.past p hp).trans later, fun i t ht => (h.due i t ht).later later⟩
  | enter i free =>
    refine h.turn fun j t ht => ?_
    obtain ⟨-, rfl⟩ := Prod.mk.inj (Option.some.inj ht)
    trivial
  | sleep i now held early later =>
    refine ⟨h.spaced, h.next, fun p hp => (h.past p hp).trans later, fun j t ht => ?_⟩
    obtain ⟨-, rfl⟩ := Prod.mk.inj (Option.some.inj ht)
    have hwake : g.clock + (g.nextAllowed - g.clock) ≤ now + (g.nextAllowed - g.clock) :=
      add_le_add_left later _
    rw [add_sub_cancel] at hwake
    exact hwake
  | pass i held due =>
    refine h.turn fun j t ht => ?_
    obtain ⟨-, rfl⟩ := Prod.mk.inj (Option.some.inj ht)
    exact due
  | wake i wake held due =>
    refine h.turn fun j t ht => ?_
    obtain ⟨-, rfl⟩ := Prod.mk.inj (Option.some.inj ht)
    have hwake : g.nextAllowed ≤ wake := h.due i (.sleeping wake) held
    exact hwake.trans due
  | grant i held => exact h.grant positive held
  | leave i turn held => exact h.turn nofun

end KeepAt
