import KeepAt.Runs
import Mathlib.Algebra.Order.Group.Nat
import Mathlib.Data.List.Basic

namespace KeepAt

variable {V : Type*}

/-- A fresh reading of what a cell stands for: from when to when it was taken, and its value. -/
structure TtlReading (V : Type*) where
  start : Nat
  stop : Nat
  value : V

/-- A cell that keeps the last reading for some time, behind a lock that whoever reads afresh holds. `reading`
is since when. `seed` is what the cell was given at its start. -/
structure TtlCell (V : Type*) where
  now : Nat
  slot : Option (Nat × V)
  reading : Option Nat
  seed : Option (Nat × V)
  readings : List (TtlReading V)

namespace TtlCell

def start (now : Nat) (seed : Option V) : TtlCell V :=
  { now, slot := seed.map (now, ·), reading := none, seed := seed.map (now, ·), readings := [] }

def wait (c : TtlCell V) (d : Nat) : TtlCell V := { c with now := c.now + d }

/-- What the cell answers without a fresh reading. -/
def fresh (c : TtlCell V) (ttl : Nat) : Option V :=
  match c.slot with
  | some (stamp, v) => if c.now - stamp < ttl then some v else none
  | none => none

def beginReading (c : TtlCell V) : TtlCell V := { c with reading := some c.now }

def finishReading (c : TtlCell V) (since : Nat) (v : V) : TtlCell V :=
  { c with slot := some (c.now, v), reading := none, readings := c.readings ++ [⟨since, c.now, v⟩] }

/-- What others do with a cell: time passes, and whoever has the lock begins a reading if there is none that is
fresh, and finishes it. -/
inductive Step (ttl : Nat) (c : TtlCell V) : TtlCell V → Prop
  | wait (d : Nat) : Step ttl c (c.wait d)
  | begin_ (free : c.reading = none) (stale : c.fresh ttl = none) : Step ttl c c.beginReading
  | finish (since : Nat) (v : V) (reading : c.reading = some since) : Step ttl c (c.finishReading since v)

/-- The stamps and values that the cell has had: the seed, and the readings as they ended. -/
def stamped (c : TtlCell V) : List (Nat × V) := c.seed.toList ++ c.readings.map fun r => (r.stop, r.value)

/-- The slot holds the latest of what the cell has had, and fresh readings keep their distance from all that was
there before. -/
structure Sound (ttl : Nat) (c : TtlCell V) : Prop where
  slot : ∀ p ∈ c.slot, p.1 ≤ c.now ∧ p ∈ c.stamped
  latest : ∀ p ∈ c.stamped, ∃ q ∈ c.slot, p.1 ≤ q.1
  reading : ∀ since ∈ c.reading, since ≤ c.now ∧ ∀ p ∈ c.slot, p.1 + ttl ≤ since
  seeded : ∀ p ∈ c.seed, ∀ r ∈ c.readings, p.1 + ttl ≤ r.start
  spaced : c.readings.Pairwise fun r r' => r.stop + ttl ≤ r'.start
  ordered : ∀ r ∈ c.readings, r.start ≤ r.stop

variable {ttl : Nat} {c c' : TtlCell V}

theorem start_sound (ttl now : Nat) (seed : Option V) : (start now seed).Sound ttl where
  slot p hp := by
    obtain ⟨v, hv, rfl⟩ := Option.map_eq_some_iff.mp hp
    exact ⟨le_refl now, by simp [stamped, start, hv]⟩
  latest p hp := ⟨p, by simpa [stamped, start] using hp, le_rfl⟩
  reading since h := by cases h
  seeded p _ r hr := absurd hr List.not_mem_nil
  spaced := List.Pairwise.nil
  ordered r hr := absurd hr List.not_mem_nil

theorem mem_stamped_of_reading {r : TtlReading V} (h : r ∈ c.readings) : (r.stop, r.value) ∈ c.stamped :=
  List.mem_append_right _ (List.mem_map_of_mem h)

theorem mem_stamped_of_seed {p : Nat × V} (h : p ∈ c.seed) : p ∈ c.stamped :=
  List.mem_append_left _ (Option.mem_toList.mpr h)

theorem mem_stamped {p : Nat × V} :
    p ∈ c.stamped ↔ p ∈ c.seed ∨ ∃ r ∈ c.readings, (r.stop, r.value) = p := by
  rw [stamped, List.mem_append, Option.mem_toList, List.mem_map]
  rfl

theorem finishReading_stamped (c : TtlCell V) (since : Nat) (v : V) :
    (c.finishReading since v).stamped = c.stamped ++ [(c.now, v)] := by
  simp [stamped, finishReading]

theorem Sound.finish (h : c.Sound ttl) {since : Nat} (v : V) (reading : c.reading = some since) :
    (c.finishReading since v).Sound ttl := by
  obtain ⟨hsince, hslot⟩ := h.reading since reading
  have hbefore : ∀ p ∈ c.stamped, p.1 + ttl ≤ since := by
    intro p hp
    obtain ⟨q, hq, hle⟩ := h.latest p hp
    exact (Nat.add_le_add_right hle ttl).trans (hslot q hq)
  refine ⟨fun p hp => ?_, fun p hp => ⟨(c.now, v), rfl, ?_⟩, fun _ hr => (by cases hr), fun p hp r hr => ?_,
    ?_, fun r hr => ?_⟩
  · obtain rfl := Option.some.inj hp
    exact ⟨le_refl c.now, by simp [finishReading_stamped]⟩
  · rw [finishReading_stamped] at hp
    rcases List.mem_append.mp hp with hp | hp
    · have := hbefore p hp
      dsimp only
      omega
    · obtain rfl := List.mem_singleton.mp hp
      exact le_rfl
  · rcases List.mem_append.mp hr with hr | hr
    · exact h.seeded p hp r hr
    · obtain rfl := List.mem_singleton.mp hr
      exact hbefore p (mem_stamped_of_seed hp)
  · refine List.pairwise_append.mpr ⟨h.spaced, List.pairwise_singleton _ _, fun r hr r' hr' => ?_⟩
    obtain rfl := List.mem_singleton.mp hr'
    exact hbefore _ (mem_stamped_of_reading hr)
  · rcases List.mem_append.mp hr with hr | hr
    · exact h.ordered r hr
    · obtain rfl := List.mem_singleton.mp hr
      exact hsince

theorem Step.sound (step : Step ttl c c') (h : c.Sound ttl) : c'.Sound ttl := by
  cases step with
  | wait d =>
    refine ⟨fun p hp => ?_, h.latest, fun since hs => ?_, h.seeded, h.spaced, h.ordered⟩
    · exact ⟨(h.slot p hp).1.trans (Nat.le_add_right _ _), (h.slot p hp).2⟩
    · exact ⟨(h.reading since hs).1.trans (Nat.le_add_right _ _), (h.reading since hs).2⟩
  | begin_ free stale =>
    refine ⟨h.slot, h.latest, fun since hs => ?_, h.seeded, h.spaced, h.ordered⟩
    obtain rfl := Option.some.inj hs
    refine ⟨le_rfl, fun p hp => ?_⟩
    have hle := (h.slot p hp).1
    have hstale : ¬c.now - p.1 < ttl := by
      intro hlt
      simp only [fresh, show c.slot = some (p.1, p.2) from hp, if_pos hlt] at stale
      cases stale
    omega
  | finish since v reading => exact h.finish v reading

/-- An answer without a fresh reading is a reading that ended within the time, or the seed within its time. -/
theorem Sound.fresh (h : c.Sound ttl) {v : V} (hv : c.fresh ttl = some v) :
    (∃ r ∈ c.readings, r.value = v ∧ r.stop ≤ c.now ∧ c.now < r.stop + ttl) ∨
      ∃ stamp, c.seed = some (stamp, v) ∧ c.now < stamp + ttl := by
  unfold TtlCell.fresh at hv
  split at hv
  next stamp w hslot =>
    split at hv
    next hlt =>
      obtain rfl := Option.some.inj hv
      obtain ⟨hle, hmem⟩ := h.slot _ hslot
      rcases mem_stamped.mp hmem with hseed | ⟨r, hr, heq⟩
      · exact Or.inr ⟨stamp, hseed, by omega⟩
      · obtain ⟨rfl, rfl⟩ := Prod.mk.inj heq
        exact Or.inl ⟨r, hr, rfl, hle, by omega⟩
    next => cases hv
  next => cases hv

end TtlCell

end KeepAt
