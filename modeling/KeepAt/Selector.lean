import KeepAt.InfoHash
import KeepAt.Ram
import Mathlib.Data.List.Sort

namespace KeepAt

structure Candidate where
  infoHash : InfoHash
  title : String
  sizeBytes : Nat
  pieceCount : Nat
  seeders : Nat
  leechers : Nat
  seederFloor : Nat
  deriving DecidableEq

def Candidate.available (c : Candidate) : Bool := decide (c.seeders ≥ 1)

structure Held where
  infoHash : InfoHash
  title : String
  sizeBytes : Nat
  pieceCount : Nat
  seeders : Nat
  deriving DecidableEq

def i32Max : Nat := 2 ^ 31 - 1

section Scores

variable {F : Type} [NatCast F] [Neg F] [Add F] [Sub F] [Mul F] [Div F]
variable [LT F] [LE F] [DecidableLT F] [DecidableLE F]

/-- `partial_cmp`: no answer when neither comparison holds. -/
def partialCmp (a b : F) : Option Ordering :=
  if a ≤ b then (if b ≤ a then some .eq else some .lt) else (if b ≤ a then some .gt else none)

/-- Repeated squaring over the bits of a 32-bit exponent. -/
def powiLoop : Nat → F → F → Nat → F
  | 0, _, r, _ => r
  | fuel + 1, a, r, n =>
    let r := if n % 2 = 1 then r * a else r
    if n / 2 = 0 then r else powiLoop fuel (a * a) r (n / 2)

def powi (a : F) (n : Nat) : F := powiLoop 32 a ((1 : Nat) : F) n

/-- Adjusted bytes per RAM byte. `powf` is the platform's power function. -/
def sizeBiasScore (powf : F → F → F) (c : Candidate) (sizeBias : F) (peerLimit : Nat) : F :=
  let ram : F := ((max (torrentRam c.pieceCount peerLimit) 1 : Nat) : F)
  let ratio := ((max c.sizeBytes 1 : Nat) : F) / ram
  if ((0 : Nat) : F) < sizeBias then powf ratio sizeBias
  else -(c.sizeBytes : F) + ratio / (((1 : Nat) : F) + (c.sizeBytes : F))

def evictionScore (powf : F → F → F) (c : Candidate) (sizeBias : F) (peerLimit : Nat) : F :=
  if sizeBias ≤ ((0 : Nat) : F) ∧ ((0 : Nat) : F) ≤ sizeBias then -(c.seeders : F)
  else sizeBiasScore powf c sizeBias peerLimit

def rankOrdering (powf : F → F → F) (sizeBias : F) (peerLimit : Nat) (a b : Candidate) : Ordering :=
  match compare a.seeders b.seeders with
  | .eq => (partialCmp (sizeBiasScore powf b sizeBias peerLimit)
      (sizeBiasScore powf a sizeBias peerLimit)).getD (compare a.sizeBytes b.sizeBytes)
  | ord => ord

/-- Available candidates in order of seeding urgency; the sort is stable. -/
def rankCandidates (powf : F → F → F) (candidates : List Candidate) (sizeBias : F) (peerLimit : Nat) :
    List Candidate :=
  (candidates.filter Candidate.available).insertionSort
    (fun a b => rankOrdering powf sizeBias peerLimit a b ≠ .gt)

def selectionChance (aggressiveness : F) (seeders seederFloor : Nat) : F :=
  let exponent := max seeders 1 - max seederFloor 1
  powi aggressiveness (min exponent i32Max)

end Scores

def meetsSeedMargin (candidateSeeders : Nat) (displaced : List Held) (minSeedMargin : Int) : Bool :=
  match (displaced.map Held.seeders).min? with
  | none => true
  | some minDisplaced => decide ((candidateSeeders : Int) ≤ (minDisplaced : Int) - minSeedMargin)

structure SwapDecision (F : Type) where
  shouldSwap : Bool
  chance : F
  roll : F
  reason : String
  deriving DecidableEq

def reasonSeedScarcityRollFailed : String :=
  "seed-scarcity roll failed; candidate already has enough seeders"

def SwapDecision.seedScarcityBlocked {F : Type} (d : SwapDecision F) : Bool :=
  decide (d.reason = reasonSeedScarcityRollFailed)

section Decision

variable {F : Type} [NatCast F] [Mul F] [LT F] [DecidableLT F]

def SwapDecision.refused (reason : String) (roll : F) : SwapDecision F :=
  { shouldSwap := false, chance := ((0 : Nat) : F), roll, reason }

def evaluateSwap (candidate : Candidate) (displaced : List Held) (minSeedMargin : Int)
    (aggressiveness roll : F) : SwapDecision F :=
  if !candidate.available then .refused "candidate has no live seed" roll
  else if !meetsSeedMargin candidate.seeders displaced minSeedMargin then
    .refused "candidate does not beat displaced torrents by the required margin" roll
  else
    let chance := selectionChance aggressiveness candidate.seeders candidate.seederFloor
    if roll < chance then
      { shouldSwap := true, chance, roll, reason := "seed-scarcity roll succeeded" }
    else { shouldSwap := false, chance, roll, reason := reasonSeedScarcityRollFailed }

theorem evaluateSwap_shouldSwap {c : Candidate} {displaced : List Held} {margin : Int}
    {aggressiveness roll : F} :
    (evaluateSwap c displaced margin aggressiveness roll).shouldSwap = true ↔
      c.available = true ∧ meetsSeedMargin c.seeders displaced margin = true ∧
        roll < selectionChance aggressiveness c.seeders c.seederFloor := by
  unfold evaluateSwap SwapDecision.refused
  by_cases ha : c.available = true <;> by_cases hm : meetsSeedMargin c.seeders displaced margin = true <;>
    simp [ha, hm, apply_ite]

theorem evaluateSwap_blocked_not_shouldSwap {c : Candidate} {displaced : List Held} {margin : Int}
    {aggressiveness roll : F}
    (h : (evaluateSwap c displaced margin aggressiveness roll).shouldSwap = true) :
    (evaluateSwap c displaced margin aggressiveness roll).seedScarcityBlocked = false := by
  obtain ⟨ha, hm, hr⟩ := evaluateSwap_shouldSwap.mp h
  simp [evaluateSwap, ha, hm, hr, SwapDecision.seedScarcityBlocked, reasonSeedScarcityRollFailed]

end Decision

def eligibleLocations (free need : List Nat) : List (Nat × Nat) :=
  ((free.zip need).zipIdx.filter (fun p => p.1.1 ≥ p.1.2)).map (fun p => (p.2, p.1.1))

theorem mem_eligibleLocations {free need : List Nat} {p : Nat × Nat} :
    p ∈ eligibleLocations free need ↔
      ∃ n, free[p.1]? = some p.2 ∧ need[p.1]? = some n ∧ n ≤ p.2 := by
  obtain ⟨i, f⟩ := p
  simp only [eligibleLocations, List.mem_map, List.mem_filter, decide_eq_true_eq, Prod.mk.injEq]
  constructor
  · rintro ⟨⟨⟨f', n⟩, i'⟩, ⟨hm, hge⟩, rfl, rfl⟩
    have hz := List.mem_zipIdx_iff_getElem?.mp hm
    obtain ⟨hf, hn⟩ := List.getElem?_zip_eq_some.mp hz
    exact ⟨n, hf, hn, hge⟩
  · rintro ⟨n, hf, hn, hle⟩
    refine ⟨((f, n), i), ⟨?_, hle⟩, rfl, rfl⟩
    exact List.mem_zipIdx_iff_getElem?.mpr (List.getElem?_zip_eq_some.mpr ⟨hf, hn⟩)

section Location

variable {F : Type} [NatCast F] [Sub F] [LT F] [DecidableLT F]

def pickLocation (target : F) : List (Nat × Nat) → Option Nat
  | [] => none
  | (i, f) :: rest =>
    let target := target - (f : F)
    if target < ((0 : Nat) : F) then some i else pickLocation target rest

theorem pickLocation_mem {target : F} {l : List (Nat × Nat)} {i : Nat}
    (h : pickLocation target l = some i) : ∃ f, (i, f) ∈ l := by
  induction l generalizing target with
  | nil => simp [pickLocation] at h
  | cons p rest ih =>
    obtain ⟨j, f⟩ := p
    simp only [pickLocation] at h
    split at h
    next => exact ⟨f, by simp [Option.some.inj h]⟩
    next =>
      obtain ⟨g, hg⟩ := ih h
      exact ⟨g, List.mem_cons_of_mem _ hg⟩

variable [Add F] [Mul F]

/-- Weighted choice of a location index; rounding falls back to the last eligible one. -/
def chooseLocation (free need : List Nat) (roll : F) : Option Nat :=
  let eligible := eligibleLocations free need
  let total := eligible.foldl (fun acc p => acc + (p.2 : F)) ((0 : Nat) : F)
  (pickLocation (roll * total) eligible).or (eligible.getLast?.map Prod.fst)

theorem chooseLocation_eligible {free need : List Nat} {roll : F} {i : Nat}
    (h : chooseLocation free need roll = some i) :
    ∃ f n, free[i]? = some f ∧ need[i]? = some n ∧ n ≤ f := by
  obtain ⟨f, hf⟩ : ∃ f, (i, f) ∈ eligibleLocations free need := by
    rcases Option.or_eq_some_iff.mp h with h | ⟨_, h⟩
    · exact pickLocation_mem h
    · obtain ⟨⟨j, f⟩, hl, rfl⟩ := Option.map_eq_some_iff.mp h
      exact ⟨f, List.mem_of_getLast? hl⟩
  obtain ⟨n, hfree, hneed, hle⟩ := mem_eligibleLocations.mp hf
  exact ⟨f, n, hfree, hneed, hle⟩

theorem chooseLocation_isSome {free need : List Nat} {i f n : Nat} (hf : free[i]? = some f)
    (hn : need[i]? = some n) (hle : n ≤ f) (roll : F) : ∃ j, chooseLocation free need roll = some j := by
  have hm : (i, f) ∈ eligibleLocations free need := mem_eligibleLocations.mpr ⟨n, hf, hn, hle⟩
  have hlast := List.getLast?_eq_some_getLast (List.ne_nil_of_mem hm)
  refine Option.isSome_iff_exists.mp ?_
  simp only [chooseLocation, hlast, Option.map_some, Option.isSome_or, Option.isSome_some,
    Bool.or_true]

end Location

end KeepAt
