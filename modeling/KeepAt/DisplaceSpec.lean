import KeepAt.Reference
import KeepAt.StableSort

namespace KeepAt

/-- `select_displaceable` over any order of eviction. -/
def selectDisplaceableBy (evictsBefore : Torrent → Torrent → Prop) [DecidableRel evictsBefore]
    (inLocation : List Torrent) (candidateSeeders sizeNeeded ramCost peerLimit : Nat) (minSeedMargin : Int) :
    Option (List Torrent) :=
  let qualifying := inLocation.filter (clearsMargin candidateSeeders minSeedMargin)
  if qualifying = [] then none
  else takeDisplaced sizeNeeded ramCost peerLimit (qualifying.insertionSort evictsBefore) 0 0

theorem selectDisplaceable_eq (powf : F64 → F64 → F64) (inLocation : List Torrent)
    (candidateSeeders sizeNeeded ramCost peerLimit : Nat) (minSeedMargin : Int) (sizeBias : F64) :
    selectDisplaceable powf inLocation candidateSeeders sizeNeeded ramCost peerLimit minSeedMargin sizeBias =
      selectDisplaceableBy (fun a b => evictionOrdering powf sizeBias peerLimit a b ≠ .gt) inLocation
        candidateSeeders sizeNeeded ramCost peerLimit minSeedMargin := rfl

/-- The sizes and the RAM prices of some torrents reach what a candidate needs. -/
def Covers (sizeNeeded ramCost peerLimit : Nat) (ds : List Torrent) : Prop :=
  sizeNeeded ≤ (ds.map Torrent.sizeBytes).sum ∧ ramCost ≤ (ds.map (freedRam peerLimit)).sum

def CoversWithSome (sizeNeeded ramCost peerLimit : Nat) (ds : List Torrent) : Prop :=
  ds ≠ [] ∧ Covers sizeNeeded ramCost peerLimit ds

variable {sizeNeeded ramCost peerLimit : Nat}

theorem covers_cons {h : Torrent} {ds : List Torrent} :
    Covers sizeNeeded ramCost peerLimit (h :: ds) ↔
      Covers (sizeNeeded - h.sizeBytes) (ramCost - freedRam peerLimit h) peerLimit ds := by
  unfold Covers
  rw [List.map_cons, List.sum_cons, List.map_cons, List.sum_cons]
  omega

theorem covers_singleton {h : Torrent} :
    Covers sizeNeeded ramCost peerLimit [h] ↔ sizeNeeded ≤ h.sizeBytes ∧ ramCost ≤ freedRam peerLimit h := by
  unfold Covers
  rw [List.map_singleton, List.sum_singleton, List.map_singleton, List.sum_singleton]

theorem coversWithSome_cons {h : Torrent} {ds : List Torrent} (hne : ds ≠ []) :
    CoversWithSome sizeNeeded ramCost peerLimit (h :: ds) ↔
      CoversWithSome (sizeNeeded - h.sizeBytes) (ramCost - freedRam peerLimit h) peerLimit ds := by
  rw [CoversWithSome, CoversWithSome, covers_cons]
  exact and_congr_left' (iff_of_true (List.cons_ne_nil _ _) hne)

theorem not_coversWithSome_nil : ¬CoversWithSome sizeNeeded ramCost peerLimit [] := fun hc => hc.1 rfl

theorem Covers.of_perm {ds ds' : List Torrent} (perm : ds.Perm ds')
    (h : Covers sizeNeeded ramCost peerLimit ds) : Covers sizeNeeded ramCost peerLimit ds' := by
  obtain ⟨hsize, hram⟩ := h
  have hsizes := (perm.map Torrent.sizeBytes).sum_eq
  have hrams := (perm.map (freedRam peerLimit)).sum_eq
  exact ⟨by omega, by omega⟩

theorem Covers.of_isPrefix {front ds : List Torrent} (hfront : front <+: ds)
    (h : Covers sizeNeeded ramCost peerLimit front) : Covers sizeNeeded ramCost peerLimit ds := by
  obtain ⟨rest, rfl⟩ := hfront
  obtain ⟨hsize, hram⟩ := h
  unfold Covers
  rw [List.map_append, List.sum_append, List.map_append, List.sum_append]
  omega

/-- A saturated sum reaches a 64-bit number when the sum does. -/
theorem sub_saturatingAdd {needed : Nat} (h : needed ≤ u64Max) (freed more : Nat) :
    needed - saturatingAdd freed more = needed - freed - more := by
  unfold saturatingAdd
  omega

/-- What the loop over the ordered torrents finds, from what it has freed so far. -/
theorem takeDisplaced_shortest (peerLimit : Nat) (hsize : sizeNeeded ≤ u64Max) (hram : ramCost ≤ u64Max) (hs : List Torrent)
    (freed ram : Nat) :
    match takeDisplaced sizeNeeded ramCost peerLimit hs freed ram with
    | some ds => ShortestPrefix (CoversWithSome (sizeNeeded - freed) (ramCost - ram) peerLimit) hs ds
    | none => ∀ front, front <+: hs → ¬CoversWithSome (sizeNeeded - freed) (ramCost - ram) peerLimit front := by
  induction hs generalizing freed ram with
  | nil =>
    intro front hfront hcovers
    exact hcovers.1 (List.prefix_nil.mp hfront)
  | cons h rest ih =>
    have hfreed := sub_saturatingAdd hsize freed h.sizeBytes
    have hfreedRam := sub_saturatingAdd hram ram (freedRam peerLimit h)
    have hone : Covers (sizeNeeded - freed) (ramCost - ram) peerLimit [h] ↔
        sizeNeeded ≤ saturatingAdd freed h.sizeBytes ∧
          ramCost ≤ saturatingAdd ram (freedRam peerLimit h) := by
      rw [covers_singleton]
      omega
    have hmore : ∀ front, front ≠ [] →
        (CoversWithSome (sizeNeeded - freed) (ramCost - ram) peerLimit (h :: front) ↔
          CoversWithSome (sizeNeeded - saturatingAdd freed h.sizeBytes)
            (ramCost - saturatingAdd ram (freedRam peerLimit h)) peerLimit front) := by
      intro front hne
      rw [coversWithSome_cons hne, hfreed, hfreedRam]
    simp only [takeDisplaced]
    by_cases hreached : sizeNeeded ≤ saturatingAdd freed h.sizeBytes ∧
        ramCost ≤ saturatingAdd ram (freedRam peerLimit h)
    · rw [if_pos hreached]
      refine ⟨⟨rest, rfl⟩, ⟨by simp, hone.mpr hreached⟩, fun shorter _ hcovers => ?_⟩
      exact List.length_pos_iff.mpr hcovers.1
    · rw [if_neg hreached]
      have hnot : ¬CoversWithSome (sizeNeeded - freed) (ramCost - ram) peerLimit [h] :=
        fun hc => hreached (hone.mp hc.2)
      have hrest := ih (saturatingAdd freed h.sizeBytes) (saturatingAdd ram (freedRam peerLimit h))
      cases htake : takeDisplaced sizeNeeded ramCost peerLimit rest (saturatingAdd freed h.sizeBytes)
        (saturatingAdd ram (freedRam peerLimit h)) with
      | none =>
        rw [htake] at hrest
        intro front hfront hcovers
        rcases List.prefix_cons_iff.mp hfront with rfl | ⟨t, rfl, ht⟩
        · exact not_coversWithSome_nil hcovers
        · by_cases hnil : t = []
          · exact hnot (hnil ▸ hcovers)
          · exact hrest t ht ((hmore t hnil).mp hcovers)
      | some more =>
        rw [htake] at hrest
        refine ShortestPrefix.cons not_coversWithSome_nil ⟨hrest.isPrefix, ?_, fun shorter hshorter hcovers => ?_⟩
        · exact (hmore more hrest.holds.1).mpr hrest.holds
        · by_cases hnil : shorter = []
          · exact absurd (hnil ▸ hcovers) hnot
          · exact hrest.least shorter hshorter ((hmore shorter hnil).mp hcovers)

theorem clearsMargin_iff {candidateSeeders : Nat} {minSeedMargin : Int} {h : Torrent} :
    clearsMargin candidateSeeders minSeedMargin h = true ↔
      (candidateSeeders : Int) ≤ (h.lastKnownSeeders : Int) - minSeedMargin := decide_eq_true_iff

/-- The margin that each displaced torrent clears is the one that the decision asks of the whole set. -/
theorem meetsSeedMargin_of_clears {candidateSeeders : Nat} {minSeedMargin : Int} {ds : List Torrent}
    (h : ∀ d ∈ ds, clearsMargin candidateSeeders minSeedMargin d = true) :
    meetsSeedMargin candidateSeeders (ds.map heldView) minSeedMargin = true := by
  unfold meetsSeedMargin
  split
  next => rfl
  next minDisplaced hmin =>
    have hmem := List.min?_mem hmin
    rw [List.map_map] at hmem
    obtain ⟨d, hd, hseeders⟩ := List.mem_map.mp hmem
    have hclears := clearsMargin_iff.mp (h d hd)
    have heq : d.lastKnownSeeders = minDisplaced := hseeders
    rw [heq] at hclears
    exact decide_eq_true hclears

theorem evaluateSwap_not_margin {c : Candidate} {displaced : List Held} {margin : Int}
    {aggressiveness roll : F64} (h : meetsSeedMargin c.seeders displaced margin = true) :
    (evaluateSwap c displaced margin aggressiveness roll).reason ≠
      "candidate does not beat displaced torrents by the required margin" := by
  unfold evaluateSwap SwapDecision.refused
  rw [h]
  split
  next => simp
  next =>
    rw [if_neg (by simp)]
    dsimp only
    split
    next => simp
    next => simp [reasonSeedScarcityRollFailed]

/-- What a set of torrents has to be for a candidate to displace it. -/
structure DisplaceableSet (evictsBefore : Torrent → Torrent → Prop) (inLocation : List Torrent)
    (candidateSeeders sizeNeeded ramCost peerLimit : Nat) (minSeedMargin : Int) (chosen : List Torrent) :
    Prop where
  positions : ∃ positions : List (Fin inLocation.length),
    positions.Nodup ∧ chosen = atPositions inLocation positions
  clears : ∀ d ∈ chosen, (candidateSeeders : Int) ≤ (d.lastKnownSeeders : Int) - minSeedMargin
  beaten : meetsSeedMargin candidateSeeders (chosen.map heldView) minSeedMargin = true
  unrefused : ∀ (c : Candidate) (aggressiveness roll : F64), c.seeders = candidateSeeders →
    (evaluateSwap c (chosen.map heldView) minSeedMargin aggressiveness roll).reason ≠
      "candidate does not beat displaced torrents by the required margin"
  covers : Covers sizeNeeded ramCost peerLimit chosen
  shortest : ∃ order, IsStableSort evictsBefore
    (inLocation.filter (clearsMargin candidateSeeders minSeedMargin)) order ∧
      ShortestPrefix (CoversWithSome sizeNeeded ramCost peerLimit) order chosen

section Spec

variable {evictsBefore : Torrent → Torrent → Prop} [DecidableRel evictsBefore] {inLocation : List Torrent}
  {candidateSeeders : Nat} {minSeedMargin : Int}

theorem selectDisplaceableBy_isPrefix {chosen : List Torrent}
    (h : selectDisplaceableBy evictsBefore inLocation candidateSeeders sizeNeeded ramCost peerLimit
      minSeedMargin = some chosen) :
    chosen <+: (inLocation.filter (clearsMargin candidateSeeders minSeedMargin)).insertionSort evictsBefore := by
  unfold selectDisplaceableBy at h
  dsimp only at h
  split at h
  next => cases h
  next => exact (takeDisplaced_spec h).2.1

theorem selectDisplaceableBy_some (total : ∀ a b, evictsBefore a b ∨ evictsBefore b a)
    (trans : ∀ a b c, evictsBefore a b → evictsBefore b c → evictsBefore a c) (hsize : sizeNeeded ≤ u64Max)
    (hram : ramCost ≤ u64Max) {chosen : List Torrent}
    (h : selectDisplaceableBy evictsBefore inLocation candidateSeeders sizeNeeded ramCost peerLimit
      minSeedMargin = some chosen) :
    DisplaceableSet evictsBefore inLocation candidateSeeders sizeNeeded ramCost peerLimit minSeedMargin
      chosen := by
  unfold selectDisplaceableBy at h
  dsimp only at h
  split at h
  next => cases h
  next =>
    have hspec := takeDisplaced_shortest peerLimit hsize hram
      ((inLocation.filter (clearsMargin candidateSeeders minSeedMargin)).insertionSort evictsBefore) 0 0
    rw [h] at hspec
    have hclears : ∀ d ∈ chosen, clearsMargin candidateSeeders minSeedMargin d = true := by
      intro d hd
      have hmem := (List.mem_insertionSort _).mp (hspec.isPrefix.subset hd)
      exact (List.mem_filter.mp hmem).2
    have hbeaten := meetsSeedMargin_of_clears hclears
    refine ⟨exists_positions_of_isPrefix _ hspec.isPrefix, fun d hd => clearsMargin_iff.mp (hclears d hd),
      hbeaten, ?_, hspec.holds.2, _, isStableSort_insertionSort total trans _, hspec⟩
    intro c aggressiveness roll hc
    refine evaluateSwap_not_margin ?_
    rw [hc]
    exact hbeaten

theorem selectDisplaceableBy_none (hsize : sizeNeeded ≤ u64Max) (hram : ramCost ≤ u64Max) :
    let qualifying := inLocation.filter (clearsMargin candidateSeeders minSeedMargin)
    selectDisplaceableBy evictsBefore inLocation candidateSeeders sizeNeeded ramCost peerLimit minSeedMargin =
      none ↔ qualifying = [] ∨ ¬Covers sizeNeeded ramCost peerLimit qualifying := by
  intro qualifying
  have hperm : (qualifying.insertionSort evictsBefore).Perm qualifying := List.perm_insertionSort _ _
  have hspec := takeDisplaced_shortest peerLimit hsize hram
    (qualifying.insertionSort evictsBefore) 0 0
  unfold selectDisplaceableBy
  dsimp only
  by_cases hnil : qualifying = []
  · rw [if_pos hnil]
    exact ⟨fun _ => Or.inl hnil, fun _ => rfl⟩
  · rw [if_neg hnil]
    change takeDisplaced _ _ _ (qualifying.insertionSort evictsBefore) _ _ = none ↔ _
    cases htake : takeDisplaced sizeNeeded ramCost peerLimit (qualifying.insertionSort evictsBefore) 0 0 with
    | none =>
      rw [htake] at hspec
      refine ⟨fun _ => Or.inr fun hcovers => ?_, fun _ => rfl⟩
      refine hspec _ (List.prefix_refl _) ⟨fun hsorted => hnil ?_, hcovers.of_perm hperm.symm⟩
      rw [hsorted] at hperm
      exact (List.nil_perm.mp hperm)
    | some chosen =>
      rw [htake] at hspec
      have hcovers := (hspec.holds.2.of_isPrefix hspec.isPrefix).of_perm hperm
      constructor
      · intro h
        cases h
      · intro h
        exact absurd hcovers (h.resolve_left hnil)

end Spec

/-- Over any total preorder of eviction, what is displaced are torrents of the location, each at one position
and each clearing the margin, that reach both sums. They are the shortest nonempty front of the ordered ones
that does, and there are none exactly when all that qualify together miss one of the sums. -/
theorem displaceable_meets_spec (evictsBefore : Torrent → Torrent → Prop) [DecidableRel evictsBefore]
    (total : ∀ a b, evictsBefore a b ∨ evictsBefore b a)
    (trans : ∀ a b c, evictsBefore a b → evictsBefore b c → evictsBefore a c) (inLocation : List Torrent)
    (candidateSeeders sizeNeeded ramCost peerLimit : Nat) (minSeedMargin : Int)
    (hsize : sizeNeeded ≤ u64Max) (hram : ramCost ≤ u64Max) :
    let qualifying := inLocation.filter (clearsMargin candidateSeeders minSeedMargin)
    let r := selectDisplaceableBy evictsBefore inLocation candidateSeeders sizeNeeded ramCost peerLimit
      minSeedMargin
    (∀ chosen, r = some chosen → DisplaceableSet evictsBefore inLocation candidateSeeders sizeNeeded ramCost
      peerLimit minSeedMargin chosen) ∧
    (r = none ↔ qualifying = [] ∨ ¬Covers sizeNeeded ramCost peerLimit qualifying) :=
  ⟨fun _ h => selectDisplaceableBy_some total trans hsize hram h, selectDisplaceableBy_none hsize hram⟩

theorem displaceable_meets_spec_one :
    let g : Torrent := { Reference.held "g" Reference.location with lastKnownSeeders := 4, sizeBytes := 1 }
    let h := Reference.held "h" Reference.location
    ∃ chosen, selectDisplaceableBy (fun a b => a.sizeBytes ≤ b.sizeBytes) [h, g] 1 1 1 20 1 = some chosen ∧
      chosen = [g] ∧ DisplaceableSet (fun a b => a.sizeBytes ≤ b.sizeBytes) [h, g] 1 1 1 20 1 chosen := by
  intro g h
  have hchosen : selectDisplaceableBy (fun a b => a.sizeBytes ≤ b.sizeBytes) [h, g] 1 1 1 20 1 = some [g] := by
    decide
  exact ⟨[g], hchosen, rfl, (displaceable_meets_spec _ (fun a b => le_total a.sizeBytes b.sizeBytes)
    (fun a b c => le_trans) [h, g] 1 1 1 20 1 (by decide) (by decide)).1 [g] hchosen⟩

/-- Where nothing is needed one torrent is displaced all the same, though no torrents reach both sums too. -/
theorem displaceable_for_nothing :
    let h := Reference.held "h" Reference.location
    selectDisplaceable (fun x _ => x) [h] 1 0 0 20 1 (.ofRat 0) = some [h] ∧
      ¬∃ order, ShortestPrefix (Covers 0 0 20) order [h] := by
  intro h
  refine ⟨by decide, fun ⟨order, hshortest⟩ => ?_⟩
  have hle := hshortest.least [] List.nil_prefix ⟨Nat.zero_le _, Nat.zero_le _⟩
  exact absurd hle (by simp)

end KeepAt
