import KeepAt.DisplaceSpec
import KeepAt.SizeScore
import Mathlib.Analysis.SpecialFunctions.Pow.Real

namespace KeepAt

section Order

variable {F : Type} [NatCast F] [Neg F] [Add F] [Sub F] [Mul F] [Div F]
variable [LT F] [LE F] [DecidableLT F] [DecidableLE F]

/-- The order in which torrents are displaced, over any scores. -/
def evictionOrder (powf : F → F → F) (sizeBias : F) (peerLimit : Nat) (a b : Torrent) : Ordering :=
  (partialCmp (evictionScore powf (evictionCandidate a) sizeBias peerLimit)
    (evictionScore powf (evictionCandidate b) sizeBias peerLimit)).getD (compare a.sizeBytes b.sizeBytes)

end Order

theorem evictionOrdering_eq (powf : F64 → F64 → F64) :
    evictionOrdering powf = evictionOrder powf := rfl

/-- Ranking would place the one torrent strictly before the other. -/
def RanksBefore (sizeBias : ℝ) (peerLimit : Nat) (a b : Torrent) : Prop :=
  rankOrdering Real.rpow sizeBias peerLimit (evictionCandidate a) (evictionCandidate b) = .lt

def EvictedBefore (sizeBias : ℝ) (peerLimit : Nat) (a b : Torrent) : Prop :=
  evictionOrder Real.rpow sizeBias peerLimit a b = .lt

/-- The size bias prefers the one torrent to the other. -/
def BetterSize (sizeBias : ℝ) (peerLimit : Nat) (a b : Torrent) : Prop :=
  if 0 < sizeBias then
    max b.sizeBytes 1 * torrentRam a.pieceCount peerLimit < max a.sizeBytes 1 * torrentRam b.pieceCount peerLimit
  else a.sizeBytes < b.sizeBytes ∨ a.sizeBytes = b.sizeBytes ∧
    torrentRam a.pieceCount peerLimit < torrentRam b.pieceCount peerLimit

variable {sizeBias : ℝ} {peerLimit : Nat} {a b : Torrent}

theorem ratioOf_lt_iff : ratioOf ℝ (evictionCandidate b) peerLimit < ratioOf ℝ (evictionCandidate a) peerLimit ↔
    max b.sizeBytes 1 * torrentRam a.pieceCount peerLimit <
      max a.sizeBytes 1 * torrentRam b.pieceCount peerLimit := by
  have hrama : (0 : ℝ) < torrentRam a.pieceCount peerLimit := by exact_mod_cast torrentRam_pos _ _
  have hramb : (0 : ℝ) < torrentRam b.pieceCount peerLimit := by exact_mod_cast torrentRam_pos _ _
  have hdiv := div_lt_div_iff₀ (a := ((max b.sizeBytes 1 : Nat) : ℝ)) (c := ((max a.sizeBytes 1 : Nat) : ℝ))
    hramb hrama
  unfold ratioOf evictionCandidate
  rw [hdiv]
  exact_mod_cast Iff.rfl

theorem ratioOf_nonneg (c : Candidate) : 0 ≤ ratioOf ℝ c peerLimit := by
  unfold ratioOf
  positivity

theorem betterSize_iff : BetterSize sizeBias peerLimit a b ↔
    sizeBiasScore Real.rpow (evictionCandidate b) sizeBias peerLimit <
      sizeBiasScore Real.rpow (evictionCandidate a) sizeBias peerLimit := by
  unfold BetterSize
  split
  next hpos =>
    rw [sizeBiasScore_of_pos hpos, sizeBiasScore_of_pos hpos, ← ratioOf_lt_iff]
    exact (Real.rpow_lt_rpow_iff (ratioOf_nonneg _) (ratioOf_nonneg _) hpos).symm
  next hnonpos =>
    rw [sizeBiasScore_lt_iff (not_lt.mp hnonpos)]
    rfl

theorem ranksBefore_iff : RanksBefore sizeBias peerLimit a b ↔
    a.lastKnownSeeders < b.lastKnownSeeders ∨
      a.lastKnownSeeders = b.lastKnownSeeders ∧ BetterSize sizeBias peerLimit a b := by
  rw [betterSize_iff]
  exact rankOrdering_lt_iff

theorem evictionOrder_eq (hbias : sizeBias ≠ 0) : evictionOrder Real.rpow sizeBias peerLimit a b =
    compare (sizeBiasScore Real.rpow (evictionCandidate a) sizeBias peerLimit)
      (sizeBiasScore Real.rpow (evictionCandidate b) sizeBias peerLimit) := by
  have hscore : ∀ c, evictionScore Real.rpow c sizeBias peerLimit =
      sizeBiasScore Real.rpow c sizeBias peerLimit := by
    intro c
    have hne : ¬(sizeBias ≤ ((0 : Nat) : ℝ) ∧ ((0 : Nat) : ℝ) ≤ sizeBias) := by
      rw [Nat.cast_zero]
      exact fun h => hbias (le_antisymm h.1 h.2)
    exact if_neg hne
  unfold evictionOrder
  rw [partialCmp_eq_compare, Option.getD_some, hscore, hscore]

theorem evictedBefore_iff (hbias : sizeBias ≠ 0) :
    EvictedBefore sizeBias peerLimit a b ↔ BetterSize sizeBias peerLimit b a := by
  rw [betterSize_iff, EvictedBefore, evictionOrder_eq hbias, compare_lt_iff_lt]

/-- Among some torrents, eviction goes against ranking. -/
def EvictionReversesRank (sizeBias : ℝ) (peerLimit : Nat) (held : List Torrent) : Prop :=
  ∀ a ∈ held, ∀ b ∈ held, RanksBefore sizeBias peerLimit a b → EvictedBefore sizeBias peerLimit b a

theorem evictionReversesRank_iff (hbias : sizeBias ≠ 0) (held : List Torrent) :
    EvictionReversesRank sizeBias peerLimit held ↔
      ∀ a ∈ held, ∀ b ∈ held, a.lastKnownSeeders < b.lastKnownSeeders → BetterSize sizeBias peerLimit a b := by
  constructor
  · intro h a ha b hb hseeders
    have hranks : RanksBefore sizeBias peerLimit a b := ranksBefore_iff.mpr (Or.inl hseeders)
    exact (evictedBefore_iff hbias).mp (h a ha b hb hranks)
  · intro h a ha b hb hranks
    refine (evictedBefore_iff hbias).mpr ?_
    rcases ranksBefore_iff.mp hranks with hseeders | ⟨-, hbetter⟩
    · exact h a ha b hb hseeders
    · exact hbetter

theorem evictionOrder_ne_gt (hbias : sizeBias ≠ 0) : evictionOrder Real.rpow sizeBias peerLimit a b ≠ .gt ↔
    ¬EvictedBefore sizeBias peerLimit b a := by
  rw [EvictedBefore, evictionOrder_eq hbias, evictionOrder_eq hbias, compare_lt_iff_lt, not_lt, ne_eq,
    compare_gt_iff_gt, not_lt]

/-- What is displaced comes with everything that clears the margin and is evicted before it. -/
theorem displaced_with_before (hbias : sizeBias ≠ 0) {held chosen : List Torrent}
    {candidateSeeders sizeNeeded ramCost : Nat} {minSeedMargin : Int}
    (h : selectDisplaceableBy (fun a b => evictionOrder Real.rpow sizeBias peerLimit a b ≠ .gt) held
      candidateSeeders sizeNeeded ramCost peerLimit minSeedMargin = some chosen) (ha : a ∈ chosen)
    (hb : b ∈ held) (clears : clearsMargin candidateSeeders minSeedMargin b = true)
    (before : EvictedBefore sizeBias peerLimit b a) : b ∈ chosen := by
  have hscore : ∀ a b, evictionOrder Real.rpow sizeBias peerLimit a b ≠ .gt ↔
      sizeBiasScore Real.rpow (evictionCandidate a) sizeBias peerLimit ≤
        sizeBiasScore Real.rpow (evictionCandidate b) sizeBias peerLimit := by
    intro a b
    rw [evictionOrder_eq hbias, ne_eq, compare_gt_iff_gt, not_lt]
  have hsort := isStableSort_insertionSort
    (r := fun a b => evictionOrder Real.rpow sizeBias peerLimit a b ≠ .gt)
    (fun a b => by rw [hscore, hscore]; exact le_total _ _)
    (fun a b c hab hbc => by rw [hscore] at hab hbc ⊢; exact hab.trans hbc)
    (held.filter (clearsMargin candidateSeeders minSeedMargin))
  have hqualifies := hsort.perm.mem_iff.mpr (List.mem_filter.mpr ⟨hb, clears⟩)
  refine mem_prefix_of_not_rel hsort.ordered (selectDisplaceableBy_isPrefix h) ha hqualifies ?_
  rw [evictionOrder_ne_gt hbias]
  exact not_not.mpr before

/-- Eviction goes against ranking exactly when every torrent of fewer seeders also has the better size. Then a
swap never takes a torrent and leaves one that ranks after it. -/
theorem eviction_reverses_rank_iff (sizeBias : ℝ) (hbias : sizeBias ≠ 0) (peerLimit : Nat)
    (held : List Torrent) :
    (EvictionReversesRank sizeBias peerLimit held ↔
      ∀ a ∈ held, ∀ b ∈ held, a.lastKnownSeeders < b.lastKnownSeeders → BetterSize sizeBias peerLimit a b) ∧
    (EvictionReversesRank sizeBias peerLimit held →
      ∀ (candidateSeeders sizeNeeded ramCost : Nat) (minSeedMargin : Int) (chosen : List Torrent),
        selectDisplaceableBy (fun a b => evictionOrder Real.rpow sizeBias peerLimit a b ≠ .gt) held
          candidateSeeders sizeNeeded ramCost peerLimit minSeedMargin = some chosen →
        ∀ a ∈ chosen, ∀ b ∈ held, clearsMargin candidateSeeders minSeedMargin b = true →
          RanksBefore sizeBias peerLimit a b → b ∈ chosen) := by
  refine ⟨evictionReversesRank_iff hbias held, fun hreverses => ?_⟩
  intro candidateSeeders sizeNeeded ramCost minSeedMargin chosen hchosen a ha b hb hclears hranks
  have hqualifies := (List.mem_insertionSort _).mp ((selectDisplaceableBy_isPrefix hchosen).subset ha)
  have hheld : a ∈ held := List.mem_of_mem_filter hqualifies
  exact displaced_with_before hbias hchosen ha hb hclears (hreverses a hheld b hb hranks)

namespace Reference

def scarce : Torrent := { held "a" location with sizeBytes := 200 * mib, lastKnownSeeders := 1 }

def plentiful : Torrent := { held "b" location with sizeBytes := 100 * mib, lastKnownSeeders := 2 }

end Reference

/-- Under the same bias, where the scarcer torrent is the smaller one. -/
theorem eviction_reverses_rank_iff_one :
    let small : Torrent := { Reference.scarce with sizeBytes := 50 * Reference.mib }
    EvictionReversesRank (-1) 20 [small, Reference.plentiful] := by
  intro small
  refine (eviction_reverses_rank_iff (-1) (by norm_num) 20 [small, Reference.plentiful]).1.mpr ?_
  intro a ha b hb hseeders
  have hbetter : BetterSize (-1) 20 small Reference.plentiful := by
    rw [BetterSize, if_neg (by norm_num)]
    decide
  simp only [List.mem_cons, List.not_mem_nil, or_false] at ha hb
  rcases ha with rfl | rfl <;> rcases hb with rfl | rfl
  · exact absurd hseeders (lt_irrefl _)
  · exact hbetter
  · exact absurd hseeders (by decide)
  · exact absurd hseeders (lt_irrefl _)

/-- Under a bias for small torrents the swap takes the scarcer torrent, which ranking places first, because it
is the larger one, and leaves the other. -/
theorem eviction_takes_scarce :
    let held := [Reference.scarce, Reference.plentiful]
    RanksBefore (-1) 20 Reference.scarce Reference.plentiful ∧ ¬EvictionReversesRank (-1) 20 held ∧
      selectDisplaceableBy (fun a b => evictionOrder Real.rpow (-1) 20 a b ≠ .gt) held 0 1 1 20 1 =
        some [Reference.scarce] := by
  intro held
  have hbias : (-1 : ℝ) ≠ 0 := by norm_num
  have hranks : RanksBefore (-1) 20 Reference.scarce Reference.plentiful :=
    ranksBefore_iff.mpr (Or.inl (by decide))
  have hnot : ¬EvictedBefore (-1) 20 Reference.plentiful Reference.scarce := by
    rw [evictedBefore_iff hbias, BetterSize, if_neg (by norm_num)]
    decide
  refine ⟨hranks, fun h => hnot (h _ (by simp [held]) _ (by simp [held]) hranks), ?_⟩
  have hfilter : held.filter (clearsMargin 0 1) = held := by decide
  have hsorted : held.insertionSort (fun a b => evictionOrder Real.rpow (-1) 20 a b ≠ .gt) = held := by
    refine List.Pairwise.insertionSort_eq (List.pairwise_pair.mpr ?_)
    exact (evictionOrder_ne_gt hbias).mpr hnot
  unfold selectDisplaceableBy
  dsimp only
  rw [hfilter, hsorted, if_neg (by simp [held])]
  decide

end KeepAt
