import KeepAt.Displace
import KeepAt.SizeScore
import KeepAt.StableSort
import Mathlib.Data.Prod.Lex

namespace KeepAt

/-- Seeders first, then size, then RAM. -/
def rankKey (peerLimit : Nat) (c : Candidate) : Nat ×ₗ Nat ×ₗ Nat :=
  toLex (c.seeders, toLex (c.sizeBytes, torrentRam c.pieceCount peerLimit))

theorem rankKey_lt_iff {peerLimit : Nat} {a b : Candidate} :
    rankKey peerLimit a < rankKey peerLimit b ↔ a.seeders < b.seeders ∨ a.seeders = b.seeders ∧
      (a.sizeBytes < b.sizeBytes ∨ a.sizeBytes = b.sizeBytes ∧
        torrentRam a.pieceCount peerLimit < torrentRam b.pieceCount peerLimit) := by
  unfold rankKey
  rw [Prod.Lex.toLex_lt_toLex, Prod.Lex.toLex_lt_toLex]

theorem rankOrdering_ne_gt_iff_rankKey {F : Type} [Field F] [LinearOrder F] [IsStrictOrderedRing F]
    {powf : F → F → F} {sizeBias : F} {peerLimit : Nat} {a b : Candidate} (h : sizeBias ≤ 0) :
    rankOrdering powf sizeBias peerLimit a b ≠ .gt ↔ rankKey peerLimit a ≤ rankKey peerLimit b := by
  rw [rankOrdering_ne_gt_iff, rankOrdering_lt_iff, sizeBiasScore_lt_iff h, ← rankKey_lt_iff, not_lt]

/-- Without a positive bias ranking is a stable sort of the seeded candidates by seeders, then size, then RAM:
the ratio never reorders two sizes. -/
theorem rank_lexicographic (powf : ℚ → ℚ → ℚ) (candidates : List Candidate) (sizeBias : ℚ) (peerLimit : Nat)
    (h : sizeBias ≤ 0) :
    IsStableSort (fun a b => rankKey peerLimit a ≤ rankKey peerLimit b)
      (candidates.filter fun c => c.seeders ≥ 1) (rankCandidates powf candidates sizeBias peerLimit) := by
  have hkey : ∀ a b, rankOrdering powf sizeBias peerLimit a b ≠ .gt ↔
      rankKey peerLimit a ≤ rankKey peerLimit b := fun a b => rankOrdering_ne_gt_iff_rankKey h
  refine (isStableSort_insertionSort (fun a b => ?_) (fun a b c hab hbc => ?_) _).congr hkey
  · rw [hkey, hkey]
    exact le_total _ _
  · rw [hkey] at hab hbc ⊢
    exact hab.trans hbc

theorem rank_lexicographic_one :
    let small : Candidate :=
      { infoHash := zeroHash, title := "s", sizeBytes := 1, pieceCount := 9, seeders := 1, leechers := 0,
        seederFloor := 0 }
    let cheap : Candidate := { small with title := "c", sizeBytes := 2, pieceCount := 1 }
    let unseeded : Candidate := { small with seeders := 0 }
    rankCandidates (fun x _ => x) [cheap, unseeded, small] (-1 : ℚ) 20 = [small, cheap] ∧
      rankKey 20 small ≤ rankKey 20 cheap := by
  intro small cheap unseeded
  have hranked : rankCandidates (fun x _ => x) [cheap, unseeded, small] (-1 : ℚ) 20 = [small, cheap] := by
    decide +kernel
  have hsorted := (rank_lexicographic (fun x _ => x) [cheap, unseeded, small] (-1) 20 (by norm_num)).ordered
  rw [hranked] at hsorted
  exact ⟨hranked, (List.pairwise_cons.mp hsorted).1 cheap (List.mem_singleton_self cheap)⟩

end KeepAt
