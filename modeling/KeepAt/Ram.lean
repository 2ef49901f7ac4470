import KeepAt.MachineInt

namespace KeepAt

def perTorrentRamBase : Nat := 256 * 1024
def perPieceRam : Nat := 64
def perPeerRam : Nat := 48 * 1024

/-- RAM footprint of one torrent. An unknown piece count (0) prices as one piece. -/
def torrentRam (pieceCount peerLimit : Nat) : Nat :=
  saturatingAdd (saturatingAdd perTorrentRamBase (saturatingMul perPieceRam (max pieceCount 1)))
    (saturatingMul perPeerRam peerLimit)

def peerLimitForBudget (budget : Nat) : Nat :=
  if budget ≥ 4 * 1024 * 1024 * 1024 then 20
  else if budget ≥ 1024 * 1024 * 1024 then 12
  else if budget ≥ 256 * 1024 * 1024 then 8
  else 4

def typicalTorrentRam (budget : Nat) : Nat := torrentRam 1024 (peerLimitForBudget budget)

theorem saturatingAdd_mono {a a' b b' : Nat} (ha : a ≤ a') (hb : b ≤ b') :
    saturatingAdd a b ≤ saturatingAdd a' b' :=
  min_le_min_right _ (Nat.add_le_add ha hb)

theorem saturatingMul_mono_right (a : Nat) {b b' : Nat} (h : b ≤ b') :
    saturatingMul a b ≤ saturatingMul a b' :=
  min_le_min_right _ (Nat.mul_le_mul_left a h)

theorem torrentRam_mono {pieces pieces' : Nat} (h : max pieces 1 ≤ max pieces' 1) (peerLimit : Nat) :
    torrentRam pieces peerLimit ≤ torrentRam pieces' peerLimit :=
  saturatingAdd_mono (saturatingAdd_mono le_rfl (saturatingMul_mono_right _ h)) le_rfl

theorem torrentRam_pos (pieceCount peerLimit : Nat) : 0 < torrentRam pieceCount peerLimit := by
  unfold torrentRam saturatingAdd perTorrentRamBase u64Max
  omega

end KeepAt
