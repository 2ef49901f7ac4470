import KeepAt.Humanize
import KeepAt.Selector
import KeepAt.State

namespace KeepAt

def clearsMargin (candidateSeeders : Nat) (minSeedMargin : Int) (h : Torrent) : Bool :=
  decide ((h.lastKnownSeeders : Int) - minSeedMargin ≥ candidateSeeders)

def zeroHash : InfoHash := ⟨List.replicate 20 0, List.length_replicate⟩

def evictionCandidate (h : Torrent) : Candidate :=
  { infoHash := zeroHash, title := "", sizeBytes := h.sizeBytes, pieceCount := h.pieceCount,
    seeders := h.lastKnownSeeders, leechers := 0, seederFloor := 0 }

def evictionOrdering (powf : F64 → F64 → F64) (sizeBias : F64) (peerLimit : Nat) (a b : Torrent) :
    Ordering :=
  (partialCmp (evictionScore powf (evictionCandidate a) sizeBias peerLimit)
    (evictionScore powf (evictionCandidate b) sizeBias peerLimit)).getD (compare a.sizeBytes b.sizeBytes)

def freedRam (peerLimit : Nat) (h : Torrent) : Nat := torrentRam (max h.pieceCount 1) peerLimit

/-- Take from the front until both sums are covered. -/
def takeDisplaced (sizeNeeded ramCost peerLimit : Nat) :
    List Torrent → Nat → Nat → Option (List Torrent)
  | [], _, _ => none
  | h :: rest, freed, ram =>
    let freed := saturatingAdd freed h.sizeBytes
    let ram := saturatingAdd ram (freedRam peerLimit h)
    if freed ≥ sizeNeeded ∧ ram ≥ ramCost then some [h]
    else (takeDisplaced sizeNeeded ramCost peerLimit rest freed ram).map (h :: ·)

def selectDisplaceable (powf : F64 → F64 → F64) (inLocation : List Torrent)
    (candidateSeeders sizeNeeded ramCost peerLimit : Nat) (minSeedMargin : Int) (sizeBias : F64) :
    Option (List Torrent) :=
  let qualifying := inLocation.filter (clearsMargin candidateSeeders minSeedMargin)
  if qualifying = [] then none
  else
    takeDisplaced sizeNeeded ramCost peerLimit
      (qualifying.insertionSort (fun a b => evictionOrdering powf sizeBias peerLimit a b ≠ .gt)) 0 0

def deviceGateReason (devFree : Option Nat) (freedActual sizeNeeded : Nat) : Option String :=
  match devFree with
  | none => none
  | some devFree =>
    let after := saturatingAdd devFree freedActual
    if after < sizeNeeded then
      some ("device free space after displacement (" ++ humanBytesText after ++
        ") is below the candidate's need (" ++ humanBytesText sizeNeeded ++
        ") - displaced torrents were sparse")
    else none

theorem takeDisplaced_spec {sizeNeeded ramCost peerLimit : Nat} {hs ds : List Torrent} {freed ram : Nat}
    (h : takeDisplaced sizeNeeded ramCost peerLimit hs freed ram = some ds) :
    ds ≠ [] ∧ ds <+: hs ∧ sizeNeeded ≤ freed + (ds.map Torrent.sizeBytes).sum ∧
      ramCost ≤ ram + (ds.map (freedRam peerLimit)).sum := by
  induction hs generalizing ds freed ram with
  | nil => simp [takeDisplaced] at h
  | cons t rest ih =>
    simp only [takeDisplaced] at h
    split at h
    next hc =>
      obtain ⟨hf, hr⟩ := hc
      have he := Option.some.inj h
      subst he
      refine ⟨by simp, ⟨rest, rfl⟩, ?_, ?_⟩
      · simpa using le_add_of_le_saturatingAdd hf
      · simpa using le_add_of_le_saturatingAdd hr
    next =>
      obtain ⟨more, hmore, rfl⟩ := Option.map_eq_some_iff.mp h
      obtain ⟨-, htake, hsize, hram⟩ := ih hmore
      have hs := saturatingAdd_le_add freed t.sizeBytes
      have hr := saturatingAdd_le_add ram (freedRam peerLimit t)
      refine ⟨by simp, List.prefix_cons_inj t |>.mpr htake, ?_, ?_⟩
      · rw [List.map_cons, List.sum_cons]; omega
      · rw [List.map_cons, List.sum_cons]; omega

/-- What a displaceable set is: some of the location's torrents, each clearing the margin, that
together free the bytes and the RAM asked for. -/
theorem selectDisplaceable_spec {powf : F64 → F64 → F64} {inLocation ds : List Torrent}
    {candidateSeeders sizeNeeded ramCost peerLimit : Nat} {minSeedMargin : Int} {sizeBias : F64}
    (h : selectDisplaceable powf inLocation candidateSeeders sizeNeeded ramCost peerLimit minSeedMargin
      sizeBias = some ds) :
    ds ≠ [] ∧ ds.Subperm inLocation ∧
      (∀ d ∈ ds, clearsMargin candidateSeeders minSeedMargin d = true) ∧
      sizeNeeded ≤ (ds.map Torrent.sizeBytes).sum ∧ ramCost ≤ (ds.map (freedRam peerLimit)).sum := by
  unfold selectDisplaceable at h
  dsimp only at h
  split at h
  next => cases h
  next =>
    obtain ⟨hne, htake, hsize, hram⟩ := takeDisplaced_spec h
    have hperm := List.perm_insertionSort
      (fun a b => evictionOrdering powf sizeBias peerLimit a b ≠ .gt)
      (inLocation.filter (clearsMargin candidateSeeders minSeedMargin))
    refine ⟨hne, ?_, ?_, by omega, by omega⟩
    · exact (htake.sublist.subperm.trans hperm.subperm).trans List.filter_sublist.subperm
    · intro d hd
      exact (List.mem_filter.mp (hperm.mem_iff.mp (htake.subset hd))).2

theorem selectDisplaceable_nodup {powf : F64 → F64 → F64} {inLocation ds : List Torrent}
    {candidateSeeders sizeNeeded ramCost peerLimit : Nat} {minSeedMargin : Int} {sizeBias : F64}
    (hd : (inLocation.map Torrent.infoHash).Nodup)
    (h : selectDisplaceable powf inLocation candidateSeeders sizeNeeded ramCost peerLimit minSeedMargin
      sizeBias = some ds) : (ds.map Torrent.infoHash).Nodup := by
  obtain ⟨-, hsub, -⟩ := selectDisplaceable_spec h
  obtain ⟨l, hperm, hsl⟩ := hsub
  exact (hperm.map Torrent.infoHash).nodup_iff.mp ((hsl.map Torrent.infoHash).nodup hd)

end KeepAt
