import KeepAt.PlacementRun
import KeepAt.Reference

namespace KeepAt

def charge (t : Torrent) : Nat := t.sizeBytes + perTorrentSizeBuffer

def chargedAt (s : State) (location : PathBuf) : Nat :=
  ((s.all.filter (fun t => t.storageLocation = location)).map charge).sum

/-- Every configured location is charged no more than its limit. -/
def WithinLimits (s : Settings) (st : State) : Prop :=
  ∀ l ∈ s.storage, chargedAt st l.path ≤ l.limitBytes

instance (s : Settings) (st : State) : Decidable (WithinLimits s st) :=
  inferInstanceAs (Decidable (∀ l ∈ s.storage, chargedAt st l.path ≤ l.limitBytes))

def chargeAt (location : PathBuf) (t : Torrent) : Nat :=
  if t.storageLocation = location then charge t else 0

theorem sum_map_filter {α : Type} (xs : List α) (p : α → Prop) [DecidablePred p] (f : α → Nat) :
    ((xs.filter (fun x => p x)).map f).sum = (xs.map (fun x => if p x then f x else 0)).sum := by
  induction xs with
  | nil => rfl
  | cons x xs ih =>
    rw [List.filter_cons]
    by_cases hp : p x <;> simp [hp, ih]

theorem chargedAt_eq_total (st : State) (location : PathBuf) :
    chargedAt st location = st.torrents.total (chargeAt location) :=
  sum_map_filter st.torrents.values (fun t => t.storageLocation = location) charge

theorem charge_sum (ts : List Torrent) :
    (ts.map charge).sum = (ts.map Torrent.sizeBytes).sum + ts.length * perTorrentSizeBuffer := by
  induction ts with
  | nil => rfl
  | cons t ts ih =>
    simp only [List.map_cons, List.sum_cons, List.length_cons, ih, charge]
    ring

theorem charge_sum_le_chargeAt {location : PathBuf} {ds : List Torrent}
    (h : ∀ d ∈ ds, d.storageLocation = location) :
    (ds.map Torrent.sizeBytes).sum ≤ (ds.map (chargeAt location)).sum := by
  refine List.sum_le_sum fun d hd => ?_
  simp only [chargeAt, if_pos (h d hd), charge]
  omega

/-- As long as the sums that the engine takes do not overflow, its free space is what the charge leaves. -/
theorem freeBytes_le {e : Engine} {deviceFree : PathBuf → Option Nat} {loc : StorageLocation}
    (room : chargedAt e.state loc.path < u64Max) :
    e.freeBytes deviceFree loc ≤ loc.limitBytes - chargedAt e.state loc.path := by
  have hsplit := charge_sum (e.state.all.filter (fun t => t.storageLocation = loc.path))
  have hcharged : chargedAt e.state loc.path =
      ((e.state.all.filter (fun t => t.storageLocation = loc.path)).map charge).sum := rfl
  have hused : e.state.bytesUsed loc.path =
      ((e.state.all.filter (fun t => t.storageLocation = loc.path)).map
        Torrent.sizeBytes).sum :=
    wrappingSum_eq (by omega)
  have hadd := saturatingAdd_eq (a := e.state.bytesUsed loc.path)
    (b := (e.state.all.filter (fun t => t.storageLocation = loc.path)).length *
      perTorrentSizeBuffer) (by omega)
  unfold Engine.freeBytes
  dsimp only
  rw [hadd]
  split <;> omega

theorem storage_eq_of_path_eq {s : Settings} {l l' : StorageLocation} (h : l ∈ s.storage)
    (h' : l' ∈ s.storage) (he : l.path = l'.path) : l = l' :=
  List.inj_on_of_nodup_map s.cfg.distinct h h' he

variable {s : Settings} {e : Engine} {c : Candidate} {md : TorrentMeta} {n seederFloor : Nat}
  {probe : Bool} {roll : F64} {env : ActEnv} {r : Engine × Nat}

/-- A fill keeps a location within a bound that no limit of it exceeds. -/
theorem fillPlaced_chargeAt_le {loc : StorageLocation} {p : PathBuf} {bound : Nat}
    (h : FillPlaced s e c md n seederFloor roll env r loc)
    (limits : ∀ l ∈ s.storage, l.path = p → l.limitBytes ≤ bound) (room : bound < u64Max)
    (start : e.state.torrents.total (chargeAt p) ≤ bound) :
    chargeAt p (heldEntry c md md.totalLength loc.path env.fill) + e.state.torrents.total (chargeAt p) ≤ bound := by
  by_cases hp : loc.path = p
  · have hlimit := limits loc h.configured hp
    have hb : loc.limitBytes < u64Max := s.cfg.bounded _ h.configured
    subst hp
    rw [← chargedAt_eq_total] at start ⊢
    have hfree := h.fitsDisk.trans (freeBytes_le (start.trans_lt room))
    have hneed := saturatingAdd_eq_of_lt_max (a := md.totalLength) (b := perTorrentSizeBuffer)
      (show sizeNeeded md.totalLength < u64Max by omega)
    unfold sizeNeeded at hfree
    have hbuf : 0 < perTorrentSizeBuffer := by decide
    simp only [chargeAt, heldEntry, if_true, charge]
    omega
  · simpa [chargeAt, heldEntry, hp] using start

/-- The winner of a swap is charged no more than what it displaces. -/
theorem swapPlaced_chargeAt_le {location p : PathBuf} {ds : List Torrent}
    (h : SwapPlaced s e c md n seederFloor probe roll env r location ds)
    (room : e.state.torrents.total (chargeAt p) < u64Max) :
    chargeAt p (heldEntry c md md.totalLength location (env.swap.place location)) ≤ (ds.map (chargeAt p)).sum := by
  by_cases hp : location = p
  · subst hp
    obtain ⟨hheld, hnodup, -, -, hsize, -⟩ := h.displaced
    have hle := charge_sum_le_chargeAt (fun d hd => (hheld d hd).2)
    have hout := KeyedList.total_eraseAll hnodup (fun d hd => (hheld d hd).1) (chargeAt location)
    have hneed := saturatingAdd_eq_of_lt_max (a := md.totalLength) (b := perTorrentSizeBuffer)
      (show sizeNeeded md.totalLength < u64Max by omega)
    unfold sizeNeeded at hsize
    simp only [chargeAt, heldEntry, if_true, charge] at hle hout ⊢
    omega
  · simp only [chargeAt, heldEntry, hp, if_false]
    omega

theorem placementStep_withinLimits {Admissible : TorrentMeta → Prop} {x y : Engine × Nat}
    (step : PlacementStep s Admissible x y) (start : WithinLimits s x.1.state) :
    WithinLimits s y.1.state := by
  intro l hl
  have hx := start l hl
  have hb : l.limitBytes < u64Max := s.cfg.bounded _ hl
  rw [chargedAt_eq_total] at hx ⊢
  refine placementStep_total_le step (chargeAt l.path) l.limitBytes hx (fun h _ _ hstart => ?_)
    (fun h _ hstart => ?_)
  · exact fillPlaced_chargeAt_le h (fun l' hl' hp => (storage_eq_of_path_eq hl' hl hp).symm ▸ le_rfl) hb hstart
  · have hwinner := swapPlaced_chargeAt_le h (hstart.trans_lt hb)
    omega

/-- The disk ceiling: fills, swaps and removals in any order keep every configured location
within its limit. -/
theorem placementRun_withinLimits {x y : Engine × Nat}
    (run : Relation.ReflTransGen (PlacementStep s fun _ => True) x y)
    (start : WithinLimits s x.1.state) : WithinLimits s y.1.state :=
  run_preserves (P := fun x => WithinLimits s x.1.state) placementStep_withinLimits run start

theorem placementRun_withinLimits_fill :
    let e := Reference.engine [] List.nodup_nil
    let r := actOnCandidate Reference.settings e (Reference.candidate Reference.hashA 1) 0 0
      (Reference.env true)
    r.1.state.torrents.size = 1 ∧ WithinLimits Reference.settings r.1.state :=
  ⟨by decide +kernel,
    placementRun_withinLimits
      (.single (.act _ 0 _ 0 _ (by decide) (fun _ _ => trivial))) (by decide)⟩

end KeepAt
