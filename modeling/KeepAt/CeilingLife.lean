import KeepAt.Daemon
import KeepAt.DiskCeiling
import KeepAt.StateOps

namespace KeepAt

/-- A node over its restarts, and the winners of its swaps that were saved in part. -/
structure CeilingNode where
  node : Node
  unsettled : List Torrent

/-- A process runs under limits no higher than `limit`, for these locations. -/
def Settings.CappedBy (s : Settings) (paths : List PathBuf) (limit : PathBuf → Nat) : Prop :=
  configuredPaths s = paths ∧ ∀ l ∈ s.storage, l.limitBytes ≤ limit l.path

/-- Every torrent is still held, or the file shows what is, or it shows what it did. -/
def Node.Settled (before after : Node) : Prop :=
  (∀ t ∈ before.engine.state.torrents.values, t ∈ after.engine.state.torrents.values) ∨
    after.engine.state.file.torrents = after.engine.state.torrents ∨
    after.engine.state.file.torrents = before.engine.state.file.torrents

/-- An update that leaves a torrent where it is, and its size. -/
def TorrentUpdate.ChargeKept (f : TorrentUpdate) : Prop :=
  ∀ t, (f.apply t).storageLocation = t.storageLocation ∧ (f.apply t).sizeBytes = t.sizeBytes

/-- What the passes over the held torrents write: figures of theirs and the quarantine, never where one is kept. -/
def StateOp.ChargeKept : StateOp → Prop
  | .put _ => False
  | .update _ f => f.ChargeKept
  | .updateEach updates => ∀ u ∈ updates, u.2.ChargeKept
  | _ => True

section Steps

variable (paths : List PathBuf) (limit : PathBuf → Nat)

/-- A step of a node under limits that come and go. A process that dies in the middle of a call is one whose later
saves fail, and that is then restarted; a swap that the file shows in part goes into `unsettled`. -/
inductive CeilingStep (x : CeilingNode) : CeilingNode → Prop
  | act (c : Candidate) (seederFloor : Nat) (env : ActEnv)
      (fresh : ¬x.node.engine.state.torrents.Has (hexEncode c.infoHash))
      (settled : x.node.Settled (x.node.act c seederFloor env)) :
      CeilingStep x { x with node := x.node.act c seederFloor env }
  | unsettledSwap (c : Candidate) (seederFloor : Nat) (env : ActEnv) (winner : Torrent)
      (fresh : ¬x.node.engine.state.torrents.Has (hexEncode c.infoHash))
      (placed : (x.node.act c seederFloor env).engine.state.get (hexEncode c.infoHash) = some winner) :
      CeilingStep x ⟨x.node.act c seederFloor env, winner :: x.unsettled⟩
  | remove (hex : String) (env : RemoveEnv) :
      CeilingStep x { x with node := { x.node with engine := (x.node.engine.dropHeld hex env).1 } }
  | write (op : StateOp) (saved : Bool) (kept : op.ChargeKept) :
      CeilingStep x
        { x with
          node := { x.node with engine := { x.node.engine with state := (op.apply x.node.engine.state saved).1 } } }
  | recount : CeilingStep x { x with node := x.node.recount }
  | rehash (ts : List Torrent) (h : ts.Perm x.node.engine.state.torrents.values) :
      CeilingStep x
        { x with node := { x.node with engine := { x.node.engine with state := x.node.engine.state.rehash ts h } } }
  | restart (settings : Settings) (env : StartEnv) (capped : settings.CappedBy paths limit) :
      CeilingStep x { x with node := x.node.restart settings env }

end Steps

/-- What the location may be charged: its limit, and the winners that came in over it. -/
def CeilingNode.ceiling (x : CeilingNode) (limit : PathBuf → Nat) (location : PathBuf) : Nat :=
  limit location + (x.unsettled.map (chargeAt location)).sum

/-- Held torrents at known locations, none of them charged over its ceiling. -/
structure WithinCeiling (paths : List PathBuf) (ceiling : PathBuf → Nat) (m : HeldMap) : Prop where
  known : ∀ t ∈ m.values, t.storageLocation ∈ paths
  charged : ∀ p, m.total (chargeAt p) ≤ ceiling p

/-- A node in memory and in its state file. -/
structure CeilingNode.Within (paths : List PathBuf) (limit : PathBuf → Nat) (x : CeilingNode) : Prop where
  capped : x.node.settings.CappedBy paths limit
  held : WithinCeiling paths (x.ceiling limit) x.node.engine.state.torrents
  stored : WithinCeiling paths (x.ceiling limit) x.node.engine.state.file.torrents

section StateFile

variable {P : HeldMap → Prop} {s : Settings} {e : Engine} {c : Candidate} {md : TorrentMeta}

/-- What holds of the torrents in memory and of those in the file. -/
def State.Keeps (P : HeldMap → Prop) (st : State) : Prop := P st.torrents ∧ P st.file.torrents

theorem State.Keeps.save {x : State} (h : x.Keeps P) (saved : Bool) : (x.save saved).1.Keeps P := by
  cases saved with
  | true => exact ⟨h.1, h.1⟩
  | false => exact h

theorem State.Keeps.saveChanged {α : Type} {x : State} (h : x.Keeps P) (changed : Bool) (result : α)
    (saved : Bool) :
    (x.saveChanged changed result saved).1.Keeps P := by
  cases changed with
  | true => exact h.save saved
  | false => exact h

theorem State.Keeps.put {x : State} {t : Torrent} (stored : P x.file.torrents) (entered : P (x.torrents.insert t))
    (saved : Bool) : (x.put t saved).1.Keeps P :=
  State.Keeps.save (x := { x with torrents := x.torrents.insert t }) ⟨entered, stored⟩ saved

theorem State.Keeps.remove {x : State} (erases : ∀ m hex, P m → P (m.erase hex)) (h : x.Keeps P) (hex : String)
    (saved : Bool) : (x.remove hex saved).1.Keeps P :=
  State.Keeps.save (x := { x with torrents := x.torrents.erase hex }) ⟨erases _ hex h.1, h.2⟩ saved

theorem progressUpdate_chargeKept (checked : Nat) (now : Time) : (State.progressUpdate checked now).ChargeKept := by
  intro t
  simp only [State.progressUpdate]
  split <;> exact ⟨rfl, rfl⟩

theorem StateOp.apply_keeps {st : State} (erases : ∀ m hex, P m → P (m.erase hex))
    (updates : ∀ m hex (f : TorrentUpdate), f.ChargeKept → P m → P (m.modify hex f.apply f.keeps))
    (h : st.Keeps P) {op : StateOp} (kept : op.ChargeKept) (saved : Bool) : (op.apply st saved).1.Keeps P := by
  cases op with
  | put t => exact kept.elim
  | update hex f =>
    exact State.Keeps.saveChanged (x := { st with torrents := st.torrents.modify hex f.apply f.keeps })
      ⟨updates _ hex f kept h.1, h.2⟩ _ _ saved
  | remove hex => exact h.remove erases hex saved
  | quarantinePut hex q =>
    exact State.Keeps.save (x := { st with quarantined := st.quarantined.insert (hex, q) }) h saved
  | quarantineAndRemove hex q =>
    exact State.Keeps.save
      (x := { st with quarantined := st.quarantined.insert (hex, q), torrents := st.torrents.erase hex })
      ⟨erases _ hex h.1, h.2⟩ saved
  | quarantineRemove hex =>
    exact State.Keeps.saveChanged (x := { st with quarantined := st.quarantined.erase hex }) h _ _ saved
  | quarantineRemoveMany hashes =>
    simp only [apply, State.quarantineRemoveMany, Prod.map_fst, id]
    refine State.Keeps.saveChanged ?_ _ _ saved
    exact h
  | liftCompleted hex checked sizeBytes =>
    simp only [apply, State.liftCompleted]
    split
    · exact h
    · exact State.Keeps.saveChanged (x := { st with quarantined := st.quarantined.erase hex }) h _ _ saved
  | updateEach us =>
    simp only [apply, State.updateEach, Prod.map_fst, id]
    refine State.Keeps.saveChanged ?_ _ _ saved
    refine ⟨?_, h.2⟩
    exact List.foldlRecOn (motive := fun acc : HeldMap × Nat => P acc.1) us _ h.1
      fun acc hacc u hu => updates _ u.1 u.2 (kept u hu) hacc
  | updateProgressMany progress now =>
    simp only [apply, State.updateProgressMany, Prod.map_fst, id]
    refine State.Keeps.saveChanged ?_ _ _ saved
    refine ⟨?_, h.2⟩
    exact List.foldlRecOn (motive := fun acc : HeldMap × Bool => P acc.1) progress _ h.1
      fun acc hacc u _ => updates _ u.1 _ (progressUpdate_chargeKept u.2 now) hacc

theorem removeDisplaced_keeps (erases : ∀ m hex, P m → P (m.erase hex)) (remove : String → RemoveEnv)
    (ds : List Torrent) (h : e.state.Keeps P) (removed : Nat) :
    (removeDisplaced e remove ds removed).1.state.Keeps P := by
  induction ds generalizing e removed with
  | nil => exact h
  | cons d rest ih => exact ih (h.remove erases d.infoHash (remove d.infoHash).saved) _

theorem finishSwap_state (e : Engine) (remove : String → RemoveEnv) (ds : List Torrent) (d : SwapDecision F64) :
    (finishSwap e remove ds d).1.state = (removeDisplaced e remove ds 0).1.state := by
  simp only [finishSwap]
  split <;> rfl

/-- The file of a swap has what it had, or the winner and all or some of what it displaces. -/
theorem swapLoop_file (erases : ∀ m hex, P m → P (m.erase hex)) (stored : P e.state.file.torrents)
    (fresh : ¬e.state.torrents.Has (hexEncode c.infoHash)) (sizeBytes seederFloor : Nat) (roll : F64) (env : SwapEnv)
    (locations : List PathBuf) (last : SwapDecision F64)
    (entered : ∀ w, w.infoHash = hexEncode c.infoHash →
      (swapLoop s e.state.all c md sizeBytes seederFloor roll env e locations last).1.state.get
        (hexEncode c.infoHash) = some w → P (e.state.torrents.insert w)) :
    P (swapLoop s e.state.all c md sizeBytes seederFloor roll env e locations last).1.state.file.torrents := by
  induction locations generalizing last with
  | nil => exact stored
  | cons location rest ih =>
    rw [swapLoop] at entered ⊢
    cases hds : displaceableAt s e.state.all c md sizeBytes location with
    | none =>
      simp only [hds] at entered ⊢
      exact ih last entered
    | some ds =>
      cases hgate : deviceGate env location ds sizeBytes with
      | some reason =>
        simp only [hds, hgate] at entered ⊢
        exact ih _ entered
      | none =>
        simp only [hds, hgate] at entered ⊢
        rcases tryAdd_cases s e c md sizeBytes location (ds.map heldView) seederFloor roll (env.place location) with
          ⟨-, hadd⟩ | ⟨-, session, -, hadd⟩
        · simp only [hadd, Bool.false_eq_true, if_false] at entered ⊢
          exact ih _ entered
        · simp only [hadd, if_true, finishSwap_state] at entered ⊢
          obtain ⟨hheld, -⟩ := displaceableAt_spec hds
          have hout := fresh_not_mem_displaced (fun d hd => (hheld d hd).1) fresh
          have hput : P (e.state.torrents.insert (heldEntry c md sizeBytes location (env.place location))) := by
            refine entered _ rfl ?_
            simp only [State.get, removeDisplaced_torrents, KeyedList.find_eraseAll, if_neg hout,
              Engine.pushLive_state, Engine.record_state, State.put_torrents, KeyedList.find_insert]
            exact if_pos rfl
          exact (removeDisplaced_keeps erases env.remove ds
            (State.Keeps.put stored hput (env.place location).saved) 0).2

theorem tryFill_state (s : Settings) (e : Engine) (c : Candidate) (md : TorrentMeta) (n seederFloor : Nat)
    (roll : F64) (env : ActEnv) :
    let r := tryFill s e c md n seederFloor roll env
    (r.1 = e ∧ r.2.1 = false) ∨ (r.2.1 = true ∧ ∃ location,
      r.1.state = (e.state.put (heldEntry c md md.totalLength location env.fill) env.fill.saved).1) := by
  intro r
  simp only [r, tryFill]
  cases fillTarget s e c md n env with
  | none => exact Or.inl ⟨rfl, rfl⟩
  | some loc =>
    rcases tryAdd_cases s e c md md.totalLength loc.path [] seederFloor roll env.fill with
      ⟨-, hadd⟩ | ⟨-, session, -, hadd⟩
    · exact Or.inl ⟨congrArg Prod.fst hadd, congrArg (fun r => r.2.1) hadd⟩
    · exact Or.inr ⟨congrArg (fun r => r.2.1) hadd, loc.path, congrArg (fun r => r.1.state) hadd⟩

theorem placeCandidate_file (erases : ∀ m hex, P m → P (m.erase hex)) (stored : P e.state.file.torrents)
    (fresh : ¬e.state.torrents.Has (hexEncode c.infoHash)) (n seederFloor : Nat) (probe : Bool) (roll : F64)
    (env : ActEnv)
    (entered : ∀ w, w.infoHash = hexEncode c.infoHash →
      (placeCandidate s e c md n seederFloor probe roll env).1.state.get (hexEncode c.infoHash) = some w →
        P (e.state.torrents.insert w)) :
    P (placeCandidate s e c md n seederFloor probe roll env).1.state.file.torrents := by
  have hfill := tryFill_state s e c md n seederFloor roll env
  generalize hr : tryFill s e c md n seederFloor roll env = r at hfill
  obtain ⟨e', added, decision⟩ := r
  simp only [placeCandidate, hr] at entered ⊢
  rcases hfill with ⟨rfl, rfl⟩ | ⟨rfl, location, hstate⟩
  · simp only [Bool.false_eq_true, if_false] at entered ⊢
    split at entered
    next hblocked => simpa only [hblocked, if_true] using stored
    next hblocked =>
      rw [if_neg hblocked]
      split at entered
      next hprobe => simpa only [hprobe, if_true] using stored
      next hprobe =>
        rw [if_neg hprobe]
        exact swapLoop_file erases stored fresh _ _ _ _ _ _ entered
  · dsimp only at hstate
    simp only [if_true] at entered ⊢
    rw [hstate] at entered ⊢
    refine (State.Keeps.put stored (entered (heldEntry c md md.totalLength location env.fill) rfl ?_)
      env.fill.saved).2
    rw [State.get, State.put_torrents, KeyedList.find_insert]
    exact if_pos rfl

/-- The file after a call has what it had, or the winner as well, and all or some of what it displaces. -/
theorem actOnCandidate_file (erases : ∀ m hex, P m → P (m.erase hex)) (stored : P e.state.file.torrents)
    (fresh : ¬e.state.torrents.Has (hexEncode c.infoHash)) (n seederFloor : Nat) (env : ActEnv)
    (entered : ∀ w, w.infoHash = hexEncode c.infoHash →
      (actOnCandidate s e c n seederFloor env).1.state.get (hexEncode c.infoHash) = some w →
        P (e.state.torrents.insert w)) :
    P (actOnCandidate s e c n seederFloor env).1.state.file.torrents := by
  by_cases hreach : ∃ probe md, ActReaches s e c env probe md
  · obtain ⟨probe, md, hreach⟩ := hreach
    rw [actOnCandidate_reached hreach] at entered ⊢
    exact placeCandidate_file (e := fetched s e c env) (c := { c with pieceCount := md.pieceCount }) erases stored
      fresh n seederFloor probe _ env entered
  · have hnot : ∀ probe md, ¬ActReaches s e c env probe md := fun probe md hr => hreach ⟨probe, md, hr⟩
    rcases (actOnCandidate_stopped n seederFloor hnot).1 with he | he <;> rw [he] <;> exact stored

end StateFile

section Bounds

variable {s : Settings} {e : Engine} {c : Candidate} {md : TorrentMeta} {n seederFloor : Nat}
  {probe : Bool} {roll : F64} {env : ActEnv} {r : Engine × Nat} {paths : List PathBuf} {ceiling : PathBuf → Nat}

theorem WithinCeiling.mono {m : HeldMap} {higher : PathBuf → Nat} (h : WithinCeiling paths ceiling m)
    (le : ∀ p, ceiling p ≤ higher p) : WithinCeiling paths higher m :=
  ⟨h.known, fun p => (h.charged p).trans (le p)⟩

theorem WithinCeiling.erase (m : HeldMap) (hex : String) (h : WithinCeiling paths ceiling m) :
    WithinCeiling paths ceiling (m.erase hex) :=
  ⟨fun t ht => h.known t (KeyedList.mem_erase.mp ht).1,
    fun p => (KeyedList.total_erase_le m hex (chargeAt p)).trans (h.charged p)⟩

theorem WithinCeiling.modify (m : HeldMap) (hex : String) (f : TorrentUpdate) (kept : f.ChargeKept)
    (h : WithinCeiling paths ceiling m) : WithinCeiling paths ceiling (m.modify hex f.apply f.keeps) := by
  have hcharge : ∀ p t, chargeAt p (if t.infoHash = hex then f.apply t else t) = chargeAt p t := by
    intro p t
    split
    · simp only [chargeAt, charge, (kept t).1, (kept t).2]
    · rfl
  refine ⟨fun t ht => ?_, fun p => ?_⟩
  · obtain ⟨old, hold, rfl⟩ := List.mem_map.mp ht
    have hknown := h.known old hold
    split
    · rw [(kept old).1]
      exact hknown
    · exact hknown
  · have hsame : (m.modify hex f.apply f.keeps).total (chargeAt p) = m.total (chargeAt p) := by
      simp only [KeyedList.total, KeyedList.modify, List.map_map, Function.comp_def, hcharge]
    exact hsame.trans_le (h.charged p)

/-- A call keeps what is held within its ceilings; and if all that was held still is, the winner fits beside it. -/
theorem actOnCandidate_within (configured : configuredPaths s = paths)
    (limits : ∀ l ∈ s.storage, l.limitBytes ≤ ceiling l.path) (room : ∀ p, ceiling p < u64Max)
    (h : WithinCeiling paths ceiling e.state.torrents) (fresh : ¬e.state.torrents.Has (hexEncode c.infoHash)) :
    WithinCeiling paths ceiling (actOnCandidate s e c n seederFloor env).1.state.torrents ∧
      ((∀ t ∈ e.state.torrents.values,
          t ∈ (actOnCandidate s e c n seederFloor env).1.state.torrents.values) → ∀ w,
        (actOnCandidate s e c n seederFloor env).1.state.get (hexEncode c.infoHash) = some w →
          WithinCeiling paths ceiling (e.state.torrents.insert w)) := by
  rcases actOnCandidate_cases s e c n seederFloor env with
    ⟨he, -⟩ | ⟨probe, md, -, ⟨loc, hfill⟩ | ⟨location, ds, hswap⟩⟩
  · have hsame : (actOnCandidate s e c n seederFloor env).1.state = e.state := by
      rcases he with he | he
      · rw [he]
      · rw [he, fetched]
    rw [hsame]
    refine ⟨h, fun _ w hw => absurd ?_ fresh⟩
    obtain ⟨hmem, hkey⟩ := KeyedList.find_eq_some.mp hw
    exact hkey ▸ KeyedList.has_of_mem hmem
  · have hwithin : WithinCeiling paths ceiling (actOnCandidate s e c n seederFloor env).1.state.torrents := by
      refine ⟨fun t ht => ?_, fun p => ?_⟩
      · rw [hfill.torrents] at ht
        rcases KeyedList.mem_insert.mp ht with rfl | ⟨hold, -⟩
        · exact configured ▸ List.mem_map_of_mem hfill.configured
        · exact h.known t hold
      · rw [hfill.total fresh (chargeAt p)]
        exact fillPlaced_chargeAt_le hfill (fun l hl hp => hp ▸ limits l hl) (room p) (h.charged p)
    refine ⟨hwithin, fun _ w hw => ?_⟩
    have hentry : (actOnCandidate s e c n seederFloor env).1.state.get (hexEncode c.infoHash) =
        some (heldEntry { c with pieceCount := md.pieceCount } md md.totalLength loc.path env.fill) := by
      rw [State.get, hfill.torrents, KeyedList.find_insert]
      exact if_pos rfl
    obtain rfl := Option.some.inj (hentry.symm.trans hw)
    exact hfill.torrents ▸ hwithin
  · obtain ⟨hheld, -, hne, -⟩ := hswap.displaced
    obtain ⟨d, hd⟩ := List.exists_mem_of_ne_nil ds hne
    have hlocation : location ∈ paths := (hheld d hd).2 ▸ h.known d (hheld d hd).1
    obtain ⟨_, _, hat, -⟩ := hswap.swap
    refine ⟨⟨fun t ht => ?_, fun p => ?_⟩, fun kept => ?_⟩
    · rw [hat.torrents] at ht
      rcases KeyedList.mem_insert.mp (KeyedList.mem_eraseAll.mp ht).1 with rfl | ⟨hold, -⟩
      · exact hlocation
      · exact h.known t hold
    · have htotal := hswap.total fresh (chargeAt p)
      have hstart : (fetched s e c env).state.torrents.total (chargeAt p) ≤ ceiling p := h.charged p
      have hle := swapPlaced_chargeAt_le hswap (hstart.trans_lt (room p))
      omega
    · have hgone := kept d (hheld d hd).1
      rw [hat.torrents] at hgone
      exact absurd (List.mem_map_of_mem hd) (KeyedList.mem_eraseAll.mp hgone).2

end Bounds

section Life

variable {paths : List PathBuf} {limit : PathBuf → Nat} {x y : CeilingNode}

/-- Where the locations are still configured, a new process holds what the file has. -/
theorem start_state_of_known {s : Settings} {stored : Stored} (torrentCache : TorrentCache) (history : List Event)
    (env : StartEnv) (known : ∀ t ∈ stored.torrents.values, t.storageLocation ∈ configuredPaths s) :
    (Engine.start s stored torrentCache history env).state = ⟨stored.torrents, stored.quarantined, stored⟩ := by
  have hsame : stored.torrents.values.map (State.rekeyed env.canonicalize (s.storage.map StorageLocation.path)) =
      stored.torrents.values := by
    refine (List.map_congr_left fun t ht => ?_).trans (List.map_id _)
    have hknown : t.storageLocation ∈ s.storage.map StorageLocation.path := known t ht
    rw [State.rekeyed, if_pos hknown, id]
  rw [Engine.start, resumeHeld_state]
  simp only [State.rekeyStorageLocations, decide_eq_true_eq]
  split
  next hchanged => exact absurd hsame hchanged
  next => rfl

/-- Every call on a candidate that is not held is a step. -/
theorem exists_ceilingStep (x : CeilingNode) (c : Candidate) (seederFloor : Nat) (env : ActEnv)
    (fresh : ¬x.node.engine.state.torrents.Has (hexEncode c.infoHash)) :
    ∃ unsettled, CeilingStep paths limit x ⟨x.node.act c seederFloor env, unsettled⟩ := by
  by_cases settled : x.node.Settled (x.node.act c seederFloor env)
  · exact ⟨x.unsettled, .act c seederFloor env fresh settled⟩
  · have lost : ¬∀ t ∈ x.node.engine.state.torrents.values, t ∈ (actOnCandidate x.node.settings x.node.engine c
        x.node.heldCount seederFloor env).1.state.torrents.values := fun kept => settled (Or.inl kept)
    rcases actOnCandidate_cases x.node.settings x.node.engine c x.node.heldCount seederFloor env with
      ⟨he, -⟩ | ⟨probe, md, -, ⟨loc, hfill⟩ | ⟨location, ds, hswap⟩⟩
    · refine absurd (fun t ht => ?_) lost
      rcases he with he | he <;> rw [he] <;> exact ht
    · refine absurd (fun t ht => ?_) lost
      rw [hfill.torrents]
      refine KeyedList.mem_insert.mpr (Or.inr ⟨ht, fun hkey => fresh ?_⟩)
      have hkey : t.infoHash = hexEncode c.infoHash := hkey
      exact hkey ▸ KeyedList.has_of_mem ht
    · obtain ⟨hheld, -⟩ := hswap.displaced
      obtain ⟨_, _, hat, -⟩ := hswap.swap
      have hout := fresh_not_mem_displaced (fun d hd => (hheld d hd).1) fresh
      have placed : (x.node.act c seederFloor env).engine.state.get (hexEncode c.infoHash) =
          some (heldEntry { c with pieceCount := md.pieceCount } md md.totalLength location
            (env.swap.place location)) := by
        simp only [Node.act]
        rw [State.get, hat.torrents, KeyedList.find_eraseAll, if_neg hout, KeyedList.find_insert]
        exact if_pos rfl
      exact ⟨_, .unsettledSwap c seederFloor env _ fresh placed⟩

theorem CeilingStep.ceiling_le (step : CeilingStep paths limit x y) (p : PathBuf) :
    x.ceiling limit p ≤ y.ceiling limit p := by
  cases step with
  | unsettledSwap c seederFloor env winner fresh placed =>
    simp only [CeilingNode.ceiling, List.map_cons, List.sum_cons]
    omega
  | _ => exact Nat.le_refl _

theorem CeilingStep.within (step : CeilingStep paths limit x y) (room : ∀ p, y.ceiling limit p < u64Max)
    (h : x.Within paths limit) : y.Within paths limit := by
  have limits : ∀ l ∈ x.node.settings.storage, l.limitBytes ≤ x.ceiling limit l.path :=
    fun l hl => (h.capped.2 l hl).trans (Nat.le_add_right _ _)
  have higher := step.ceiling_le
  have hroom : ∀ p, x.ceiling limit p < u64Max := fun p => (higher p).trans_lt (room p)
  cases step with
  | act c seederFloor env fresh settled =>
    obtain ⟨hheld, hkept⟩ := actOnCandidate_within h.capped.1 limits hroom h.held fresh
    refine ⟨h.capped, hheld, ?_⟩
    rcases settled with kept | hshown | hsame
    · exact actOnCandidate_file WithinCeiling.erase h.stored fresh _ _ _ fun w _ hw => hkept kept w hw
    · exact hshown ▸ hheld
    · exact hsame ▸ h.stored
  | unsettledSwap c seederFloor env winner fresh placed =>
    obtain ⟨hheld, -⟩ := actOnCandidate_within h.capped.1 limits hroom h.held fresh
    refine ⟨h.capped, hheld.mono higher, actOnCandidate_file WithinCeiling.erase (h.stored.mono higher) fresh _ _ _
      fun w hkey hw => ?_⟩
    obtain rfl := Option.some.inj (placed.symm.trans hw)
    refine ⟨fun t ht => ?_, fun p => ?_⟩
    · rcases KeyedList.mem_insert.mp ht with rfl | ⟨hold, -⟩
      · exact hheld.known _ (KeyedList.find_eq_some.mp placed).1
      · exact h.held.known t hold
    · have hcharged := h.held.charged p
      rw [KeyedList.total_insert_fresh (hkey ▸ fresh)]
      simp only [CeilingNode.ceiling, List.map_cons, List.sum_cons] at hcharged ⊢
      omega
  | remove hex env =>
    obtain ⟨hheld, hstored⟩ := State.Keeps.remove WithinCeiling.erase ⟨h.held, h.stored⟩ hex env.saved
    exact ⟨h.capped, hheld, hstored⟩
  | write op saved kept =>
    obtain ⟨hheld, hstored⟩ := StateOp.apply_keeps (P := WithinCeiling paths (x.ceiling limit))
      WithinCeiling.erase WithinCeiling.modify ⟨h.held, h.stored⟩ kept saved
    exact ⟨h.capped, hheld, hstored⟩
  | recount => exact ⟨h.capped, h.held, h.stored⟩
  | rehash ts perm =>
    exact ⟨h.capped, ⟨fun t ht => h.held.known t (perm.mem_iff.mp ht),
      fun p => (KeyedList.total_reorder perm _).trans_le (h.held.charged p)⟩, h.stored⟩
  | restart settings env capped =>
    have hstate := start_state_of_known x.node.engine.torrentCache x.node.engine.history env
      fun t ht => capped.1.symm ▸ h.stored.known t ht
    refine ⟨capped, ?_, ?_⟩
    · exact (congrArg State.torrents hstate).symm ▸ h.stored
    · exact (congrArg (fun st => st.file.torrents) hstate).symm ▸ h.stored

/-- Over any number of starts under limits that change for the same locations, with processes that die at any moment
and saves that fail: a location is never charged more than the highest limit it had, but for the winners of swaps that
were saved in part. -/
theorem ceilings_over_restarts (start : x.Within paths limit)
    (run : Relation.ReflTransGen (CeilingStep paths limit) x y) (room : ∀ p, y.ceiling limit p < u64Max) :
    (∀ t ∈ y.node.engine.state.all, t.storageLocation ∈ configuredPaths y.node.settings) ∧
    ∀ p, chargedAt y.node.engine.state p ≤ limit p + (y.unsettled.map (chargeAt p)).sum := by
  have hrun := run_preserves
    (P := fun z : CeilingNode => (∀ p, z.ceiling limit p < u64Max) → z.Within paths limit)
    (fun step hz room => step.within room (hz fun p => (step.ceiling_le p).trans_lt (room p))) run fun _ => start
  have h := hrun room
  refine ⟨fun t ht => h.capped.1.symm ▸ h.held.known t ht, fun p => ?_⟩
  rw [chargedAt_eq_total]
  exact h.held.charged p

/-- A process that dies before it has dropped what it displaced: the next one holds both, over the limit. -/
theorem ceilings_over_restarts_unsettled :
    let env : ActEnv :=
      { Reference.env false with
        swap := { (Reference.env false).swap with remove := fun _ => ⟨true, true, false⟩ } }
    let loser := Reference.held (hexEncode Reference.hashB) Reference.location
    let x : Node := ⟨Reference.settings, Reference.engine [loser] (by decide), 1, []⟩
    let y := (x.act (Reference.candidate Reference.hashA 1) 0 env).restart Reference.settings
      ⟨fun _ => none, true, [], fun _ => true⟩
    let winner := heldEntry (Reference.candidate Reference.hashA 1) (Reference.metadata Reference.hashA "a")
      (100 * Reference.mib) Reference.location (Reference.place true)
    200 * Reference.mib < chargedAt y.engine.state Reference.location ∧
    (∀ t ∈ y.engine.state.all, t.storageLocation ∈ configuredPaths y.settings) ∧
    ∀ p, chargedAt y.engine.state p ≤ 200 * Reference.mib + ([winner].map (chargeAt p)).sum := by
  intro env loser x y winner
  have hheld : ∀ p, chargeAt p loser ≤ 200 * Reference.mib := by
    intro p
    unfold chargeAt
    split <;> decide +kernel
  have hwithin : WithinCeiling (configuredPaths Reference.settings)
      (CeilingNode.ceiling ⟨x, []⟩ fun _ => 200 * Reference.mib) x.engine.state.torrents :=
    ⟨by decide +kernel, fun p => (hheld p).trans (Nat.le_add_right _ _)⟩
  have start : CeilingNode.Within (configuredPaths Reference.settings) (fun _ => 200 * Reference.mib) ⟨x, []⟩ :=
    ⟨⟨rfl, by decide +kernel⟩, hwithin, hwithin⟩
  have swap : CeilingStep (configuredPaths Reference.settings) (fun _ => 200 * Reference.mib) ⟨x, []⟩
      ⟨x.act (Reference.candidate Reference.hashA 1) 0 env, [winner]⟩ :=
    .unsettledSwap _ 0 env winner (by decide +kernel) (by decide +kernel)
  have restart : CeilingStep (configuredPaths Reference.settings) (fun _ => 200 * Reference.mib)
      ⟨x.act (Reference.candidate Reference.hashA 1) 0 env, [winner]⟩ ⟨y, [winner]⟩ :=
    .restart Reference.settings _ ⟨rfl, by decide +kernel⟩
  have room : ∀ p, CeilingNode.ceiling ⟨y, [winner]⟩ (fun _ => 200 * Reference.mib) p < u64Max := by
    intro p
    simp only [CeilingNode.ceiling, List.map_cons, List.map_nil, List.sum_cons, List.sum_nil, chargeAt]
    split <;> decide +kernel
  have hrun := ceilings_over_restarts start (.tail (.single swap) restart) room
  exact ⟨by decide +kernel, hrun⟩

end Life

end KeepAt
