import KeepAt.Reference
import KeepAt.Runs

namespace KeepAt

/-- The operations by which the rest of the program writes to its state. -/
inductive StateOp where
  | put (t : Torrent)
  | update (hex : String) (f : TorrentUpdate)
  | remove (hex : String)
  | quarantinePut (hex : String) (q : Quarantine)
  | quarantineAndRemove (hex : String) (q : Quarantine)
  | quarantineRemove (hex : String)
  | quarantineRemoveMany (hashes : List String)
  | liftCompleted (hex : String) (checked sizeBytes : Nat)
  | updateEach (updates : List (String × TorrentUpdate))
  | updateProgressMany (progress : List (String × Nat)) (now : Time)

namespace StateOp

/-- The state an operation leaves, and whether it returned `Ok`. -/
def apply (s : State) (saved : Bool) : StateOp → State × Bool
  | put t => (s.put t saved).map id Option.isSome
  | update hex f => (s.update hex f saved).map id Option.isSome
  | remove hex => (s.remove hex saved).map id Option.isSome
  | quarantinePut hex q => (s.quarantinePut hex q saved).map id Option.isSome
  | quarantineAndRemove hex q => (s.quarantineAndRemove hex q saved).map id Option.isSome
  | quarantineRemove hex => (s.quarantineRemove hex saved).map id Option.isSome
  | quarantineRemoveMany hashes => (s.quarantineRemoveMany hashes saved).map id Option.isSome
  | liftCompleted hex checked sizeBytes => (s.liftCompleted hex checked sizeBytes saved).map id Option.isSome
  | updateEach updates => (s.updateEach updates saved).map id Option.isSome
  | updateProgressMany progress now => (s.updateProgressMany progress now saved).map id Option.isSome

/-- Whether an operation finds something to do. Only then does it write the file. -/
def writes (s : State) : StateOp → Bool
  | update hex _ => decide (s.torrents.Has hex)
  | quarantineRemove hex => decide (s.quarantined.Has hex)
  | quarantineRemoveMany hashes => hashes.any fun hex => decide (s.quarantined.Has hex)
  | liftCompleted hex checked sizeBytes =>
    completionLifts checked sizeBytes && decide (s.quarantined.Has hex)
  | updateEach updates => updates.any fun u => decide (s.torrents.Has u.1)
  | updateProgressMany progress _ =>
    progress.any fun p => (s.torrents.find p.1).any (State.progressGrew · p.2)
  | _ => true

end StateOp

/-- The file decodes to what is in memory. -/
def State.Durable (s : State) : Prop := s.file = ⟨s.torrents, s.quarantined⟩

/-- A state, and whether a save has failed since the last one that went through. -/
structure Journal where
  state : State
  stale : Bool

def Journal.call (x : Journal) (op : StateOp × Bool) : Journal :=
  { state := (op.1.apply x.state op.2).1
    stale := if op.1.writes x.state then !op.2 else x.stale }

variable {s : State}

theorem progressUpdate_of_not_grew {t : Torrent} {checked : Nat} {now : Time}
    (h : State.progressGrew t checked = false) : (State.progressUpdate checked now).apply t = t := by
  simp only [State.progressUpdate, h, Bool.false_eq_true, if_false]

theorem saveChanged_spec {α : Type} (s : State) (changed : Bool) (result : α) (saved : Bool) :
    (s.saveChanged changed result saved).map id Option.isSome =
      if changed then ((s.save saved).1, saved) else (s, true) := by
  cases changed <;> cases saved <;> rfl

theorem save_spec (s : State) (saved : Bool) :
    (s.save saved).map id Option.isSome = ((s.save saved).1, saved) := by
  cases saved <;> rfl

/-- How an operation works: with something to do it changes the maps and saves, else it returns at once. -/
structure Settles (s : State) (op : StateOp) (saved : Bool) : Prop where
  busy : op.writes s = true →
    ∃ t : State, t.file = s.file ∧ op.apply s saved = ((t.save saved).1, saved)
  idle : op.writes s = false → op.apply s saved = (s, true)

theorem Settles.of_changed {op : StateOp} {saved : Bool} {α : Type} (t : State) (changed : Bool) {result : α}
    (apply : op.apply s saved = (t.saveChanged changed result saved).map id Option.isSome)
    (file : t.file = s.file) (writes : op.writes s = changed) (quiet : changed = false → t = s) :
    Settles s op saved := by
  rw [saveChanged_spec] at apply
  refine ⟨fun h => ⟨t, file, ?_⟩, fun h => ?_⟩
  · rw [apply, if_pos (writes ▸ h)]
  · rw [writes] at h
    rw [apply, if_neg (by simp [h]), quiet h]

theorem Settles.of_save {op : StateOp} {saved : Bool} {t : State}
    (apply : op.apply s saved = (t.save saved).map id Option.isSome)
    (file : t.file = s.file) (writes : op.writes s = true) : Settles s op saved :=
  ⟨fun _ => ⟨t, file, apply.trans (save_spec t saved)⟩, fun h => absurd (writes.symm.trans h) (by simp)⟩

/-- A batch changes something exactly when some entry of it does by itself. -/
theorem Settles.of_batch {op : StateOp} {saved : Bool} {α β γ : Type} {step : β × γ → α → β × γ}
    {hit : β → α → Bool} {changed : γ → Bool} (batch : Batch step hit changed) {xs : List α} {b : β} {c : γ}
    (put : β → State) (apply : op.apply s saved = ((put (xs.foldl step (b, c)).1).saveChanged
      (changed (xs.foldl step (b, c)).2) (xs.foldl step (b, c)).2 saved).map id Option.isSome)
    (file : ∀ b, (put b).file = s.file) (writes : op.writes s = xs.any (hit b)) (start : put b = s)
    (unchanged : changed c = false) : Settles s op saved := by
  refine Settles.of_changed _ _ apply (file _) ?_ ?_
  · rw [writes]
    cases hw : xs.any (hit b) with
    | true => exact (batch.foldl_marks hw).symm
    | false => rw [batch.foldl_quiet hw, unchanged]
  · intro hn
    cases hw : xs.any (hit b) with
    | true => exact absurd (hn.symm.trans (batch.foldl_marks hw)) (by simp)
    | false => rw [batch.foldl_quiet hw, start]

def removeStep (acc : Registry × Nat) (hex : String) : Registry × Nat :=
  (acc.1.erase hex, if acc.1.Has hex then acc.2 + 1 else acc.2)

def progressStep (now : Time) (acc : HeldMap × Bool) (p : String × Nat) : HeldMap × Bool :=
  (acc.1.modify p.1 (State.progressUpdate p.2 now).apply (State.progressUpdate p.2 now).keeps,
    acc.2 || (acc.1.find p.1).any (State.progressGrew · p.2))

theorem updateEach_batch :
    Batch (fun (acc : HeldMap × Nat) (u : String × TorrentUpdate) =>
        (acc.1.modify u.1 u.2.apply u.2.keeps, if acc.1.Has u.1 then acc.2 + 1 else acc.2))
      (fun m u => decide (m.Has u.1)) (fun n => decide (n > 0)) := by
  refine ⟨fun m n u h => ?_, fun m n u h => ?_, fun acc u h => ?_⟩
  · have hn : ¬m.Has u.1 := of_decide_eq_false h
    have hm : m.modify u.1 u.2.apply u.2.keeps = m :=
      KeyedList.modify_eq_self fun t ht hk => absurd (hk ▸ KeyedList.has_of_mem ht) hn
    rw [if_neg hn, hm]
  · rw [if_pos (of_decide_eq_true h)]
    simp
  · rw [decide_eq_true_eq] at h ⊢
    split <;> omega

theorem removeStep_batch : Batch removeStep (fun m hex => decide (m.Has hex)) (fun n => decide (n > 0)) := by
  refine ⟨fun m n hex h => ?_, fun m n hex h => ?_, fun acc hex h => ?_⟩
  · have hn : ¬m.Has hex := of_decide_eq_false h
    rw [removeStep, if_neg hn, KeyedList.erase_of_not_has hn]
  · rw [removeStep, if_pos (of_decide_eq_true h)]
    simp
  · rw [decide_eq_true_eq] at h ⊢
    unfold removeStep
    split <;> omega

theorem progressStep_batch (now : Time) :
    Batch (progressStep now) (fun m p => (m.find p.1).any (State.progressGrew · p.2)) id := by
  refine ⟨fun m b p h => ?_, fun m b p h => ?_, fun acc p h => ?_⟩
  · have hm : m.modify p.1 (State.progressUpdate p.2 now).apply (State.progressUpdate p.2 now).keeps = m := by
      refine KeyedList.modify_eq_self fun t ht hk => progressUpdate_of_not_grew ?_
      rw [KeyedList.find_eq_some.mpr ⟨ht, hk⟩] at h
      exact h
    rw [progressStep, h, hm, Bool.or_false]
  · rw [progressStep, h]
    simp
  · have hb : acc.2 = true := h
    simp [progressStep, hb]

theorem updateEach_settles (s : State) (updates : List (String × TorrentUpdate)) (saved : Bool) :
    Settles s (.updateEach updates) saved :=
  .of_batch updateEach_batch (fun torrents => { s with torrents }) rfl (fun _ => rfl) rfl rfl rfl

theorem quarantineRemoveMany_settles (s : State) (hashes : List String) (saved : Bool) :
    Settles s (.quarantineRemoveMany hashes) saved :=
  .of_batch removeStep_batch (fun quarantined => { s with quarantined }) rfl (fun _ => rfl) rfl rfl rfl

theorem updateProgressMany_settles (s : State) (progress : List (String × Nat)) (now : Time)
    (saved : Bool) : Settles s (.updateProgressMany progress now) saved :=
  .of_batch (progressStep_batch now) (fun torrents => { s with torrents }) rfl (fun _ => rfl) rfl rfl rfl

theorem quarantineRemove_settles (s : State) (hex : String) (saved : Bool) :
    Settles s (.quarantineRemove hex) saved := by
  refine .of_changed { s with quarantined := s.quarantined.erase hex }
    (decide (s.quarantined.Has hex)) rfl rfl rfl fun h => ?_
  rw [KeyedList.erase_of_not_has (of_decide_eq_false h)]

theorem StateOp.settles (s : State) (op : StateOp) (saved : Bool) : Settles s op saved := by
  cases op with
  | put t => exact .of_save rfl rfl rfl
  | update hex f =>
    refine .of_changed { s with torrents := s.torrents.modify hex f.apply f.keeps }
      (s.get hex).isSome rfl rfl ?_ fun h => ?_
    · cases hg : s.get hex with
      | none => exact decide_eq_false (KeyedList.find_eq_none.mp hg)
      | some t =>
        obtain ⟨ht, hk⟩ := KeyedList.find_eq_some.mp hg
        exact decide_eq_true (hk ▸ KeyedList.has_of_mem ht)
    · have hnone : s.get hex = none := by simpa using h
      have hn := KeyedList.find_eq_none.mp hnone
      rw [KeyedList.modify_eq_self fun t ht (hk : t.infoHash = hex) =>
        absurd (hk ▸ KeyedList.has_of_mem ht) hn]
  | remove hex => exact .of_save rfl rfl rfl
  | quarantinePut hex q => exact .of_save rfl rfl rfl
  | quarantineAndRemove hex q => exact .of_save rfl rfl rfl
  | quarantineRemove hex => exact quarantineRemove_settles s hex saved
  | quarantineRemoveMany hashes => exact quarantineRemoveMany_settles s hashes saved
  | liftCompleted hex checked sizeBytes =>
    cases hw : completionLifts checked sizeBytes && decide (s.quarantined.Has hex) with
    | true =>
      have hp : (!completionLifts checked sizeBytes || !decide (s.quarantined.Has hex)) = false := by
        rw [← Bool.not_and, hw]
        rfl
      obtain ⟨hbusy, hidle⟩ := quarantineRemove_settles s hex saved
      have happly : (StateOp.liftCompleted hex checked sizeBytes).apply s saved =
          (StateOp.quarantineRemove hex).apply s saved := by
        simp only [StateOp.apply, State.liftCompleted, hp, Bool.false_eq_true, if_false]
      refine ⟨fun _ => ?_, fun h => absurd (hw.symm.trans h) (by simp)⟩
      rw [happly]
      exact hbusy (Bool.and_eq_true_iff.mp hw).2
    | false =>
      have hp : (!completionLifts checked sizeBytes || !decide (s.quarantined.Has hex)) = true := by
        rw [← Bool.not_and, hw]
        rfl
      refine ⟨fun h => absurd (hw.symm.trans h) (by simp), fun _ => ?_⟩
      simp only [StateOp.apply, State.liftCompleted, hp, if_true]
      rfl
  | updateEach updates => exact updateEach_settles s updates saved
  | updateProgressMany progress now => exact updateProgressMany_settles s progress now saved

theorem durable_save {s t : State} (h : (s.save true).1 = t) : t.Durable := by
  subst h
  rfl

/-- Where no save has failed since the last one that went through, the file is up to date. -/
theorem journal_durable {x : Journal} (op : StateOp × Bool) (h : x.stale = false → x.state.Durable) :
    (x.call op).stale = false → (x.call op).state.Durable := by
  obtain ⟨op, saved⟩ := op
  obtain ⟨busy, idle⟩ := StateOp.settles x.state op saved
  intro hs
  cases hw : op.writes x.state with
  | true =>
    obtain ⟨t, -, happly⟩ := busy hw
    simp only [Journal.call, hw, if_true, Bool.not_eq_false'] at hs
    subst hs
    simp only [Journal.call, happly]
    exact durable_save rfl
  | false =>
    simp only [Journal.call, hw, Bool.false_eq_true, if_false] at hs
    simp only [Journal.call, idle hw]
    exact h hs

/-- After any calls, an operation that returns `Ok` and had something to write leaves a file that
decodes to what is in memory. One that had nothing to write leaves state and file as they were, so
that the file is out of date only if a save has failed since the last one that went through. -/
theorem stateOps_ok_durable (s : State) (loaded : s.Durable) (calls : List (StateOp × Bool))
    (op : StateOp) (saved : Bool) :
    let x := calls.foldl Journal.call ⟨s, false⟩
    let r := op.apply x.state saved
    r.2 = true →
      (op.writes x.state = true → r.1.Durable) ∧
      (op.writes x.state = false → r.1 = x.state) ∧
      (x.stale = false → r.1.Durable) := by
  intro x r hok
  have fresh : x.stale = false → x.state.Durable := by
    have run : ∀ (calls : List (StateOp × Bool)) (x : Journal), (x.stale = false → x.state.Durable) →
        (calls.foldl Journal.call x).stale = false → (calls.foldl Journal.call x).state.Durable := by
      intro calls
      induction calls with
      | nil => exact fun _ h => h
      | cons op calls ih => exact fun x h => ih _ (journal_durable op h)
    exact run calls ⟨s, false⟩ fun _ => loaded
  obtain ⟨busy, idle⟩ := StateOp.settles x.state op saved
  have written : op.writes x.state = true → r.1.Durable := by
    intro hw
    obtain ⟨t, -, happly⟩ := busy hw
    simp only [r, happly] at hok ⊢
    rw [hok]
    exact durable_save rfl
  have kept : op.writes x.state = false → r.1 = x.state := fun hw => by simp only [r, idle hw]
  refine ⟨written, kept, fun hs => ?_⟩
  cases hw : op.writes x.state with
  | true => exact written hw
  | false => exact kept hw ▸ fresh hs

/-- A save that fails, and the next call's, which has both entries. -/
theorem stateOps_ok_durable_put :
    let s := (Reference.engine [] List.nodup_nil).state
    let failed := (StateOp.put (Reference.held (hexEncode Reference.hashB) Reference.location)).apply s false
    let r := (StateOp.put (Reference.held (hexEncode Reference.hashA) Reference.location)).apply failed.1 true
    failed.2 = false ∧ ¬failed.1.Durable ∧ r.2 = true ∧ r.1.Durable ∧ r.1.file.torrents.values.length = 2 := by
  intro s failed r
  have hdurable := (stateOps_ok_durable s rfl
    [(.put (Reference.held (hexEncode Reference.hashB) Reference.location), false)]
    (.put (Reference.held (hexEncode Reference.hashA) Reference.location)) true rfl).1 rfl
  have hstale : ¬failed.1.Durable := fun h =>
    absurd (congrArg (fun file => file.torrents.values.length) h) (by decide +kernel)
  exact ⟨rfl, hstale, rfl, hdurable, by decide +kernel⟩

/-- A `put` whose save fails, and then a call with nothing to do. -/
theorem stateOps_ok_stale :
    let s := (Reference.engine [] List.nodup_nil).state
    let t := Reference.held (hexEncode Reference.hashA) Reference.location
    let x := [(StateOp.put t, false)].foldl Journal.call ⟨s, false⟩
    let r := (StateOp.quarantineRemoveMany []).apply x.state true
    s.Durable ∧ r.2 = true ∧ ¬r.1.Durable := by
  intro s t x r
  refine ⟨rfl, rfl, fun h => ?_⟩
  have hfile := congrArg (fun f => f.torrents.values) h
  cases hfile

end KeepAt
