import KeepAt.PoolTransparency

namespace KeepAt

/-- A step of a process that makes at most 2^64 storages, in which no IO of a file starts while a removal
of its path is between the unlinking and the sweep of the pool. -/
def Undisturbed (w : StorageWorld × FilePool) (o : Observed) (w' : StorageWorld × FilePool) : Prop :=
  PooledStep w o w' ∧ w'.1.created ≤ 2 ^ 64 ∧
    ∀ path request obtained, o = .began (some path) request obtained → ∀ r ∈ w.1.removals, r.path ≠ path

variable {w w' : StorageWorld × FilePool} {o : Observed} {disk : Inodes PathBuf} {cap : Nat}
  {obs : List Observed}

theorem PooledStep.served {path : PathBuf} {request : IoRequest} {ino : Nat} (h : Coherent w.1 w.2)
    (step : PooledStep w o w') (ho : o = .began (some path) request (.served ino)) : Current w.1 path ino := by
  cases step with
  | world pool hstep => cases hstep <;> simp at ho
  | begin_ w pool v fileId request first second hv meets =>
    simp only [Observed.began.injEq] at ho
    obtain ⟨hfull, -, hserved⟩ := ho
    exact h.served hv hfull (meets path hfull) hserved
  | sweep => simp at ho

theorem obtained_noSuchFile (st : PooledStorage) (pool : FilePool) (fileId : Nat) (first second : OpenOutcome) :
    st.fullPath fileId = none ↔ (st.handle pool fileId first second).2 = .noSuchFile := by
  unfold PooledStorage.handle
  split
  next h => exact iff_of_true h rfl
  next full h =>
    refine iff_of_false (by simp [h]) ?_
    dsimp only
    cases (pool.getOrOpen ⟨st.uid, fileId⟩ full first second).2 <;> simp [PoolReply.obtained]

/-- Outside the windows of removals, a storage over the pool steps as one that opens the file of each IO. -/
theorem pooled_simulates_direct :
    Simulation Undisturbed DirectStep (fun w u => u = w.1 ∧ Coherent w.1 w.2) := by
  refine ⟨fun {w o w' u} ⟨hstep, hwide, hquiet⟩ ⟨hu, h⟩ => ⟨w'.1, ?_, rfl, h.step hstep hwide⟩⟩
  subst hu
  cases hstep with
  | world pool hstep => exact .world hstep
  | sweep w pool r hr => exact .forget w r hr
  | begin_ w pool v fileId request first second hv meets =>
    refine .begin_ w v fileId request _ hv (obtained_noSuchFile _ _ _ _ _) fun full ino hfull hserved => ?_
    refine (h.served hv hfull (meets full hfull) hserved).resolve_right fun hremoved => ?_
    exact hquiet full request _ (by rw [hfull]) ⟨full, ino⟩ hremoved rfl

/-- Whatever the pool keeps, evicts or sheds, and in whatever order the threads step: what the torrents see
of their storages, and every file on the disk, are as without a pool. -/
theorem pooled_storage_is_transparent (hdisk : disk.Sound)
    (run : Trace Undisturbed (.start disk, .withCap cap) obs w) : Trace DirectStep (.start disk) obs w.1 := by
  obtain ⟨u, hrun, rfl, -⟩ := pooled_simulates_direct.run run ⟨rfl, start_coherent hdisk cap⟩
  exact hrun

def oneFileDisk : Inodes PathBuf :=
  ⟨fun p => if p = ["/", "d", "f"] then some 0 else none, fun _ => [7, 8, 9], 1⟩

theorem oneFileDisk_sound : oneFileDisk.Sound := by
  have honly : ∀ p ino, oneFileDisk.names p = some ino → p = ["/", "d", "f"] ∧ ino = 0 := by
    intro p ino h
    simp only [oneFileDisk] at h
    split at h
    next hp => exact ⟨hp, (Option.some.inj h).symm⟩
    next => simp at h
  refine ⟨fun p ino h => ?_, fun p q ino hp hq => ?_⟩
  · rw [(honly p ino h).2]
    exact Nat.zero_lt_one
  · rw [(honly p ino hp).1, (honly q ino hq).1]

def countingHash : InfoHash := ⟨(List.range 20).map UInt8.ofNat, by simp⟩

def fileStorage : View := ⟨⟨0, ["/", "d"], true, [some ["f"]]⟩, [⟨["f"], false⟩]⟩

/-- After one storage was registered, created and initialised over a file that is there. -/
def readyWorld : StorageWorld :=
  { StorageWorld.start oneFileDisk with
    registry := registerTorrent .empty countingHash ["/", "d"] true
    nextUid := 1
    created := 1
    views := [fileStorage] }

theorem undisturbed_of_no_removal (h : PooledStep w o w') (hwide : w'.1.created ≤ 2 ^ 64)
    (hnone : w.1.removals = []) : Undisturbed w o w' :=
  ⟨h, hwide, by simp [hnone]⟩

theorem ready_run : Trace Undisturbed (.start oneFileDisk, .withCap 4)
    [.quiet, .quiet, .quiet, .quiet, .initialised 0 true] (readyWorld, .withCap 4) := by
  have run := (((((Trace.refl (StorageWorld.start oneFileDisk, FilePool.withCap 4)).tail
    (undisturbed_of_no_removal (.world _ (.register _ countingHash ["/", "d"] true)) (by decide) rfl)).tail
    (undisturbed_of_no_removal
      (.world _ (.create _ countingHash [⟨["f"], false⟩] ⟨0, ["/", "d"], true, []⟩ 1 rfl)) (by decide) rfl)).tail
    (undisturbed_of_no_removal (.world _ (.init _ _ List.mem_cons_self)) (by decide) rfl)).tail
    (undisturbed_of_no_removal
      (.world _ (.initFile _ _ _ _ .opened _ _ List.mem_cons_self rfl rfl)) (by decide) rfl)).tail
    (undisturbed_of_no_removal (.world _ (.initDone _ _ List.mem_cons_self rfl)) (by decide) rfl)
  exact run

theorem reading_step :
    ∃ w, Undisturbed (readyWorld, .withCap 4)
      (.began (some ["/", "d", "f"]) (.preadExact 0 2) (.served 0)) w ∧ w.1.created = 1 := by
  refine ⟨_, undisturbed_of_no_removal (.begin_ readyWorld (.withCap 4) fileStorage 0 (.preadExact 0 2)
    (.opened 0) .failed List.mem_cons_self fun full hfull => ⟨fun ino h => ?_, fun ino h => ?_⟩) (by decide) rfl, rfl⟩
  · obtain rfl : ["/", "d", "f"] = full := Option.some.inj hfull
    obtain rfl := OpenOutcome.opened.inj h
    rfl
  · simp at h

theorem pooled_storage_is_transparent_reading :
    ∃ w, Trace DirectStep (.start oneFileDisk) [.quiet, .quiet, .quiet, .quiet, .initialised 0 true,
      .began (some ["/", "d", "f"]) (.preadExact 0 2) (.served 0)] w := by
  obtain ⟨w, step, -⟩ := reading_step
  exact ⟨w.1, pooled_storage_is_transparent oneFileDisk_sound (ready_run.tail step)⟩

theorem handle_cap (st : PooledStorage) (pool : FilePool) (fileId : Nat) (first second : OpenOutcome) :
    (st.handle pool fileId first second).1.cap = pool.cap := by
  unfold PooledStorage.handle
  split
  next => rfl
  next => exact FilePool.getOrOpen_cap pool _ _ first second

theorem PooledStep.cap_eq (step : PooledStep w o w') : w'.2.cap = w.2.cap := by
  cases step with
  | world => rfl
  | begin_ w pool v fileId request first second => exact handle_cap v.storage pool fileId first second
  | sweep w pool r => exact FilePool.evictAll_cap pool _

/-- In every run, removals in mid-way included: an IO starts on the file that its path names, or on the one
a removal of that very path has unlinked and not yet swept; the pool keeps no more than its cap open; and
with no removal in mid-way, none of the handles it keeps for a storage is on a file without a name. -/
theorem pool_keeps_current_files (hdisk : disk.Sound)
    (run : Trace PooledStep (.start disk, .withCap cap) obs w) (hwide : w.1.created ≤ 2 ^ 64) :
    (∀ path request ino w', PooledStep w (.began (some path) request (.served ino)) w' →
      Current w.1 path ino) ∧
    w.2.map.size ≤ max cap 1 ∧
    (w.1.removals = [] → ∀ v ∈ w.1.live, ∀ e ∈ w.2.map.values, e.key.uid = v.storage.uid →
      w.1.disk.names e.path = some e.handle.serial) := by
  have h := run_coherent hdisk run hwide
  refine ⟨fun path request ino w' step => step.served h rfl, ?_, fun hnone v hv e he huid => ?_⟩
  · obtain ⟨pathOf, hsound⟩ := h.bounded
    have hcap : w.2.cap = max cap 1 :=
      run.invariant (P := fun w => w.2.cap = max cap 1) (fun step hc => step.cap_eq.trans hc) rfl
    exact hcap ▸ hsound.bounded
  · refine (h.current e he ⟨v, hv, huid.symm⟩).resolve_right fun hremoved => ?_
    rw [hnone] at hremoved
    exact List.not_mem_nil hremoved

theorem pool_keeps_current_files_reading : Current readyWorld ["/", "d", "f"] 0 := by
  obtain ⟨w, step, -⟩ := reading_step
  exact (pool_keeps_current_files oneFileDisk_sound (ready_run.imp fun h => h.1) (by decide)).1 _ _ _ w step.1

end KeepAt
