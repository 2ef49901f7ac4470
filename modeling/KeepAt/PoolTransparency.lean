import KeepAt.PooledRun

namespace KeepAt

namespace FilePool

variable {p : FilePool} {key : PoolKey} {path : PathBuf} {e : PoolEntry}

theorem mem_shed {n : Nat} (h : e ∈ (FilePool.shed n p).map.values) : e ∈ p.map.values := by
  induction n generalizing p with
  | zero => exact h
  | succ n ih =>
    unfold FilePool.shed at h
    split at h
    next => exact h
    next victim _ => exact (KeyedList.mem_erase.mp (ih (p := p.evict victim) h)).1

theorem mem_makeRoom {fuel : Nat} (h : e ∈ (FilePool.makeRoom key fuel p).map.values) :
    e ∈ p.map.values := by
  induction fuel generalizing p with
  | zero => exact h
  | succ fuel ih =>
    unfold FilePool.makeRoom at h
    split at h
    next =>
      split at h
      next => exact h
      next victim _ =>
        split at h
        next => exact h
        next => exact (KeyedList.mem_erase.mp (ih (p := p.evict victim) h)).1
    next => exact h

theorem mem_openAndInsert {serial : Nat} (h : e ∈ (p.openAndInsert key path serial).1.map.values) :
    e ∈ p.map.values ∨ e = ⟨key, ⟨key, path, serial⟩, path⟩ := by
  rcases KeyedList.mem_insert.mp h with rfl | ⟨he, -⟩
  · exact Or.inr rfl
  · exact Or.inl (mem_makeRoom he)

/-- A cached handle was cached before, or is on the file that this request opened. -/
theorem mem_getOrOpen {first second : OpenOutcome} (h : e ∈ (p.getOrOpen key path first second).1.map.values) :
    e ∈ p.map.values ∨ ∃ serial, (first = .opened serial ∨ second = .opened serial) ∧
      e = ⟨key, ⟨key, path, serial⟩, path⟩ := by
  unfold FilePool.getOrOpen at h
  split at h
  next => exact Or.inl h
  next =>
    split at h
    next serial => exact (mem_openAndInsert h).imp_right fun he => ⟨serial, Or.inl rfl, he⟩
    next => exact Or.inl h
    next =>
      dsimp only at h
      split at h
      next serial => exact (mem_openAndInsert h).imp mem_shed fun he => ⟨serial, Or.inr rfl, he⟩
      next => exact Or.inl (mem_shed h)
      next => exact Or.inl (mem_shed h)

/-- A served handle is the cached one of the key, or on the file that this request opened. -/
theorem served_getOrOpen {first second : OpenOutcome} {handle : PoolHandle}
    (h : (p.getOrOpen key path first second).2 = .served handle) :
    (∃ e ∈ p.map.values, e.key = key ∧ e.handle = handle) ∨
      first = .opened handle.serial ∨ second = .opened handle.serial := by
  unfold FilePool.getOrOpen at h
  split at h
  next e hfind =>
    obtain ⟨he, hkey⟩ := KeyedList.find_eq_some.mp hfind
    exact Or.inl ⟨e, he, hkey, PoolReply.served.inj h⟩
  next =>
    split at h
    next serial =>
      obtain rfl := PoolReply.served.inj ((openAndInsert_reply p key path serial).symm.trans h)
      exact Or.inr (Or.inl rfl)
    next => simp at h
    next =>
      dsimp only at h
      split at h
      next serial =>
        obtain rfl := PoolReply.served.inj ((openAndInsert_reply _ key path serial).symm.trans h)
        exact Or.inr (Or.inr rfl)
      next => simp at h
      next => simp at h

theorem Sound.congr {pathOf pathOf' : PoolKey → PathBuf} (h : p.Sound pathOf)
    (agree : ∀ e ∈ p.map.values, pathOf' e.key = e.path) : p.Sound pathOf' := by
  refine ⟨h.roomy, h.sameKeys, h.bounded, fun e he => ?_⟩
  obtain ⟨hfor, hpath, hkept⟩ := h.opened e he
  exact ⟨hfor, hpath.trans (hkept.symm.trans (agree e he).symm), (agree e he).symm⟩

end FilePool

/-- What `init` pushes for the files of a torrent. -/
def initPaths (metadata : List FileInfo) : List (Option PathBuf) :=
  metadata.map fun fi => if fi.padding then none else some fi.relativeFilename

namespace View

/-- The path of a file of a storage that has been initialised. -/
def pathAt (v : View) (fileId : Nat) : Option PathBuf :=
  ((initPaths v.metadata)[fileId]?.join).map (joinPath v.storage.outputFolder)

/-- Views of one torrent under one id. -/
structure Same (v u : View) : Prop where
  uid : v.storage.uid = u.storage.uid
  folder : v.storage.outputFolder = u.storage.outputFolder
  metadata : v.metadata = u.metadata

theorem Same.pathAt {v u : View} (h : v.Same u) (fileId : Nat) : v.pathAt fileId = u.pathAt fileId := by
  rw [View.pathAt, View.pathAt, h.metadata, h.folder]

/-- A storage resolves nothing before `init`, and the paths of its metadata after. -/
def Resolves (v : View) : Prop := v.storage.paths = [] ∨ v.storage.paths = initPaths v.metadata

theorem Resolves.pathAt {v : View} {fileId : Nat} {full : PathBuf} (h : v.Resolves)
    (hfull : v.storage.fullPath fileId = some full) : v.pathAt fileId = some full := by
  rcases h with h | h
  · simp [PooledStorage.fullPath, h] at hfull
  · rw [View.pathAt, ← h]
    exact hfull

theorem pathAt_mem {v : View} {fileId : Nat} {full : PathBuf} (h : v.pathAt fileId = some full) :
    ∃ fi ∈ v.metadata, joinPath v.storage.outputFolder fi.relativeFilename = full := by
  obtain ⟨rel, hrel, rfl⟩ := Option.map_eq_some_iff.mp h
  have hmem := List.mem_of_getElem? (Option.join_eq_some_iff.mp hrel)
  obtain ⟨fi, hfi, hpath⟩ := List.mem_map.mp hmem
  split at hpath
  next => simp at hpath
  next => exact ⟨fi, hfi, congrArg _ (Option.some.inj hpath)⟩

end View

/-- The cached file is the one its path names, or one that is being removed. -/
def Current (w : StorageWorld) (path : PathBuf) (ino : Nat) : Prop :=
  w.disk.names path = some ino ∨ ⟨path, ino⟩ ∈ w.removals

/-- A pool whose handles, as far as they belong to a storage, are on the current files of its paths. -/
structure Coherent (w : StorageWorld) (pool : FilePool) : Prop where
  disk : w.disk.Sound
  bounded : ∃ pathOf, pool.Sound pathOf
  counter : w.nextUid = w.created % 2 ^ 64
  issued : ∀ v ∈ w.live, v.storage.uid < w.created
  resolves : ∀ v ∈ w.live, v.Resolves
  progress : ∀ i ∈ w.inits, i.paths ++ initPaths i.remaining = initPaths i.view.metadata
  same : ∀ v ∈ w.live, ∀ u ∈ w.live, v.storage.uid = u.storage.uid → v.Same u
  cached : ∀ e ∈ pool.map.values, e.key.uid < w.created
  known : ∀ e ∈ pool.map.values, ∀ v ∈ w.live, v.storage.uid = e.key.uid →
    v.pathAt e.key.fileId = some e.path
  current : ∀ e ∈ pool.map.values, (∃ v ∈ w.live, v.storage.uid = e.key.uid) →
    Current w e.path e.handle.serial

namespace Coherent

variable {w w' : StorageWorld} {pool : FilePool}

/-- A step that brings no new storage and keeps the files of the storages that stay. -/
theorem keeps (h : Coherent w pool) (hdisk : w'.disk.Sound) (hnext : w'.nextUid = w.nextUid)
    (hcreated : w'.created = w.created)
    (hlive : ∀ v ∈ w'.live, v.Resolves ∧ ∃ u ∈ w.live, v.Same u)
    (hprogress : ∀ i ∈ w'.inits, i.paths ++ initPaths i.remaining = initPaths i.view.metadata)
    (hcurrent : ∀ v ∈ w'.live, ∀ fileId path ino, v.pathAt fileId = some path → Current w path ino →
      Current w' path ino) : Coherent w' pool := by
  have hknown : ∀ e ∈ pool.map.values, ∀ v ∈ w'.live, v.storage.uid = e.key.uid →
      v.pathAt e.key.fileId = some e.path := by
    intro e he v hv huid
    obtain ⟨-, u, hu, hsame⟩ := hlive v hv
    rw [hsame.pathAt]
    exact h.known e he u hu (hsame.uid.symm.trans huid)
  refine ⟨hdisk, h.bounded, by rw [hnext, hcreated, h.counter], fun v hv => ?_, fun v hv => (hlive v hv).1,
    hprogress, fun v hv u hu huid => ?_, hcreated ▸ h.cached, hknown, fun e he => ?_⟩
  · obtain ⟨-, u, hu, hsame⟩ := hlive v hv
    rw [hcreated, hsame.uid]
    exact h.issued u hu
  · obtain ⟨-, v', hv', hsame⟩ := hlive v hv
    obtain ⟨-, u', hu', hsame'⟩ := hlive u hu
    have hold := h.same v' hv' u' hu' (hsame.uid.symm.trans (huid.trans hsame'.uid))
    exact ⟨huid, hsame.folder.trans (hold.folder.trans hsame'.folder.symm),
      hsame.metadata.trans (hold.metadata.trans hsame'.metadata.symm)⟩
  · rintro ⟨v, hv, huid⟩
    obtain ⟨-, u, hu, hsame⟩ := hlive v hv
    exact hcurrent v hv _ _ _ (hknown e he v hv huid) (h.current e he ⟨u, hu, hsame.uid.symm.trans huid⟩)

theorem create {st : PooledStorage} {next : Nat} {infoHash : InfoHash} {metadata : List FileInfo}
    (h : Coherent w pool) (hwide : w.created + 1 ≤ 2 ^ 64)
    (hst : PooledStorage.create w.registry w.nextUid infoHash = some (st, next)) :
    Coherent { w with nextUid := next, created := w.created + 1, views := ⟨st, metadata⟩ :: w.views } pool := by
  obtain ⟨reg, -, hreg⟩ := Option.map_eq_some_iff.mp hst
  obtain ⟨rfl, rfl⟩ := Prod.mk.inj hreg
  have huid : w.nextUid = w.created := h.counter.trans (Nat.mod_eq_of_lt hwide)
  have hold : ∀ v ∈ w.live, v.storage.uid ≠ w.nextUid := fun v hv he => by
    have hlt := h.issued v hv
    omega
  have hentry : ∀ e ∈ pool.map.values, w.nextUid ≠ e.key.uid := fun e he hk => by
    have hlt := h.cached e he
    omega
  refine ⟨h.disk, h.bounded, by rw [huid], ?_, ?_, h.progress, ?_, fun e he => Nat.lt_succ_of_lt (h.cached e he),
    fun e he v hv hk => ?_, fun e he => ?_⟩
  · rintro v (_ | ⟨_, hv⟩)
    · exact huid ▸ Nat.lt_succ_self _
    · exact Nat.lt_succ_of_lt (h.issued v hv)
  · rintro v (_ | ⟨_, hv⟩)
    · exact Or.inl rfl
    · exact h.resolves v hv
  · rintro v (_ | ⟨_, hv⟩) u (_ | ⟨_, hu⟩) hvu
    · exact ⟨rfl, rfl, rfl⟩
    · exact absurd hvu.symm (hold u hu)
    · exact absurd hvu (hold v hv)
    · exact h.same v hv u hu hvu
  · rcases List.mem_cons.mp hv with rfl | hv
    · exact absurd hk (hentry e he)
    · exact h.known e he v hv hk
  · rintro ⟨v, hv, hk⟩
    rcases List.mem_cons.mp hv with rfl | hv
    · exact absurd hk (hentry e he)
    · exact h.current e he ⟨v, hv, hk⟩

end Coherent

theorem initFile_disk {st : PooledStorage} {disk disk' : Inodes PathBuf} {fi : FileInfo} {outcome : InitOutcome}
    {path : Option (Option PathBuf)} (h : st.initFile disk fi outcome = (disk', path)) :
    disk' = disk ∨ ∃ full, disk' = disk.touch full := by
  unfold PooledStorage.initFile at h
  split at h
  next => exact Or.inl (Prod.mk.inj h).1.symm
  next =>
    dsimp only at h
    split at h
    next => exact Or.inl (Prod.mk.inj h).1.symm
    next =>
      split at h
      next => exact Or.inl (Prod.mk.inj h).1.symm
      next =>
        cases outcome with
        | refused => exact Or.inl (Prod.mk.inj h).1.symm
        | refusedAfterCreation => exact Or.inr ⟨_, (Prod.mk.inj h).1.symm⟩
        | opened => exact Or.inr ⟨_, (Prod.mk.inj h).1.symm⟩

theorem initFile_path {st : PooledStorage} {disk disk' : Inodes PathBuf} {fi : FileInfo} {outcome : InitOutcome}
    {path : Option PathBuf} (h : st.initFile disk fi outcome = (disk', some path)) :
    path = if fi.padding then none else some fi.relativeFilename := by
  unfold PooledStorage.initFile at h
  split at h
  next hpad => rw [if_pos hpad, Option.some.inj (Prod.mk.inj h).2]
  next hpad =>
    rw [if_neg hpad]
    dsimp only at h
    split at h
    next => simp at h
    next =>
      split at h
      next => simp at h
      next =>
        cases outcome with
        | refused => simp at h
        | refusedAfterCreation => simp at h
        | opened => exact (Option.some.inj (Prod.mk.inj h).2).symm

/-- A file made by an `init` changes neither the disk's other names nor any that is there. -/
theorem initFile_keeps {st : PooledStorage} {disk disk' : Inodes PathBuf} {fi : FileInfo} {outcome : InitOutcome}
    {path : Option (Option PathBuf)} (h : st.initFile disk fi outcome = (disk', path)) (hsound : disk.Sound) :
    disk'.Sound ∧ ∀ p ino, disk.names p = some ino → disk'.names p = some ino := by
  rcases initFile_disk h with rfl | ⟨full, rfl⟩
  · exact ⟨hsound, fun _ _ => id⟩
  · exact ⟨hsound.touch full, fun _ _ => Inodes.names_touch_of_some⟩

namespace Coherent

variable {w w' : StorageWorld} {pool : FilePool} {o : Observed}

theorem world (h : Coherent w pool) (step : StorageStep w o w') (hwide : w'.created ≤ 2 ^ 64) :
    Coherent w' pool := by
  have hself : ∀ v ∈ w.live, v.Resolves ∧ ∃ u ∈ w.live, v.Same u :=
    fun v hv => ⟨h.resolves v hv, v, hv, rfl, rfl, rfl⟩
  have hviews : ∀ v ∈ w.views, v ∈ w.live := fun v hv => List.mem_append_left _ hv
  have hinits : ∀ i ∈ w.inits, i.view ∈ w.live := fun i hi => List.mem_append_right _ (List.mem_map_of_mem hi)
  cases step with
  | register => exact h.keeps h.disk rfl rfl hself h.progress fun _ _ _ _ _ _ => id
  | unregister => exact h.keeps h.disk rfl rfl hself h.progress fun _ _ _ _ _ _ => id
  | create infoHash metadata st next hst => exact h.create hwide hst
  | init v hv =>
    refine h.keeps h.disk rfl rfl (fun u hu => ?_) ?_ fun _ _ _ _ _ _ => id
    · rcases List.mem_append.mp hu with hu | hu
      · exact hself u (hviews u (List.mem_of_mem_erase hu))
      · rcases List.mem_cons.mp hu with rfl | hu
        · exact hself _ (hviews _ hv)
        · exact hself u (List.mem_append_right _ hu)
    · rintro i (_ | ⟨_, hi⟩)
      · exact List.nil_append _
      · exact h.progress i hi
  | initFile i fi rest outcome disk path hi hnext hok =>
    obtain ⟨hsound, hnames⟩ := initFile_keeps hok h.disk
    refine h.keeps hsound rfl rfl (fun u hu => ?_) ?_ fun _ _ _ _ _ _ => ?_
    · rcases List.mem_append.mp hu with hu | hu
      · exact hself u (hviews u hu)
      · rcases List.mem_cons.mp hu with rfl | hu
        · exact hself _ (hinits i hi)
        · obtain ⟨j, hj, rfl⟩ := List.mem_map.mp hu
          exact hself _ (hinits j (List.mem_of_mem_erase hj))
    · rintro j (_ | ⟨_, hj⟩)
      · have hprogress := h.progress i hi
        rw [hnext] at hprogress
        rw [initFile_path hok, List.append_assoc]
        exact hprogress
      · exact h.progress j (List.mem_of_mem_erase hj)
    · exact Or.imp_left (hnames _ _)
  | initFails i fi rest outcome disk hi hnext hrefused =>
    obtain ⟨hsound, hnames⟩ := initFile_keeps hrefused h.disk
    refine h.keeps hsound rfl rfl (fun u hu => ?_) (fun j hj => h.progress j (List.mem_of_mem_erase hj))
      fun _ _ _ _ _ _ => Or.imp_left (hnames _ _)
    rcases List.mem_append.mp hu with hu | hu
    · rcases List.mem_cons.mp hu with rfl | hu
      · exact hself _ (hinits i hi)
      · exact hself u (hviews u hu)
    · obtain ⟨j, hj, rfl⟩ := List.mem_map.mp hu
      exact hself _ (hinits j (List.mem_of_mem_erase hj))
  | initDone i hi hlast =>
    refine h.keeps h.disk rfl rfl (fun u hu => ?_) (fun j hj => h.progress j (List.mem_of_mem_erase hj))
      fun _ _ _ _ _ _ => id
    rcases List.mem_append.mp hu with hu | hu
    · rcases List.mem_cons.mp hu with rfl | hu
      · have hprogress := h.progress i hi
        rw [hlast] at hprogress
        exact ⟨Or.inr ((List.append_nil _).symm.trans hprogress), i.view, hinits i hi, rfl, rfl, rfl⟩
      · exact hself u (hviews u hu)
    · obtain ⟨j, hj, rfl⟩ := List.mem_map.mp hu
      exact hself _ (hinits j (List.mem_of_mem_erase hj))
  | take v hv =>
    refine h.keeps h.disk rfl rfl (fun u hu => ?_) h.progress fun _ _ _ _ _ _ => id
    rcases List.mem_cons.mp hu with rfl | hu
    · exact hself v (hviews v hv)
    · exact hself u hu
  | drop v =>
    refine h.keeps h.disk rfl rfl (fun u hu => ?_) h.progress fun _ _ _ _ _ _ => id
    rcases List.mem_append.mp hu with hu | hu
    · exact hself u (hviews u (List.mem_of_mem_erase hu))
    · exact hself u (List.mem_append_right _ hu)
  | io io io' bs _ _ => exact h.keeps (h.disk.store io.ino bs) rfl rfl hself h.progress fun _ _ _ _ _ _ => id
  | finish io bs result _ _ => exact h.keeps (h.disk.store io.ino bs) rfl rfl hself h.progress fun _ _ _ _ _ _ => id
  | unlink v filename ino _ hnamed =>
    refine h.keeps (h.disk.unlink _) rfl rfl hself h.progress fun u _ id path serial _ hcurrent => ?_
    rcases hcurrent with hcurrent | hcurrent
    · by_cases hpath : path = joinPath v.storage.outputFolder filename
      · subst hpath
        obtain rfl := Option.some.inj (hcurrent.symm.trans hnamed)
        exact Or.inr List.mem_cons_self
      · exact Or.inl ((Inodes.names_unlink_of_ne hpath).trans hcurrent)
    · exact Or.inr (List.mem_cons_of_mem _ hcurrent)
  | unlinkFails => exact h
  | wipe outputDir path hunder hgone =>
    refine h.keeps (h.disk.unlink path) rfl rfl hself h.progress fun v hv fileId p serial hat hcurrent => ?_
    refine hcurrent.imp_left fun hnamed => (Inodes.names_unlink_of_ne ?_).trans hnamed
    rintro rfl
    obtain ⟨fi, hfi, hfull⟩ := View.pathAt_mem hat
    exact hgone v hv fi hfi (hfull ▸ hunder)

/-- The handle that a request gets is on the current file of its path. -/
theorem served {v : View} {fileId : Nat} {first second : OpenOutcome} {full : PathBuf} {ino : Nat}
    (h : Coherent w pool) (hv : v ∈ w.views) (hfull : v.storage.fullPath fileId = some full)
    (meets : MeetsOpen w.disk full first ∧ MeetsOpen w.disk full second)
    (hserved : (v.storage.handle pool fileId first second).2 = .served ino) : Current w full ino := by
  have hlive : v ∈ w.live := List.mem_append_left _ hv
  simp only [PooledStorage.handle, hfull] at hserved
  cases hreply : (pool.getOrOpen ⟨v.storage.uid, fileId⟩ full first second).2 with
  | failed => simp [hreply, PoolReply.obtained] at hserved
  | exhausted => simp [hreply, PoolReply.obtained] at hserved
  | panicked => simp [hreply, PoolReply.obtained] at hserved
  | served handle =>
    rw [hreply] at hserved
    obtain rfl := Obtained.served.inj hserved
    rcases FilePool.served_getOrOpen hreply with ⟨e, he, hkey, rfl⟩ | hfirst | hsecond
    · have huid : v.storage.uid = e.key.uid := by rw [hkey]
      have hpath := h.known e he v hlive huid
      rw [hkey, (h.resolves v hlive).pathAt hfull] at hpath
      rw [Option.some.inj hpath]
      exact h.current e he ⟨v, hlive, huid⟩
    · exact Or.inl (meets.1 _ hfirst)
    · exact Or.inl (meets.2 _ hsecond)

/-- A request that opens its file, or finds it open, leaves the pool on current files. -/
theorem begin_ {v : View} {fileId : Nat} {first second : OpenOutcome} (request : IoRequest)
    (h : Coherent w pool) (hv : v ∈ w.views)
    (meets : ∀ full, v.storage.fullPath fileId = some full →
      MeetsOpen w.disk full first ∧ MeetsOpen w.disk full second) :
    Coherent (w.begin_ request (v.storage.handle pool fileId first second).2)
      (v.storage.handle pool fileId first second).1 := by
  have hlive : v ∈ w.live := List.mem_append_left _ hv
  have hworld : ∀ pool', Coherent w pool' →
      Coherent (w.begin_ request (v.storage.handle pool fileId first second).2) pool' := by
    intro pool' hc
    unfold StorageWorld.begin_
    split
    next =>
      exact hc.keeps hc.disk rfl rfl (fun u hu => ⟨hc.resolves u hu, u, hu, rfl, rfl, rfl⟩) hc.progress
        fun _ _ _ _ _ _ => id
    next => exact hc
  refine hworld _ ?_
  cases hfull : v.storage.fullPath fileId with
  | none =>
    simp only [PooledStorage.handle, hfull]
    exact h
  | some full =>
    simp only [PooledStorage.handle, hfull]
    have hat := (h.resolves v hlive).pathAt hfull
    have hentry : ∀ e ∈ (pool.getOrOpen ⟨v.storage.uid, fileId⟩ full first second).1.map.values,
        e ∈ pool.map.values ∨ e.key = ⟨v.storage.uid, fileId⟩ ∧ e.path = full ∧
          w.disk.names full = some e.handle.serial := by
      intro e he
      rcases FilePool.mem_getOrOpen he with he | ⟨serial, hopened, rfl⟩
      · exact Or.inl he
      · obtain hfirst | hsecond := hopened
        · exact Or.inr ⟨rfl, rfl, (meets full hfull).1 serial hfirst⟩
        · exact Or.inr ⟨rfl, rfl, (meets full hfull).2 serial hsecond⟩
    refine { h with bounded := ?_, cached := fun e he => ?_, known := fun e he u hu huid => ?_, current := fun e he => ?_ }
    · obtain ⟨pathOf, hsound⟩ := h.bounded
      -- the key is bound to the path that this request uses; no entry disagrees
      have hagree : ∀ e ∈ pool.map.values, Function.update pathOf ⟨v.storage.uid, fileId⟩ full e.key = e.path := by
        intro e he
        by_cases hkey : e.key = ⟨v.storage.uid, fileId⟩
        · have hknown := h.known e he v hlive (by rw [hkey])
          rw [hkey, hat] at hknown
          rw [hkey, Function.update_self, Option.some.inj hknown]
        · rw [Function.update_of_ne hkey, (hsound.opened e he).2.2]
      have hreply := ((hsound.congr hagree).getOrOpen ⟨v.storage.uid, fileId⟩ first second).1
      rw [Function.update_self] at hreply
      exact ⟨_, hreply⟩
    · rcases hentry e he with he | ⟨hkey, -, -⟩
      · exact h.cached e he
      · rw [hkey]
        exact h.issued v hlive
    · rcases hentry e he with he | ⟨hkey, hpath, -⟩
      · exact h.known e he u hu huid
      · rw [hkey] at huid ⊢
        rw [(h.same u hu v hlive huid).pathAt, hat, hpath]
    · rcases hentry e he with he | ⟨-, hpath, hnamed⟩
      · exact h.current e he
      · rw [hpath]
        exact fun _ => Or.inl hnamed

theorem sweep {r : Removal} (h : Coherent w pool) :
    Coherent { w with removals := w.removals.erase r } (pool.evictPath r.path) := by
  have hmem : ∀ e ∈ (pool.evictPath r.path).map.values, e ∈ pool.map.values ∧ e.path ≠ r.path :=
    fun e => (FilePool.mem_evictPath pool).mp
  refine ⟨h.disk, ?_, h.counter, h.issued, h.resolves, h.progress, h.same, fun e he => h.cached e (hmem e he).1,
    fun e he => h.known e (hmem e he).1, fun e he hlive => ?_⟩
  · obtain ⟨pathOf, hsound⟩ := h.bounded
    exact ⟨pathOf, hsound.evictAll _⟩
  · obtain ⟨he, hpath⟩ := hmem e he
    refine (h.current e he hlive).imp_right fun hremoved => (List.mem_erase_of_ne ?_).mpr hremoved
    rintro rfl
    exact hpath rfl

theorem step {w w' : StorageWorld × FilePool} (h : Coherent w.1 w.2) (step : PooledStep w o w')
    (hwide : w'.1.created ≤ 2 ^ 64) : Coherent w'.1 w'.2 := by
  cases step with
  | world pool hstep => exact h.world hstep hwide
  | begin_ w pool v fileId request first second hv meets => exact h.begin_ request hv meets
  | sweep w pool r _ => exact h.sweep

end Coherent

theorem StorageStep.created_le {w w' : StorageWorld} {o : Observed} (step : StorageStep w o w') :
    w.created ≤ w'.created := by
  cases step with
  | create => exact Nat.le_succ _
  | _ => exact le_rfl

theorem PooledStep.created_le {w w' : StorageWorld × FilePool} {o : Observed} (step : PooledStep w o w') :
    w.1.created ≤ w'.1.created := by
  cases step with
  | world pool h => exact h.created_le
  | begin_ w pool v fileId request first second =>
    unfold StorageWorld.begin_
    split <;> exact le_rfl
  | sweep => exact le_rfl

/-- A process that has not made a storage yet. -/
def StorageWorld.start (disk : Inodes PathBuf) : StorageWorld := ⟨disk, .empty, 0, 0, [], [], [], []⟩

theorem start_coherent {disk : Inodes PathBuf} (h : disk.Sound) (cap : Nat) :
    Coherent (.start disk) (.withCap cap) := by
  refine ⟨h, ⟨fun _ => [], poolRun_sound cap (fun _ => []) []⟩, rfl, ?_, ?_, ?_, ?_, ?_, ?_, ?_⟩
  all_goals exact fun _ hmem => absurd hmem List.not_mem_nil

theorem run_coherent {disk : Inodes PathBuf} {cap : Nat} {obs : List Observed} {w : StorageWorld × FilePool}
    (hdisk : disk.Sound) (run : Trace PooledStep (.start disk, .withCap cap) obs w)
    (hwide : w.1.created ≤ 2 ^ 64) : Coherent w.1 w.2 :=
  run.invariant (P := fun w => w.1.created ≤ 2 ^ 64 → Coherent w.1 w.2)
    (fun step ih hwide => (ih (step.created_le.trans hwide)).step step hwide)
    (fun _ => start_coherent hdisk cap) hwide

end KeepAt
