import KeepAt.AtomicWrite

namespace KeepAt

namespace WriterDir

variable {π : Type*} {path tmp : π} {s s' : WriterDir π} {f : AtomicFile} {o : FileEvent}
  {obs : List FileEvent}

theorem Shows.pending (h : s.Shows path f) {w : FileNode} (hw : s.writer.call = .pending w) :
    { f with call := .pending w } = f := by
  cases f
  simp only at h ⊢
  rw [← hw, ← h.call]

/-- Where the directory is on the disk, no other names come back. -/
theorem Guarded.dirSynced {w : FileNode} (h : s.Guarded path tmp)
    (hprepared : s.disk.content s.disk.names path = some w) :
    Guarded path tmp { s with disk := s.disk.fsyncDir, writer := .settled w } := by
  have now : ∀ names, s.disk.fsyncDir.MayName names → s.disk.MayName names :=
    fun names hm => hm.imp_right fun hm => absurd hm List.not_mem_nil
  exact ⟨fun names hm => h.bounded names (now names hm), fun names hm => h.clean names (now names hm),
    fun names hm => h.apart names (now names hm), h.readers, hprepared⟩

/-- Setting the mode that a file has already changes neither the file nor what may be left of it. -/
theorem Guarded.chmod_same {w : FileNode} {ino : Nat} (h : s.Guarded path tmp) (hw : s.writer = .settled w)
    (hnode : s.disk.node ino = w) : Guarded path tmp { s with disk := s.disk.chmod ino w.mode } := by
  have hclean : ∀ i, s.disk.Clean i → (s.disk.chmod ino w.mode).Clean i := by
    intro i hi
    by_cases hino : i = ino
    · subst hino
      rw [← hnode]
      exact CrashDisk.clean_chmod_same hi
    · exact CrashDisk.clean_chmod_of_ne hi hino
  have hprepared := h.prepared
  refine ⟨h.bounded, fun names hm i hi => hclean i (h.clean names hm i hi), h.apart, h.readers, ?_⟩
  simp only [hw, AtomicWriter.Prepared] at hprepared ⊢
  refine (content_congr fun i _ => ?_).trans hprepared
  rw [← hnode, CrashDisk.node_chmod_same]

theorem Shows.chmod_same {w : FileNode} {ino : Nat} (hs : s.Shows path f) (hnode : s.disk.node ino = w) :
    Shows path { s with disk := s.disk.chmod ino w.mode } f := by
  have hsame : (s.disk.chmod ino w.mode).node = s.disk.node := by
    rw [← hnode]
    exact CrashDisk.node_chmod_same s.disk ino
  have hcontent : ∀ names, (s.disk.chmod ino w.mode).content names path = s.disk.content names path :=
    fun names => content_congr fun i _ => congrFun hsame i
  refine ⟨hs.now.trans (hcontent _).symm, fun names hm => (hcontent names).symm ▸ hs.past names hm, hs.call, ?_⟩
  rw [hs.readers, hsame]

variable [DecidableEq π]

/-- Each call of the writer is a step of a file that is replaced as a whole, or changes nothing of it. -/
theorem Guarded.step (hne : path ≠ tmp) (h : s.Guarded path tmp) (hs : s.Shows path f)
    (step : AtomicWriteStep path tmp s o s') :
    ∃ f', AtomicFileStep f o f' ∧ s'.Guarded path tmp ∧ s'.Shows path f' := by
  have hcall := hs.call
  have hprepared := h.prepared
  cases step with
  | start w hw =>
    rw [hw] at hcall
    exact ⟨_, .start f w hcall, h.same_disk trivial, hs.same_disk⟩
  | create w mode hw =>
    refine ⟨f, .stutter f, ?_⟩
    rw [← hs.pending (congrArg AtomicWriter.call hw)]
    unfold CrashDisk.openTruncate
    cases hfree : s.disk.names tmp with
    | none => exact h.create_new w mode hne hs
    | some ino =>
      refine h.at_tmp (s.disk.write ino []) (.writing w ino w.bytes) hs hfree rfl rfl rfl
        (fun i hi => Function.update_of_ne hi _ _) (fun i hi => Function.update_of_ne hi _ _) ⟨hfree, ?_⟩
      simp [CrashDisk.write]
  | write w ino n rest hw hn hfits =>
    rw [hw] at hprepared
    obtain ⟨hj, hbytes⟩ := hprepared
    refine ⟨f, .stutter f, ?_⟩
    rw [← hs.pending (congrArg AtomicWriter.call hw)]
    refine h.at_tmp (s.disk.write ino _) (.writing w ino (rest.drop n)) hs hj rfl rfl rfl
      (fun i hi => Function.update_of_ne hi _ _) (fun i hi => Function.update_of_ne hi _ _) ⟨hj, ?_⟩
    simp only [CrashDisk.write, Function.update_self]
    rw [List.append_assoc, List.take_append_drop, hbytes]
  | close w ino hw =>
    rw [hw] at hprepared
    obtain ⟨hj, hbytes⟩ := hprepared
    refine ⟨f, .stutter f, h.same_disk ⟨ino, hj, (List.append_nil _).symm.trans hbytes⟩, ?_⟩
    rw [← hs.pending (congrArg AtomicWriter.call hw)]
    exact hs.same_disk
  | chmod w ino hw hj =>
    rw [hw] at hprepared
    obtain ⟨j, hj', hbytes⟩ := hprepared
    obtain rfl := Option.some.inj (hj.symm.trans hj')
    refine ⟨f, .stutter f, ?_⟩
    rw [← hs.pending (congrArg AtomicWriter.call hw)]
    refine h.at_tmp (s.disk.chmod ino w.mode) (.moded w) hs hj rfl rfl rfl
      (fun i hi => Function.update_of_ne hi _ _) (fun i hi => Function.update_of_ne hi _ _) ⟨ino, hj, ?_⟩
    simp only [CrashDisk.chmod, Function.update_self, hbytes]
  | sync w ino hw hj =>
    rw [hw] at hprepared
    obtain ⟨j, hj', hnode⟩ := hprepared
    obtain rfl := Option.some.inj (hj.symm.trans hj')
    refine ⟨f, .stutter f, ?_⟩
    rw [← hs.pending (congrArg AtomicWriter.call hw)]
    exact h.at_tmp (s.disk.fsync ino) (.synced w) hs hj rfl rfl rfl (fun _ _ => rfl)
      (fun i hi => Function.update_of_ne hi _ _) ⟨ino, hj, hnode, CrashDisk.clean_fsync ino⟩
  | rename w hw _ =>
    rw [hw] at hprepared hcall
    obtain ⟨ino, hj, hnode, hclean⟩ := hprepared
    exact ⟨_, .put f w hcall, h.renamed hne hj hnode hclean hs⟩
  | syncDir w hw =>
    rw [hw] at hprepared hcall
    exact ⟨_, .settle f w hcall, h.dirSynced hprepared, hs.now, fun names hm => absurd hm List.not_mem_nil, hcall,
      hs.readers⟩
  | skipDir w hw =>
    rw [hw] at hprepared hcall
    exact ⟨f, .stutter f, h.same_disk hprepared, hs.now, hs.past, hcall, hs.readers⟩
  | chmodAgain w ino hw hnamed =>
    rw [hw] at hprepared
    have hnode : s.disk.node ino = w := by
      simpa only [AtomicWriter.Prepared, CrashDisk.content, hnamed, Option.map_some, Option.some.injEq]
        using hprepared
    exact ⟨f, .stutter f, h.chmod_same hw hnode, hs.chmod_same hnode⟩
  | fails hfailing =>
    have hpending : ∃ w, s.writer.call = .pending w := by
      cases hw : s.writer <;> simp [AtomicWriter.call, hw, AtomicWriter.failing] at hfailing ⊢
    obtain ⟨w, hw⟩ := hpending
    exact ⟨_, .fail f w (hcall.trans hw), h.same_disk trivial, hs.same_disk⟩
  | ok w hw =>
    rw [hw] at hcall
    exact ⟨_, .ok f w hcall, h.same_disk trivial, hs.same_disk⟩
  | kill => exact ⟨_, .kill f, h.same_disk trivial, hs.same_disk⟩
  | powerLoss disk hlost =>
    obtain ⟨hguarded, now, hnow, hshows⟩ := h.lost hlost hs
    exact ⟨_, .lose f now hnow, hguarded, hshows⟩
  | open_ ino hnamed =>
    have hnow := hs.now
    rw [CrashDisk.content, hnamed] at hnow
    refine ⟨_, .open_ f (s.disk.node ino) hnow, ⟨h.bounded, h.clean, h.apart, ?_, h.prepared⟩,
      ⟨hs.now, hs.past, hs.call, congrArg _ hs.readers⟩⟩
    rintro i (_ | ⟨_, hi⟩)
    · exact ⟨h.bounded _ (Or.inl rfl) path ino hnamed, (h.apart _ (Or.inl rfl) ino hnamed).2⟩
    · exact h.readers i hi
  | openMissing hnone =>
    refine ⟨f, .openMissing f ?_, h, hs⟩
    rw [hs.now, CrashDisk.content, hnone]
    rfl
  | read ino offset n hmem =>
    refine ⟨f, .read f (s.disk.node ino) offset n ?_, h, hs⟩
    rw [hs.readers]
    exact List.mem_map_of_mem hmem

/-- The calls of `atomic_write_mode` behave as a file that is replaced as a whole or not at all. -/
theorem atomicWrite_simulates (hne : path ≠ tmp) :
    Simulation (AtomicWriteStep path tmp) AtomicFileStep fun s f => s.Guarded path tmp ∧ s.Shows path f :=
  ⟨fun step ⟨h, hs⟩ => h.step hne hs step⟩

end WriterDir

def tmpName (name : String) : String := name ++ ".tmp"

theorem tmpName_ne (name : String) : name ≠ tmpName name := by
  intro h
  have hlength := congrArg String.length h
  simp [tmpName] at hlength

namespace WriterDir

/-- A directory that no call is busy with, nobody reads, and whose names are all on the disk. -/
structure AtRest (name : String) (s : WriterDir String) : Prop where
  guarded : s.Guarded name (tmpName name)
  idle : s.writer = .idle
  unread : s.readers = []
  synced : s.disk.past = []

def fileOf (s : WriterDir String) (name : String) : Option FileNode := s.disk.content s.disk.names name

variable {name : String} {s s' t t' : WriterDir String} {obs obs' : List FileEvent}

theorem AtRest.shows (h : s.AtRest name) : s.Shows name ⟨s.fileOf name, [], .none, []⟩ := by
  refine ⟨rfl, fun names hm => ?_, ?_, ?_⟩
  · rw [h.synced] at hm
    exact absurd hm List.not_mem_nil
  · rw [h.idle]
    rfl
  · rw [h.unread]
    rfl

theorem AtRest.replaced (h : s.AtRest name) (run : Trace (AtomicWriteStep name (tmpName name)) s obs s') :
    ReplacedBy (s.fileOf name) obs (s'.fileOf name) := by
  obtain ⟨f, hrun, -, hshows⟩ := (atomicWrite_simulates (tmpName_ne name)).run run ⟨h.guarded, h.shows⟩
  have hnow := (AtomicFile.replaced hrun rfl fun w => by simp).now
  rwa [hshows.now] at hnow

end WriterDir

end KeepAt
