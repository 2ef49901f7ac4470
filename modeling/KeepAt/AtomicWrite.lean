import KeepAt.AtomicFile

namespace KeepAt

/-- Where a call of `atomic_write_mode` is, with the data and mode it was given. -/
inductive AtomicWriter where
  | idle
  | starting (w : FileNode)
  | writing (w : FileNode) (ino : Nat) (rest : List UInt8)
  | written (w : FileNode)
  | moded (w : FileNode)
  | synced (w : FileNode)
  | renamed (w : FileNode)
  | settled (w : FileNode)

/-- A call that can still fail: it has not renamed. -/
def AtomicWriter.failing : AtomicWriter → Bool
  | .starting _ | .writing _ _ _ | .written _ | .moded _ | .synced _ => true
  | _ => false

/-- The directory of a file with the one process that writes it, and whoever has it open to read. -/
structure WriterDir (π : Type*) where
  disk : CrashDisk π
  writer : AtomicWriter
  readers : List Nat

variable {π : Type*}

/-- `atomic_write_mode` call by call, over files addressed by name: the temporary file is made or emptied,
written, given its mode, synced and renamed, then the directory is synced as far as it can be. -/
inductive AtomicWriteStep [DecidableEq π] (path tmp : π) : WriterDir π → FileEvent → WriterDir π → Prop
  | start (s : WriterDir π) (w : FileNode) (h : s.writer = .idle) :
      AtomicWriteStep path tmp s (.started w) { s with writer := .starting w }
  | create (s : WriterDir π) (w : FileNode) (mode : Nat) (h : s.writer = .starting w) :
      AtomicWriteStep path tmp s .silent
        { s with
          disk := (s.disk.openTruncate tmp mode).1
          writer := .writing w (s.disk.openTruncate tmp mode).2 w.bytes }
  | write (s : WriterDir π) (w : FileNode) (ino n : Nat) (rest : List UInt8)
      (h : s.writer = .writing w ino rest) (some : 0 < n) (fits : n ≤ rest.length) :
      AtomicWriteStep path tmp s .silent
        { s with
          disk := s.disk.write ino ((s.disk.node ino).bytes ++ rest.take n)
          writer := .writing w ino (rest.drop n) }
  | close (s : WriterDir π) (w : FileNode) (ino : Nat) (h : s.writer = .writing w ino []) :
      AtomicWriteStep path tmp s .silent { s with writer := .written w }
  | chmod (s : WriterDir π) (w : FileNode) (ino : Nat) (h : s.writer = .written w)
      (named : s.disk.names tmp = some ino) :
      AtomicWriteStep path tmp s .silent { s with disk := s.disk.chmod ino w.mode, writer := .moded w }
  | sync (s : WriterDir π) (w : FileNode) (ino : Nat) (h : s.writer = .moded w)
      (named : s.disk.names tmp = some ino) :
      AtomicWriteStep path tmp s .silent { s with disk := s.disk.fsync ino, writer := .synced w }
  | rename (s : WriterDir π) (w : FileNode) (h : s.writer = .synced w) (named : (s.disk.names tmp).isSome) :
      AtomicWriteStep path tmp s .silent { s with disk := s.disk.rename tmp path, writer := .renamed w }
  | syncDir (s : WriterDir π) (w : FileNode) (h : s.writer = .renamed w) :
      AtomicWriteStep path tmp s .settled { s with disk := s.disk.fsyncDir, writer := .settled w }
  | skipDir (s : WriterDir π) (w : FileNode) (h : s.writer = .renamed w) :
      AtomicWriteStep path tmp s .silent { s with writer := .settled w }
  /-- The mode is set once more, on whatever has the name now. -/
  | chmodAgain (s : WriterDir π) (w : FileNode) (ino : Nat) (h : s.writer = .settled w)
      (named : s.disk.names path = some ino) :
      AtomicWriteStep path tmp s .silent { s with disk := s.disk.chmod ino w.mode }
  | fails (s : WriterDir π) (h : s.writer.failing) :
      AtomicWriteStep path tmp s (.returned false) { s with writer := .idle }
  | ok (s : WriterDir π) (w : FileNode) (h : s.writer = .settled w) :
      AtomicWriteStep path tmp s (.returned true) { s with writer := .idle }
  | kill (s : WriterDir π) : AtomicWriteStep path tmp s .killed { s with writer := .idle }
  | powerLoss (s : WriterDir π) (disk : CrashDisk π) (h : s.disk.PowerLoss disk) :
      AtomicWriteStep path tmp s .lost ⟨disk, .idle, []⟩
  | open_ (s : WriterDir π) (ino : Nat) (named : s.disk.names path = some ino) :
      AtomicWriteStep path tmp s (.opened true) { s with readers := ino :: s.readers }
  | openMissing (s : WriterDir π) (h : s.disk.names path = none) :
      AtomicWriteStep path tmp s (.opened false) s
  | read (s : WriterDir π) (ino offset n : Nat) (h : ino ∈ s.readers) :
      AtomicWriteStep path tmp s (.read offset (readAt (s.disk.node ino).bytes offset n)) s

def AtomicWriter.call : AtomicWriter → WriteCall
  | .idle => .none
  | .starting w | .writing w _ _ | .written w | .moded w | .synced w => .pending w
  | .renamed w | .settled w => .done w

/-- How far the files of a call are. -/
def AtomicWriter.Prepared (disk : CrashDisk π) (path tmp : π) : AtomicWriter → Prop
  | .writing w ino rest => disk.names tmp = some ino ∧ (disk.node ino).bytes ++ rest = w.bytes
  | .written w => ∃ ino, disk.names tmp = some ino ∧ (disk.node ino).bytes = w.bytes
  | .moded w => ∃ ino, disk.names tmp = some ino ∧ disk.node ino = w
  | .synced w => ∃ ino, disk.names tmp = some ino ∧ disk.node ino = w ∧ disk.Clean ino
  | .renamed w | .settled w => disk.content disk.names path = some w
  | _ => True

/-- Whatever the file may be after a power loss is on the disk, and no temporary file shares an inode with
it or with a reader. -/
structure WriterDir.Guarded (path tmp : π) (s : WriterDir π) : Prop where
  bounded : ∀ names, s.disk.MayName names → ∀ p i, names p = some i → i < s.disk.next
  clean : ∀ names, s.disk.MayName names → ∀ i, names path = some i → s.disk.Clean i
  apart : ∀ names, s.disk.MayName names → ∀ i, names path = some i →
    names tmp ≠ some i ∧ s.disk.names tmp ≠ some i
  readers : ∀ i ∈ s.readers, i < s.disk.next ∧ s.disk.names tmp ≠ some i
  prepared : s.writer.Prepared s.disk path tmp

/-- What the directory shows of the file. -/
structure WriterDir.Shows (path : π) (s : WriterDir π) (f : AtomicFile) : Prop where
  now : f.now = s.disk.content s.disk.names path
  past : ∀ names ∈ s.disk.past, s.disk.content names path = f.now ∨ s.disk.content names path ∈ f.past
  call : f.call = s.writer.call
  readers : f.readers = s.readers.map s.disk.node

namespace WriterDir

variable {path tmp : π} {s s' : WriterDir π} {f : AtomicFile}

theorem Guarded.inode_ne {names : π → Option Nat} {i j : Nat} (h : s.Guarded path tmp)
    (hj : s.disk.names tmp = some j) (hmay : s.disk.MayName names) (hi : names path = some i) : i ≠ j := by
  rintro rfl
  exact (h.apart names hmay i hi).2 hj

theorem Guarded.reader_ne {i j : Nat} (h : s.Guarded path tmp) (hj : s.disk.names tmp = some j)
    (hi : i ∈ s.readers) : i ≠ j := by
  rintro rfl
  exact (h.readers i hi).2 hj

theorem content_congr {disk : CrashDisk π} {names : π → Option Nat}
    (hnode : ∀ i, names path = some i → disk.node i = s.disk.node i) :
    disk.content names path = s.disk.content names path :=
  Option.map_congr hnode

/-- A call that changes nothing but the inode of the temporary file changes nothing of what the file is, may
be, or is read as. -/
theorem Guarded.at_tmp {j : Nat} (disk : CrashDisk π) (writer : AtomicWriter) (h : s.Guarded path tmp)
    (hs : s.Shows path f) (hj : s.disk.names tmp = some j) (hnames : disk.names = s.disk.names) (hpast : disk.past = s.disk.past)
    (hnext : disk.next = s.disk.next) (hnode : ∀ i ≠ j, disk.node i = s.disk.node i)
    (hpossible : ∀ i ≠ j, disk.possible i = s.disk.possible i) (hprepared : writer.Prepared disk path tmp) :
    WriterDir.Guarded path tmp ⟨disk, writer, s.readers⟩ ∧
      WriterDir.Shows path ⟨disk, writer, s.readers⟩ { f with call := writer.call } := by
  have hmay : ∀ names, disk.MayName names → s.disk.MayName names := fun names hm => by
    rwa [CrashDisk.MayName, hnames, hpast] at hm
  have hcontent : ∀ names, s.disk.MayName names → disk.content names path = s.disk.content names path :=
    fun names hm => content_congr fun i hi => hnode i (h.inode_ne hj hm hi)
  refine ⟨⟨fun names hm => ?_, fun names hm i hi => ?_, fun names hm i hi => ?_, fun i hi => ?_, hprepared⟩,
    ⟨?_, fun names hm => ?_, rfl, ?_⟩⟩
  · rw [hnext]
    exact h.bounded names (hmay names hm)
  · have hne := h.inode_ne hj (hmay names hm) hi
    exact (h.clean names (hmay names hm) i hi).mono (hnode i hne) (hpossible i hne)
  · rw [hnames]
    exact h.apart names (hmay names hm) i hi
  · rw [hnames, hnext]
    exact h.readers i hi
  · rw [hnames, hcontent _ (Or.inl rfl)]
    exact hs.now
  · rw [hpast] at hm
    rw [hcontent _ (Or.inr hm)]
    exact hs.past names hm
  · rw [hs.readers]
    exact (List.map_congr_left fun i hi => hnode i (h.reader_ne hj hi)).symm

/-- A step of the writer or of a reader that leaves the disk alone. -/
theorem Guarded.same_disk {writer : AtomicWriter} (h : s.Guarded path tmp)
    (hprepared : writer.Prepared s.disk path tmp) : WriterDir.Guarded path tmp { s with writer := writer } :=
  ⟨h.bounded, h.clean, h.apart, h.readers, hprepared⟩

theorem Shows.same_disk {writer : AtomicWriter} (h : s.Shows path f) :
    WriterDir.Shows path { s with writer := writer } { f with call := writer.call } :=
  ⟨h.now, h.past, rfl, h.readers⟩

variable [DecidableEq π]

theorem Guarded.create_new (h : s.Guarded path tmp) (w : FileNode) (mode : Nat) (hne : path ≠ tmp)
    (hs : s.Shows path f) :
    WriterDir.Guarded path tmp ⟨s.disk.create tmp mode, .writing w s.disk.next w.bytes, s.readers⟩ ∧
      WriterDir.Shows path ⟨s.disk.create tmp mode, .writing w s.disk.next w.bytes, s.readers⟩
        { f with call := .pending w } := by
  have hold : ∀ names, s.disk.MayName names → ∀ p, names p ≠ some s.disk.next :=
    fun names hm p he => Nat.lt_irrefl _ (h.bounded names hm p _ he)
  have hfresh : ∀ names, s.disk.MayName names → ∀ i, names path = some i → i ≠ s.disk.next := by
    rintro names hm i hi rfl
    exact hold names hm path hi
  have hpath : (s.disk.create tmp mode).names path = s.disk.names path := CrashDisk.names_create_of_ne hne
  have htmp : ∀ names, s.disk.MayName names → ∀ i, names path = some i →
      (s.disk.create tmp mode).names tmp ≠ some i := by
    intro names hm i hi he
    rw [CrashDisk.names_create_self] at he
    exact hfresh names hm i hi (Option.some.inj he).symm
  have hcontent := fun names hm =>
    CrashDisk.content_create_of_ne (p := tmp) mode (hold names hm path)
  refine ⟨⟨?_, ?_, ?_, fun i hi => ?_, CrashDisk.names_create_self, ?_⟩, ⟨?_, ?_, rfl, ?_⟩⟩
  · rintro names (rfl | _ | ⟨_, hm⟩) p i hi
    · by_cases hp : p = tmp
      · subst hp
        rw [CrashDisk.names_create_self] at hi
        exact Option.some.inj hi ▸ Nat.lt_succ_self _
      · exact Nat.lt_succ_of_lt (h.bounded _ (Or.inl rfl) p i (CrashDisk.names_create_of_ne hp ▸ hi))
    · exact Nat.lt_succ_of_lt (h.bounded _ (Or.inl rfl) p i hi)
    · exact Nat.lt_succ_of_lt (h.bounded _ (Or.inr hm) p i hi)
  · have hclean := fun names hm i hi =>
      CrashDisk.clean_create_of_ne (p := tmp) mode (h.clean names hm i hi) (hfresh names hm i hi)
    rintro names (rfl | _ | ⟨_, hm⟩) i hi
    · exact hclean _ (Or.inl rfl) i (hpath ▸ hi)
    · exact hclean _ (Or.inl rfl) i hi
    · exact hclean _ (Or.inr hm) i hi
  · rintro names (rfl | _ | ⟨_, hm⟩) i hi
    · rw [hpath] at hi
      exact ⟨htmp _ (Or.inl rfl) i hi, htmp _ (Or.inl rfl) i hi⟩
    · exact ⟨(h.apart _ (Or.inl rfl) i hi).1, htmp _ (Or.inl rfl) i hi⟩
    · exact ⟨(h.apart _ (Or.inr hm) i hi).1, htmp _ (Or.inr hm) i hi⟩
  · have hlt := (h.readers i hi).1
    refine ⟨Nat.lt_succ_of_lt hlt, fun he => ?_⟩
    rw [CrashDisk.names_create_self] at he
    exact Nat.lt_irrefl _ (Option.some.inj he ▸ hlt)
  · simp [CrashDisk.create]
  · exact hs.now.trans ((congrArg _ hpath).trans (hcontent _ (Or.inl rfl))).symm
  · rintro names (_ | ⟨_, hm⟩)
    · exact Or.inl ((hcontent _ (Or.inl rfl)).trans hs.now.symm)
    · exact (hcontent _ (Or.inr hm)).symm ▸ hs.past names hm
  · rw [hs.readers]
    exact List.map_congr_left fun i hi => (Function.update_of_ne (Nat.ne_of_lt (h.readers i hi).1) _ _).symm

/-- The rename puts the whole new content in the place of the old one. -/
theorem Guarded.renamed {w : FileNode} {ino : Nat} (h : s.Guarded path tmp) (hne : path ≠ tmp)
    (hnamed : s.disk.names tmp = some ino) (hnode : s.disk.node ino = w) (hclean : s.disk.Clean ino)
    (hs : s.Shows path f) :
    WriterDir.Guarded path tmp ⟨s.disk.rename tmp path, .renamed w, s.readers⟩ ∧
      WriterDir.Shows path ⟨s.disk.rename tmp path, .renamed w, s.readers⟩
        { f with now := some w, past := f.now :: f.past, call := .done w } := by
  have hpath : (s.disk.rename tmp path).names path = some ino :=
    (CrashDisk.names_rename hne).trans hnamed
  have htmp : (s.disk.rename tmp path).names tmp = none := CrashDisk.names_rename_self
  have hnow : (s.disk.rename tmp path).content (s.disk.rename tmp path).names path = some w := by
    rw [CrashDisk.content, hpath]
    exact congrArg some hnode
  refine ⟨⟨?_, ?_, ?_, fun i hi => ?_, hnow⟩, ⟨hnow.symm, ?_, rfl, hs.readers⟩⟩
  · rintro names (rfl | _ | ⟨_, hm⟩) p i hi
    · obtain ⟨q, hq⟩ := CrashDisk.names_of_rename hi
      exact h.bounded _ (Or.inl rfl) q i hq
    · exact h.bounded _ (Or.inl rfl) p i hi
    · exact h.bounded _ (Or.inr hm) p i hi
  · rintro names (rfl | _ | ⟨_, hm⟩) i hi
    · obtain rfl := Option.some.inj (hpath.symm.trans hi)
      exact hclean
    · exact h.clean _ (Or.inl rfl) i hi
    · exact h.clean _ (Or.inr hm) i hi
  · rintro names (rfl | _ | ⟨_, hm⟩) i hi
    · simp [htmp]
    · exact ⟨(h.apart _ (Or.inl rfl) i hi).1, by simp [htmp]⟩
    · exact ⟨(h.apart _ (Or.inr hm) i hi).1, by simp [htmp]⟩
  · exact ⟨(h.readers i hi).1, by simp [htmp]⟩
  · rintro names (_ | ⟨_, hm⟩)
    · exact Or.inr (hs.now ▸ List.mem_cons_self)
    · refine Or.inr ?_
      rcases hs.past names hm with he | he
      · exact List.mem_cons.mpr (Or.inl he)
      · exact List.mem_cons_of_mem _ he

omit [DecidableEq π] in
/-- A power loss brings back one whole content. -/
theorem Guarded.lost {disk : CrashDisk π} (h : s.Guarded path tmp) (hlost : s.disk.PowerLoss disk)
    (hs : s.Shows path f) :
    WriterDir.Guarded path tmp ⟨disk, .idle, []⟩ ∧
      ∃ now, (now = f.now ∨ now ∈ f.past) ∧ WriterDir.Shows path ⟨disk, .idle, []⟩ ⟨now, [], .none, []⟩ := by
  have hmay : ∀ names, disk.MayName names → names = disk.names := by
    rintro names (rfl | hm)
    · rfl
    · rw [hlost.past] at hm
      exact absurd hm List.not_mem_nil
  have hcontent : disk.content disk.names path = s.disk.content disk.names path :=
    content_congr fun i hi => hlost.node_eq (h.clean _ hlost.names i hi)
  refine ⟨⟨fun names hm p i hi => ?_, fun names hm i hi => hlost.clean i, fun names hm i hi => ?_,
    fun i hi => absurd hi List.not_mem_nil, trivial⟩, disk.content disk.names path, ?_, rfl,
    fun names hm => ?_, rfl, rfl⟩
  · rw [hlost.next]
    exact h.bounded _ hlost.names p i (hmay names hm ▸ hi)
  · obtain rfl := hmay names hm
    exact ⟨(h.apart _ hlost.names i hi).1, (h.apart _ hlost.names i hi).1⟩
  · rw [hcontent]
    rcases hlost.names with he | hm
    · rw [he]
      exact Or.inl hs.now.symm
    · exact hs.past _ hm
  · rw [hlost.past] at hm
    exact absurd hm List.not_mem_nil

end WriterDir

end KeepAt
