import KeepAt.CrashDisk
import KeepAt.Runs

namespace KeepAt

/-- The file that an update writes the new program to. -/
def updateName (pid : Nat) : String := ".keep-at-update-" ++ toString pid

/-- The file that a probe of the directory leaves for a moment. -/
def probeName (pid : Nat) : String := ".keep-at-writable-" ++ toString pid

def Lasting (name : String) : Prop := ∀ pid, name ≠ updateName pid ∧ name ≠ probeName pid

/-- How far a self-update is, from the probe of the directory to the rename. -/
inductive UpdateStage where
  | probing
  | probed
  | fetching
  | replacing (binary : List UInt8)
  | creating (binary : List UInt8) (mode : Nat)
  | writing (binary : List UInt8) (mode ino : Nat) (rest : List UInt8)
  | written (binary : List UInt8) (mode : Nat)
  | moded (binary : List UInt8) (mode : Nat)

/-- A self-update, and where its own executable is. -/
structure UpdateProcess where
  target : String
  stage : UpdateStage

/-- A process started from a file, the inode it runs and the program it was then. -/
structure StartedProgram where
  name : String
  ino : Nat
  program : FileNode

/-- The directory of the executable. Updates go by their pids; `extracted` has the binaries that were extracted for
each target, `swapped` what was renamed over which name, newest first, and `flushed` the inodes that the system has
written back. -/
structure ExecDir where
  disk : CrashDisk String
  updates : Nat → Option UpdateProcess
  extracted : List (String × List UInt8)
  swapped : List (String × FileNode)
  running : List StartedProgram
  flushed : List Nat

namespace ExecDir

def put (x : ExecDir) (disk : CrashDisk String) (pid : Nat) (u : Option UpdateProcess) : ExecDir :=
  { x with disk, updates := Function.update x.updates pid u }

def content (x : ExecDir) (name : String) : Option FileNode := x.disk.content x.disk.names name

/-- What was last swapped in under the name. -/
def lastSwapped (x : ExecDir) (name : String) : Option FileNode :=
  (x.swapped.find? fun s => decide (s.1 = name)).map Prod.snd

end ExecDir

/-- The owner's write bit of a mode. -/
def ownerWrites (mode : Nat) : Bool := decide (mode / 0o200 % 2 = 1)

/-- Whether a file can be opened for writing under the name: by root always, by its owner as its mode has it. -/
def ExecDir.MayOpen (root : Bool) (x : ExecDir) (name : String) : Prop :=
  ∀ node, x.content name = some node → root = true ∨ ownerWrites node.mode = true

/-- A step of an update, of the system or of a process that starts. An update ends by its rename, or at any stage by
an error or a kill, and then leaves its files as they are. The updates run as root or else as the owner of the
files. -/
inductive ExecDirStep (root : Bool) (x : ExecDir) : ExecDir → Prop
  | begin_ (pid : Nat) (target : String) (free : x.updates pid = none) (lasting : Lasting target) :
      ExecDirStep root x (x.put x.disk pid (some ⟨target, .probing⟩))
  | probe (pid : Nat) (target : String) (created : Nat) (at_ : x.updates pid = some ⟨target, .probing⟩)
      (opens : x.MayOpen root (probeName pid)) :
      ExecDirStep root x (x.put (x.disk.openTruncate (probeName pid) created).1 pid (some ⟨target, .probed⟩))
  | unprobe (pid : Nat) (target : String) (at_ : x.updates pid = some ⟨target, .probed⟩) :
      ExecDirStep root x (x.put (x.disk.unlink (probeName pid)) pid (some ⟨target, .fetching⟩))
  | unprobeFails (pid : Nat) (target : String) (at_ : x.updates pid = some ⟨target, .probed⟩) :
      ExecDirStep root x (x.put x.disk pid (some ⟨target, .fetching⟩))
  | extract (pid : Nat) (target : String) (binary : List UInt8) (at_ : x.updates pid = some ⟨target, .fetching⟩) :
      ExecDirStep root x
        { x.put x.disk pid (some ⟨target, .replacing binary⟩) with extracted := (target, binary) :: x.extracted }
  | stat (pid : Nat) (target : String) (binary : List UInt8) (node : FileNode)
      (at_ : x.updates pid = some ⟨target, .replacing binary⟩) (found : x.content target = some node) :
      ExecDirStep root x (x.put x.disk pid (some ⟨target, .creating binary node.mode⟩))
  | statFails (pid : Nat) (target : String) (binary : List UInt8)
      (at_ : x.updates pid = some ⟨target, .replacing binary⟩) :
      ExecDirStep root x (x.put x.disk pid (some ⟨target, .creating binary 0o755⟩))
  | create (pid : Nat) (target : String) (binary : List UInt8) (mode created : Nat)
      (at_ : x.updates pid = some ⟨target, .creating binary mode⟩) (opens : x.MayOpen root (updateName pid)) :
      ExecDirStep root x
        (x.put (x.disk.openTruncate (updateName pid) created).1 pid
          (some ⟨target, .writing binary mode (x.disk.openTruncate (updateName pid) created).2 binary⟩))
  | write (pid : Nat) (target : String) (binary : List UInt8) (mode ino n : Nat) (rest : List UInt8)
      (at_ : x.updates pid = some ⟨target, .writing binary mode ino rest⟩) :
      ExecDirStep root x
        (x.put (x.disk.write ino ((x.disk.node ino).bytes ++ rest.take n)) pid
          (some ⟨target, .writing binary mode ino (rest.drop n)⟩))
  | close (pid : Nat) (target : String) (binary : List UInt8) (mode ino : Nat)
      (at_ : x.updates pid = some ⟨target, .writing binary mode ino []⟩) :
      ExecDirStep root x (x.put x.disk pid (some ⟨target, .written binary mode⟩))
  | chmod (pid : Nat) (target : String) (binary : List UInt8) (mode ino : Nat)
      (at_ : x.updates pid = some ⟨target, .written binary mode⟩)
      (named : x.disk.names (updateName pid) = some ino) :
      ExecDirStep root x (x.put (x.disk.chmod ino mode) pid (some ⟨target, .moded binary mode⟩))
  | rename (pid : Nat) (target : String) (binary : List UInt8) (mode : Nat)
      (at_ : x.updates pid = some ⟨target, .moded binary mode⟩)
      (named : (x.disk.names (updateName pid)).isSome) :
      ExecDirStep root x
        { x.put (x.disk.rename (updateName pid) target) pid none with
          swapped := (target, ⟨binary, mode⟩) :: x.swapped }
  | leave (pid : Nat) : ExecDirStep root x (x.put x.disk pid none)
  | run (name : String) (ino : Nat) (lasting : Lasting name) (named : x.disk.names name = some ino) :
      ExecDirStep root x { x with running := ⟨name, ino, x.disk.node ino⟩ :: x.running }
  | flush (ino : Nat) : ExecDirStep root x { x with disk := x.disk.fsync ino, flushed := ino :: x.flushed }

theorem toList_updateName (pid : Nat) :
    (updateName pid).toList = ".keep-at-update-".toList ++ (toString pid).toList := String.toList_append

theorem toList_probeName (pid : Nat) :
    (probeName pid).toList = ".keep-at-writable-".toList ++ (toString pid).toList := String.toList_append

theorem updateName_injective {a b : Nat} (h : updateName a = updateName b) : a = b := by
  have hlist := congrArg String.toList h
  simp only [toList_updateName, List.append_cancel_left_eq, Nat.toString_eq_ofList_toDigits,
    String.toList_ofList] at hlist
  rw [← Nat.ofDigitChars_ten_toDigits (n := a), hlist, Nat.ofDigitChars_ten_toDigits]

/-- A probe never collides with a real update. -/
theorem updateName_ne_probeName {a b : Nat} (h : updateName a = probeName b) : False := by
  have hlist := congrArg String.toList h
  rw [toList_updateName, toList_probeName] at hlist
  have hninth := congrArg (fun cs : List Char => cs[9]?) hlist
  have hupdate : 9 < ".keep-at-update-".toList.length := by decide
  have hprobe : 9 < ".keep-at-writable-".toList.length := by decide
  rw [List.getElem?_append_left hupdate, List.getElem?_append_left hprobe] at hninth
  have hne : ".keep-at-update-".toList[9]? ≠ ".keep-at-writable-".toList[9]? := by decide
  exact hne hninth

theorem not_lasting_updateName (pid : Nat) : ¬Lasting (updateName pid) := fun h => (h pid).1 rfl

theorem not_lasting_probeName (pid : Nat) : ¬Lasting (probeName pid) := fun h => (h pid).2 rfl

/-- A mode that an update may give the target: what `replace_executable` falls back to, or the mode that the target
had from the start. -/
def ModeFrom (start : String → Option FileNode) (target : String) (mode : Nat) : Prop :=
  mode = 0o755 ∨ ∃ node, start target = some node ∧ mode = node.mode

/-- Nothing but the system writes the inode back, and until then a power loss may leave anything of it. -/
def Unsynced (disk : CrashDisk String) (flushed : List Nat) (ino : Nat) : Prop :=
  ino ∉ flushed → ∀ node, disk.possible ino node

namespace UpdateStage

def binary : UpdateStage → Option (List UInt8)
  | .replacing binary | .creating binary _ | .writing binary _ _ _ | .written binary _ | .moded binary _ =>
    some binary
  | _ => none

def mode : UpdateStage → Option Nat
  | .creating _ mode | .writing _ mode _ _ | .written _ mode | .moded _ mode => some mode
  | _ => none

/-- How far the file of the update is. -/
def Prepared (disk : CrashDisk String) (flushed : List Nat) (pid : Nat) : UpdateStage → Prop
  | .writing binary _ ino rest =>
    disk.names (updateName pid) = some ino ∧ (disk.node ino).bytes ++ rest = binary ∧ Unsynced disk flushed ino
  | .written binary _ => ∃ ino, disk.names (updateName pid) = some ino ∧ (disk.node ino).bytes = binary ∧
      Unsynced disk flushed ino
  | .moded binary mode => ∃ ino, disk.names (updateName pid) = some ino ∧ disk.node ino = ⟨binary, mode⟩ ∧
      Unsynced disk flushed ino
  | _ => True

theorem Prepared.congr {d e : CrashDisk String} {flushed flushed' : List Nat} {pid : Nat} {stage : UpdateStage}
    (h : stage.Prepared d flushed pid) (names : e.names (updateName pid) = d.names (updateName pid))
    (same : ∀ ino, d.names (updateName pid) = some ino →
      e.node ino = d.node ino ∧ (Unsynced d flushed ino → Unsynced e flushed' ino)) :
    stage.Prepared e flushed' pid := by
  cases stage with
  | writing binary mode ino rest =>
    obtain ⟨hino, hbytes, hloose⟩ := h
    obtain ⟨hnode, hkept⟩ := same ino hino
    exact ⟨names.trans hino, by rw [hnode, hbytes], hkept hloose⟩
  | written binary mode =>
    obtain ⟨ino, hino, hbytes, hloose⟩ := h
    obtain ⟨hnode, hkept⟩ := same ino hino
    exact ⟨ino, names.trans hino, by rw [hnode, hbytes], hkept hloose⟩
  | moded binary mode =>
    obtain ⟨ino, hino, hwhole, hloose⟩ := h
    obtain ⟨hnode, hkept⟩ := same ino hino
    exact ⟨ino, names.trans hino, by rw [hnode, hwhole], hkept hloose⟩
  | _ => trivial

end UpdateStage

/-- What holds of one update at any time. -/
structure UpdateProcess.Sound (start : String → Option FileNode) (x : ExecDir) (pid : Nat) (u : UpdateProcess) :
    Prop where
  lasting : Lasting u.target
  extracted : ∀ binary, u.stage.binary = some binary → (u.target, binary) ∈ x.extracted
  mode : ∀ mode, u.stage.mode = some mode → ModeFrom start u.target mode
  prepared : u.stage.Prepared x.disk x.flushed pid

/-- An update that has no program yet. -/
theorem UpdateProcess.Sound.early {start : String → Option FileNode} {x : ExecDir} {pid : Nat} {u : UpdateProcess}
    (lasting : Lasting u.target) (binary : u.stage.binary = none) (mode : u.stage.mode = none)
    (prepared : u.stage.Prepared x.disk x.flushed pid) : u.Sound start x pid := by
  refine ⟨lasting, fun b hb => ?_, fun m hm => ?_, prepared⟩
  · rw [binary] at hb
    cases hb
  · rw [mode] at hm
    cases hm

/-- An update stays where it is while nothing happens to its file. -/
theorem UpdateProcess.Sound.kept {start : String → Option FileNode} {x y : ExecDir} {pid : Nat} {u : UpdateProcess}
    (h : u.Sound start x pid) (extracted : x.extracted ⊆ y.extracted)
    (names : y.disk.names (updateName pid) = x.disk.names (updateName pid))
    (same : ∀ ino, x.disk.names (updateName pid) = some ino → y.disk.node ino = x.disk.node ino ∧
      (Unsynced x.disk x.flushed ino → Unsynced y.disk y.flushed ino)) : u.Sound start y pid :=
  ⟨h.lasting, fun binary hb => extracted (h.extracted binary hb), h.mode, h.prepared.congr names same⟩

namespace ExecDir

/-- The directory before any update: a file of an update that is left over has one name. -/
structure Fresh (x : ExecDir) : Prop where
  apart : ∀ p q ino, ¬Lasting p → x.disk.names p = some ino → x.disk.names q = some ino → p = q
  bounded : ∀ p ino, x.disk.names p = some ino → ino < x.disk.next
  current : ∀ ino, x.disk.possible ino (x.disk.node ino)
  idle : ∀ pid, x.updates pid = none
  swapped : x.swapped = []
  running : x.running = []

/-- What holds at any time, of a directory that held `start`. -/
structure Sound (start : String → Option FileNode) (x : ExecDir) : Prop where
  apart : ∀ p q ino, ¬Lasting p → x.disk.names p = some ino → x.disk.names q = some ino → p = q
  bounded : ∀ p ino, x.disk.names p = some ino → ino < x.disk.next
  current : ∀ ino, x.disk.possible ino (x.disk.node ino)
  shown : ∀ name, Lasting name → x.content name = (x.lastSwapped name).or (start name)
  whole : ∀ s ∈ x.swapped, (s.1, s.2.bytes) ∈ x.extracted ∧ ModeFrom start s.1 s.2.mode
  unsynced : ∀ name ino, Lasting name → (x.lastSwapped name).isSome → x.disk.names name = some ino →
    Unsynced x.disk x.flushed ino
  held : ∀ r ∈ x.running, x.disk.node r.ino = r.program ∧ r.ino < x.disk.next ∧
    ∀ p, x.disk.names p = some r.ino → Lasting p
  known : ∀ r ∈ x.running, start r.name = some r.program ∨ (r.name, r.program) ∈ x.swapped
  updates : ∀ pid u, x.updates pid = some u → u.Sound start x pid

variable {start : String → Option FileNode} {x y : ExecDir} {disk : CrashDisk String} {name p : String}
  {ino pid : Nat} {u : UpdateProcess} {root : Bool}

theorem updates_put (x : ExecDir) (disk : CrashDisk String) (pid : Nat) (u : Option UpdateProcess) :
    (x.put disk pid u).updates pid = u := Function.update_self _ _ _

theorem updates_put_of_ne {other : Nat} (x : ExecDir) (disk : CrashDisk String) (u : Option UpdateProcess)
    (h : other ≠ pid) : (x.put disk pid u).updates other = x.updates other := Function.update_of_ne h _ _

theorem mem_of_lastSwapped {node : FileNode} (h : x.lastSwapped name = some node) : (name, node) ∈ x.swapped := by
  obtain ⟨⟨name', node'⟩, hfound, hnode⟩ := Option.map_eq_some_iff.mp h
  have hname := List.find?_some hfound
  obtain rfl : name' = name := of_decide_eq_true hname
  obtain rfl : node' = node := hnode
  exact List.mem_of_find?_eq_some hfound

theorem Fresh.sound (h : x.Fresh) : x.Sound x.content := by
  have hlast : ∀ name, x.lastSwapped name = none := fun name => by rw [lastSwapped, h.swapped]; rfl
  refine ⟨h.apart, h.bounded, h.current, fun name _ => by rw [hlast, Option.none_or], fun s hs => ?_,
    fun name ino _ hsome => ?_, fun r hr => ?_, fun r hr => ?_, fun pid u hu => ?_⟩
  · rw [h.swapped] at hs
    cases hs
  · rw [hlast] at hsome
    cases hsome
  · rw [h.running] at hr
    cases hr
  · rw [h.running] at hr
    cases hr
  · rw [h.idle] at hu
    cases hu

/-- What an update does with its own files does not reach the other names. -/
theorem Sound.ino_ne (h : x.Sound start) (touches : x.disk.TouchesAt disk p ino) (own : ¬Lasting p) {q : String}
    {j : Nat} (hq : q ≠ p) (hj : x.disk.names q = some j) : j ≠ ino := by
  rintro rfl
  rcases touches.own with hp | ⟨hnew, -⟩
  · exact hq (h.apart p q j own hp hj).symm
  · exact absurd (h.bounded q j hj) (Nat.not_lt.mpr hnew)

theorem Sound.held_ne (h : x.Sound start) (touches : x.disk.TouchesAt disk p ino) (own : ¬Lasting p)
    {r : StartedProgram} (hr : r ∈ x.running) : r.ino ≠ ino := by
  obtain ⟨-, hlt, hlasting⟩ := h.held r hr
  rcases touches.own with hp | ⟨hnew, -⟩
  · exact fun he => own (hlasting p (he ▸ hp))
  · exact fun he => absurd hlt (Nat.not_lt.mpr (he ▸ hnew))

theorem Sound.content_of_touches (h : x.Sound start) (touches : x.disk.TouchesAt disk p ino) (own : ¬Lasting p)
    {q : String} (hq : q ≠ p) : disk.content disk.names q = x.content q := by
  rw [CrashDisk.content, touches.others q hq]
  exact Option.map_congr fun j hj => touches.node j (h.ino_ne touches own hq hj)

/-- An update that changes one of its own files, and goes on to its next stage. -/
theorem Sound.touch (h : x.Sound start) (touches : x.disk.TouchesAt disk p ino) (own : ¬Lasting p)
    (others : ∀ other, other ≠ pid → updateName other ≠ p) (current : disk.possible ino (disk.node ino))
    (next : u.Sound start (x.put disk pid (some u)) pid) : (x.put disk pid (some u)).Sound start := by
  have hlasting : ∀ name, Lasting name → name ≠ p := by
    rintro name hname rfl
    exact own hname
  have hnode : ∀ q j, q ≠ p → x.disk.names q = some j →
      disk.node j = x.disk.node j ∧ disk.possible j = x.disk.possible j := fun q j hq hj =>
    ⟨touches.node j (h.ino_ne touches own hq hj), touches.possible j (h.ino_ne touches own hq hj)⟩
  refine ⟨fun q r j hq hqj hrj => ?_, fun q j hj => ?_, fun j => ?_, fun name hname => ?_, h.whole,
    fun name j hname hsome hj => ?_, fun r hr => ?_, h.known, fun other v hv => ?_⟩
  · by_cases hqp : q = p
    · by_cases hrp : r = p
      · rw [hqp, hrp]
      · subst hqp
        obtain rfl := Option.some.inj (touches.named.symm.trans hqj)
        exact absurd rfl (h.ino_ne touches own hrp ((touches.others r hrp).symm.trans hrj))
    · have hqold := (touches.others q hqp).symm.trans hqj
      by_cases hrp : r = p
      · subst hrp
        obtain rfl := Option.some.inj (touches.named.symm.trans hrj)
        exact absurd rfl (h.ino_ne touches own hqp hqold)
      · exact h.apart q r j hq hqold ((touches.others r hrp).symm.trans hrj)
  · by_cases hq : q = p
    · subst hq
      obtain rfl := Option.some.inj (touches.named.symm.trans hj)
      rcases touches.own with hold | ⟨-, hnew⟩
      · exact lt_of_lt_of_le (h.bounded q _ hold) touches.next
      · exact hnew
    · exact lt_of_lt_of_le (h.bounded q j ((touches.others q hq).symm.trans hj)) touches.next
  · by_cases hj : j = ino
    · exact hj ▸ current
    · change disk.possible j (disk.node j)
      rw [touches.node j hj, touches.possible j hj]
      exact h.current j
  · exact (h.content_of_touches touches own (hlasting name hname)).trans (h.shown name hname)
  · have hold := (touches.others name (hlasting name hname)).symm.trans hj
    intro hflushed node
    change disk.possible j node
    rw [(hnode name j (hlasting name hname) hold).2]
    exact h.unsynced name j hname hsome hold hflushed node
  · obtain ⟨hprogram, hlt, hnames⟩ := h.held r hr
    have hne := h.held_ne touches own hr
    refine ⟨(touches.node _ hne).trans hprogram, lt_of_lt_of_le hlt touches.next, fun q hq => ?_⟩
    have hqp : q ≠ p := by
      rintro rfl
      exact hne (Option.some.inj (hq.symm.trans touches.named))
    exact hnames q ((touches.others q hqp).symm.trans hq)
  · by_cases ho : other = pid
    · subst ho
      obtain rfl := Option.some.inj ((updates_put _ _ _ _).symm.trans hv)
      exact next
    · have hold := h.updates other v ((updates_put_of_ne _ _ _ ho).symm.trans hv)
      refine hold.kept (List.Subset.refl _) (touches.others _ (others other ho)) fun j hj => ?_
      obtain ⟨hsame, hpossible⟩ := hnode _ j (others other ho) hj
      exact ⟨hsame, fun hloose hflushed node => hpossible ▸ hloose hflushed node⟩

/-- A stage that leaves the disk alone. -/
theorem Sound.enter (h : x.Sound start) {next : Option UpdateProcess}
    (entered : ∀ u, next = some u → u.Sound start x pid) : (x.put x.disk pid next).Sound start := by
  refine ⟨h.apart, h.bounded, h.current, h.shown, h.whole, h.unsynced, h.held, h.known, fun other v hv => ?_⟩
  by_cases ho : other = pid
  · subst ho
    have hnext := entered v ((updates_put _ _ _ _).symm.trans hv)
    exact hnext.kept (List.Subset.refl _) rfl fun j _ => ⟨rfl, id⟩
  · have hold := h.updates other v ((updates_put_of_ne _ _ _ ho).symm.trans hv)
    exact hold.kept (List.Subset.refl _) rfl fun j _ => ⟨rfl, id⟩

/-- A file of an update that goes away. -/
theorem Sound.unlink (h : x.Sound start) (own : ¬Lasting p) (others : ∀ other, updateName other ≠ p)
    (next : u.Sound start (x.put (x.disk.unlink p) pid (some u)) pid) :
    (x.put (x.disk.unlink p) pid (some u)).Sound start := by
  have hold : ∀ q j, (x.disk.unlink p).names q = some j → x.disk.names q = some j := by
    intro q j hj
    by_cases hq : q = p
    · subst hq
      cases CrashDisk.names_unlink_self.symm.trans hj
    · exact (CrashDisk.names_unlink_of_ne hq).symm.trans hj
  have hlasting : ∀ name, Lasting name → (x.disk.unlink p).names name = x.disk.names name := by
    intro name hname
    refine CrashDisk.names_unlink_of_ne ?_
    rintro rfl
    exact own hname
  refine ⟨fun q r j hq hqj hrj => h.apart q r j hq (hold q j hqj) (hold r j hrj),
    fun q j hj => h.bounded q j (hold q j hj), h.current, fun name hname => ?_, h.whole,
    fun name j hname hsome hj => h.unsynced name j hname hsome (hold name j hj), fun r hr => ?_, h.known,
    fun other v hv => ?_⟩
  · have hcontent : (x.disk.unlink p).content (x.disk.unlink p).names name = x.content name :=
      congrArg (Option.map x.disk.node) (hlasting name hname)
    exact hcontent.trans (h.shown name hname)
  · obtain ⟨hprogram, hlt, hnames⟩ := h.held r hr
    exact ⟨hprogram, hlt, fun q hq => hnames q (hold q r.ino hq)⟩
  · by_cases ho : other = pid
    · subst ho
      obtain rfl := Option.some.inj ((updates_put _ _ _ _).symm.trans hv)
      exact next
    · have hold := h.updates other v ((updates_put_of_ne _ _ _ ho).symm.trans hv)
      exact hold.kept (List.Subset.refl _) (CrashDisk.names_unlink_of_ne (others other)) fun j _ => ⟨rfl, id⟩

/-- The rename puts a whole program in the place of what was there. -/
theorem Sound.swap {target : String} {binary : List UInt8} {mode : Nat} (h : x.Sound start)
    (at_ : x.updates pid = some ⟨target, .moded binary mode⟩) :
    ExecDir.Sound start
      { x.put (x.disk.rename (updateName pid) target) pid none with
        swapped := (target, ⟨binary, mode⟩) :: x.swapped } := by
  obtain ⟨htarget, hextracted, hmode, ino, htmp, hwhole, hloose⟩ := h.updates pid _ at_
  have hne : target ≠ updateName pid := (htarget pid).1
  have hthere : (x.disk.rename (updateName pid) target).names target = some ino :=
    (CrashDisk.names_rename hne).trans htmp
  have hgone : (x.disk.rename (updateName pid) target).names (updateName pid) = none :=
    CrashDisk.names_rename_self
  have helse : ∀ q, q ≠ updateName pid → q ≠ target →
      (x.disk.rename (updateName pid) target).names q = x.disk.names q := fun q => CrashDisk.names_rename_of_ne
  have hlasting : ∀ name, Lasting name → name ≠ updateName pid := fun name hname => (hname pid).1
  refine ⟨fun q r j hq hqj hrj => ?_, fun q j hj => ?_, h.current, fun name hname => ?_,
    List.forall_mem_cons.mpr ⟨⟨hextracted binary rfl, hmode mode rfl⟩, h.whole⟩, fun name j hname hsome hj => ?_,
    fun r hr => ?_, fun r hr => ?_, fun other v hv => ?_⟩
  · have hqt : q ≠ updateName pid := by
      rintro rfl
      cases hgone.symm.trans hqj
    have hqtarget : q ≠ target := by
      rintro rfl
      exact hq htarget
    have hqold := (helse q hqt hqtarget).symm.trans hqj
    by_cases hrt : r = target
    · subst hrt
      obtain rfl := Option.some.inj (hthere.symm.trans hrj)
      exact absurd (h.apart q _ _ hq hqold htmp) hqt
    · have hrtmp : r ≠ updateName pid := by
        rintro rfl
        cases hgone.symm.trans hrj
      exact h.apart q r j hq hqold ((helse r hrtmp hrt).symm.trans hrj)
  · obtain ⟨r, hr⟩ := CrashDisk.names_of_rename hj
    exact h.bounded r j hr
  · by_cases hnt : name = target
    · subst hnt
      have hcontent : (x.disk.rename (updateName pid) name).content
          (x.disk.rename (updateName pid) name).names name = some ⟨binary, mode⟩ := by
        rw [CrashDisk.content, hthere]
        exact congrArg some hwhole
      refine hcontent.trans ?_
      simp [lastSwapped]
    · have hcontent : (x.disk.rename (updateName pid) target).content
          (x.disk.rename (updateName pid) target).names name = x.content name :=
        congrArg (Option.map x.disk.node) (helse name (hlasting name hname) hnt)
      refine hcontent.trans ((h.shown name hname).trans ?_)
      simp [lastSwapped, Ne.symm hnt]
  · by_cases hnt : name = target
    · subst hnt
      obtain rfl := Option.some.inj (hthere.symm.trans hj)
      exact hloose
    · refine h.unsynced name j hname ?_ ((helse name (hlasting name hname) hnt).symm.trans hj)
      simpa [lastSwapped, Ne.symm hnt] using hsome
  · obtain ⟨hprogram, hlt, hnames⟩ := h.held r hr
    refine ⟨hprogram, hlt, fun q hq => ?_⟩
    by_cases hqt : q = target
    · exact hqt ▸ htarget
    · have hqtmp : q ≠ updateName pid := by
        rintro rfl
        cases hgone.symm.trans hq
      exact hnames q ((helse q hqtmp hqt).symm.trans hq)
  · exact (h.known r hr).imp_right (List.mem_cons_of_mem _)
  · have hupdated : Function.update x.updates pid none other = some v := hv
    have ho : other ≠ pid := by
      rintro rfl
      cases (Function.update_self other none x.updates).symm.trans hupdated
    have hold := h.updates other v ((Function.update_of_ne ho none x.updates).symm.trans hupdated)
    have hname : updateName other ≠ updateName pid := fun he => ho (updateName_injective he)
    have hother : updateName other ≠ target := fun he => (htarget other).1 he.symm
    exact hold.kept (List.Subset.refl _) (helse _ hname hother) fun j _ => ⟨rfl, id⟩

theorem Sound.run (h : x.Sound start) (lasting : Lasting name) (named : x.disk.names name = some ino) :
    ExecDir.Sound start { x with running := ⟨name, ino, x.disk.node ino⟩ :: x.running } := by
  refine ⟨h.apart, h.bounded, h.current, h.shown, h.whole, h.unsynced, List.forall_mem_cons.mpr ⟨?_, h.held⟩,
    List.forall_mem_cons.mpr ⟨?_, h.known⟩, fun pid u hu => ?_⟩
  · refine ⟨rfl, h.bounded name ino named, fun q hq => ?_⟩
    by_contra hown
    exact hown (h.apart q name ino hown hq named ▸ lasting)
  · have hshown := h.shown name lasting
    rw [content, CrashDisk.content, named, Option.map_some] at hshown
    cases hlast : x.lastSwapped name with
    | none =>
      rw [hlast, Option.none_or] at hshown
      exact Or.inl hshown.symm
    | some node =>
      rw [hlast, Option.some_or] at hshown
      obtain rfl := Option.some.inj hshown
      exact Or.inr (mem_of_lastSwapped hlast)
  · exact (h.updates pid u hu).kept (List.Subset.refl _) rfl fun j _ => ⟨rfl, id⟩

theorem Sound.flush (h : x.Sound start) (i : Nat) :
    ExecDir.Sound start { x with disk := x.disk.fsync i, flushed := i :: x.flushed } := by
  have hloose : ∀ j, Unsynced x.disk x.flushed j → Unsynced (x.disk.fsync i) (i :: x.flushed) j := by
    intro j hj hflushed node
    obtain ⟨hne, hold⟩ := not_or.mp (mt List.mem_cons.mpr hflushed)
    simp only [CrashDisk.fsync, Function.update_of_ne hne]
    exact hj hold node
  refine ⟨h.apart, h.bounded, fun j => ?_, h.shown, h.whole,
    fun name j hname hsome hj => hloose j (h.unsynced name j hname hsome hj), h.held, h.known, fun pid u hu => ?_⟩
  · by_cases hj : j = i
    · subst hj
      simp [CrashDisk.fsync]
    · simpa [CrashDisk.fsync, Function.update_of_ne hj] using h.current j
  · exact (h.updates pid u hu).kept (List.Subset.refl _) rfl fun j _ => ⟨rfl, hloose j⟩

theorem Sound.learn (h : x.Sound start) (e : String × List UInt8) :
    ExecDir.Sound start { x with extracted := e :: x.extracted } := by
  refine ⟨h.apart, h.bounded, h.current, h.shown, fun s hs => ?_, h.unsynced, h.held, h.known, fun pid u hu => ?_⟩
  · obtain ⟨hextracted, hmode⟩ := h.whole s hs
    exact ⟨List.mem_cons_of_mem _ hextracted, hmode⟩
  · exact (h.updates pid u hu).kept (List.subset_cons_self _ _) rfl fun j _ => ⟨rfl, id⟩

theorem Sound.step (h : x.Sound start) (step : ExecDirStep root x y) : y.Sound start := by
  cases step with
  | begin_ pid target free lasting =>
    refine h.enter fun u hu => ?_
    obtain rfl := Option.some.inj hu
    exact .early lasting rfl rfl trivial
  | probe pid target created at_ opens =>
    have hu := h.updates pid _ at_
    refine h.touch (CrashDisk.touchesAt_openTruncate x.disk (probeName pid) created) (not_lasting_probeName pid)
      (fun other _ he => updateName_ne_probeName he) ?_ (.early hu.lasting rfl rfl trivial)
    exact (CrashDisk.openTruncate_fresh x.disk (probeName pid) created).2 _
  | unprobe pid target at_ =>
    have hu := h.updates pid _ at_
    exact h.unlink (not_lasting_probeName pid) (fun other he => updateName_ne_probeName he)
      (.early hu.lasting rfl rfl trivial)
  | unprobeFails pid target at_ =>
    have hu := h.updates pid _ at_
    refine h.enter fun u hv => ?_
    obtain rfl := Option.some.inj hv
    exact .early hu.lasting rfl rfl trivial
  | extract pid target binary at_ =>
    have hu := h.updates pid _ at_
    refine (h.learn (target, binary)).enter fun u hv => ?_
    obtain rfl := Option.some.inj hv
    refine ⟨hu.lasting, fun binary' hb => ?_, fun mode hm => (by cases hm), trivial⟩
    obtain rfl := Option.some.inj hb
    exact List.mem_cons_self
  | stat pid target binary node at_ found =>
    have hu := h.updates pid _ at_
    refine h.enter fun u hv => ?_
    obtain rfl := Option.some.inj hv
    refine ⟨hu.lasting, hu.extracted, fun mode hm => ?_, trivial⟩
    obtain rfl := Option.some.inj hm
    rw [h.shown target hu.lasting, Option.or_eq_some_iff] at found
    rcases found with hlast | ⟨-, hstart⟩
    · exact (h.whole _ (mem_of_lastSwapped hlast)).2
    · exact Or.inr ⟨node, hstart, rfl⟩
  | statFails pid target binary at_ =>
    have hu := h.updates pid _ at_
    refine h.enter fun u hv => ?_
    obtain rfl := Option.some.inj hv
    exact ⟨hu.lasting, hu.extracted, fun mode hm => Or.inl (Option.some.inj hm).symm, trivial⟩
  | create pid target binary mode created at_ opens =>
    have hu := h.updates pid _ at_
    have touches := CrashDisk.touchesAt_openTruncate x.disk (updateName pid) created
    obtain ⟨hempty, hpossible⟩ := CrashDisk.openTruncate_fresh x.disk (updateName pid) created
    refine h.touch touches (not_lasting_updateName pid) (fun other ho he => ho (updateName_injective he))
      (hpossible _) ⟨hu.lasting, hu.extracted, hu.mode, touches.named, ?_, fun _ => hpossible⟩
    exact (congrArg (· ++ binary) hempty).trans (List.nil_append binary)
  | write pid target binary mode ino n rest at_ =>
    obtain ⟨htarget, hextracted, hmode, hnamed, hbytes, -⟩ := h.updates pid _ at_
    refine h.touch (CrashDisk.touchesAt_write hnamed _) (not_lasting_updateName pid)
      (fun other ho he => ho (updateName_injective he)) (CrashDisk.possible_write _ _ _ _)
      ⟨htarget, hextracted, hmode, hnamed, ?_, fun _ => CrashDisk.possible_write _ _ _⟩
    simp only [put, CrashDisk.write, Function.update_self, List.append_assoc, List.take_append_drop]
    exact hbytes
  | close pid target binary mode ino at_ =>
    obtain ⟨htarget, hextracted, hmode, hnamed, hbytes, hloose⟩ := h.updates pid _ at_
    refine h.enter fun u hv => ?_
    obtain rfl := Option.some.inj hv
    exact ⟨htarget, hextracted, hmode, ino, hnamed, by rw [← hbytes, List.append_nil], hloose⟩
  | chmod pid target binary mode ino at_ named =>
    obtain ⟨htarget, hextracted, hmode, ino', hnamed, hbytes, hloose⟩ := h.updates pid _ at_
    obtain rfl := Option.some.inj (named.symm.trans hnamed)
    refine h.touch (CrashDisk.touchesAt_chmod named mode) (not_lasting_updateName pid)
      (fun other ho he => ho (updateName_injective he)) (CrashDisk.possible_chmod_node (h.current ino))
      ⟨htarget, hextracted, hmode, ino, named, ?_, fun hflushed => CrashDisk.possible_chmod (hloose hflushed)⟩
    simp only [put, CrashDisk.chmod, Function.update_self, hbytes]
  | rename pid target binary mode at_ named => exact h.swap at_
  | leave pid => exact h.enter fun u hu => (by cases hu)
  | run name ino lasting named => exact h.run lasting named
  | flush ino => exact h.flush ino

theorem sound_of_run (h : x.Sound start) (run : Relation.ReflTransGen (ExecDirStep root) x y) : y.Sound start :=
  run_preserves (P := fun z : ExecDir => z.Sound start) (fun step hz => hz.step step) run h

theorem Sound.exists_replacing {target : String} (h : x.Sound start) (free : x.updates pid = none)
    (lasting : Lasting target) (probes : x.MayOpen root (probeName pid)) (binary : List UInt8) :
    ∃ y, Relation.ReflTransGen (ExecDirStep root) x y ∧ y.swapped = x.swapped ∧
      y.content (updateName pid) = x.content (updateName pid) ∧
      y.updates pid = some ⟨target, .replacing binary⟩ := by
  have begun : Relation.ReflTransGen (ExecDirStep root) x _ := .single (.begin_ pid target free lasting)
  have probed := begun.tail (.probe pid target 0o644 (updates_put _ _ _ _) probes)
  have fetching := probed.tail (.unprobe pid target (updates_put _ _ _ _))
  have replacing := fetching.tail (.extract pid target binary (updates_put _ _ _ _))
  refine ⟨_, replacing, rfl, ?_, Function.update_self _ _ _⟩
  have hne : updateName pid ≠ probeName pid := updateName_ne_probeName
  have hprobed := h.content_of_touches (CrashDisk.touchesAt_openTruncate x.disk (probeName pid) 0o644)
    (not_lasting_probeName pid) hne
  refine Eq.trans ?_ hprobed
  exact congrArg (Option.map _) (CrashDisk.names_unlink_of_ne hne)

theorem exists_written {target : String} {binary : List UInt8} {node : FileNode}
    (at_ : x.updates pid = some ⟨target, .replacing binary⟩) (found : x.content target = some node)
    (opens : x.MayOpen root (updateName pid)) :
    ∃ y, Relation.ReflTransGen (ExecDirStep root) x y ∧ y.updates pid = some ⟨target, .written binary node.mode⟩ := by
  have creating : Relation.ReflTransGen (ExecDirStep root) x _ := .single (.stat pid target binary node at_ found)
  have writing := creating.tail (.create pid target binary node.mode 0o644 (updates_put _ _ _ _) opens)
  have drained := writing.tail (.write pid target binary node.mode (x.disk.openTruncate (updateName pid) 0o644).2
    binary.length binary (updates_put _ _ _ _))
  rw [List.drop_length] at drained
  have written := drained.tail (.close pid target binary node.mode _ (updates_put _ _ _ _))
  exact ⟨_, written, updates_put _ _ _ _⟩

theorem Sound.exists_swapped {target : String} {binary : List UInt8} {mode : Nat} (h : x.Sound start)
    (at_ : x.updates pid = some ⟨target, .written binary mode⟩) :
    ∃ y, Relation.ReflTransGen (ExecDirStep root) x y ∧ y.content target = some ⟨binary, mode⟩ := by
  obtain ⟨htarget, -, -, ino, hnamed, -⟩ := h.updates pid _ at_
  have moded : Relation.ReflTransGen (ExecDirStep root) x _ := .single (.chmod pid target binary mode ino at_ hnamed)
  have swapped := moded.tail
    (.rename pid target binary mode (updates_put _ _ _ _) (Option.isSome_iff_exists.mpr ⟨ino, hnamed⟩))
  refine ⟨_, swapped, ((sound_of_run h swapped).shown target htarget).trans ?_⟩
  simp [lastSwapped]

/-- An update that is left alone goes through, over whatever files it may write that lie under the names of its
own. -/
theorem Sound.exists_update {target : String} {node : FileNode} (h : x.Sound start) (free : x.updates pid = none)
    (lasting : Lasting target) (found : x.content target = some node) (probes : x.MayOpen root (probeName pid))
    (opens : x.MayOpen root (updateName pid)) (binary : List UInt8) :
    ∃ y, Relation.ReflTransGen (ExecDirStep root) x y ∧ y.content target = some ⟨binary, node.mode⟩ := by
  obtain ⟨z, hreplacing, hswapped, hleftover, hz⟩ := h.exists_replacing free lasting probes binary
  have hsound := sound_of_run h hreplacing
  have hlast : z.lastSwapped target = x.lastSwapped target := by rw [lastSwapped, lastSwapped, hswapped]
  have hfound : z.content target = some node := by
    rw [hsound.shown target lasting, hlast, ← h.shown target lasting, found]
  have hopens : z.MayOpen root (updateName pid) := fun node hnode => opens node (hleftover ▸ hnode)
  obtain ⟨w, hwritten, hw⟩ := exists_written hz hfound hopens
  obtain ⟨y, hswap, hy⟩ := (sound_of_run hsound hwritten).exists_swapped hw
  exact ⟨y, (hreplacing.trans hwritten).trans hswap, hy⟩

end ExecDir

/-- However self-updates overlap, fail or are killed, a name in their directory always holds a whole program: the
one last renamed over it, as it was extracted for it, or else what was there before any. A started process keeps
its program, and a file that another left behind stops no later update that may write it: the one that it stops is
not root's, and finds a file without its owner's write bit. Nothing is synced: until the system has written a swapped
program back, a power loss may leave anything under the name. -/
theorem executable_swapped_whole {root : Bool} {x y : ExecDir} (fresh : x.Fresh)
    (run : Relation.ReflTransGen (ExecDirStep root) x y) :
    (∀ name, Lasting name → y.content name = (y.lastSwapped name).or (x.content name)) ∧
    (∀ s ∈ y.swapped, (s.1, s.2.bytes) ∈ y.extracted ∧ ModeFrom x.content s.1 s.2.mode) ∧
    (∀ r ∈ y.running, y.disk.node r.ino = r.program ∧
      (x.content r.name = some r.program ∨ (r.name, r.program) ∈ y.swapped)) ∧
    (∀ pid target node, y.updates pid = none → Lasting target → y.content target = some node →
      y.MayOpen root (probeName pid) → y.MayOpen root (updateName pid) → ∀ binary,
        ∃ z, Relation.ReflTransGen (ExecDirStep root) y z ∧ z.content target = some ⟨binary, node.mode⟩) ∧
    ∀ name ino, Lasting name → (y.lastSwapped name).isSome → y.disk.names name = some ino → ino ∉ y.flushed →
      ∀ node, ∃ disk, y.disk.PowerLoss disk ∧ disk.content disk.names name = some node := by
  have h := ExecDir.sound_of_run fresh.sound run
  refine ⟨h.shown, h.whole, fun r hr => ⟨(h.held r hr).1, h.known r hr⟩,
    fun pid target node free lasting found => h.exists_update free lasting found,
    fun name ino hname hsome hnamed hflushed node => ?_⟩
  obtain ⟨disk, hlost, hnames, hnode⟩ :=
    CrashDisk.exists_powerLoss h.current (h.unsynced name ino hname hsome hnamed hflushed node)
  refine ⟨disk, hlost, ?_⟩
  rw [CrashDisk.content, hnames, hnamed, Option.map_some, hnode]

theorem lasting_keepAt : Lasting "keep-at" := by
  intro pid
  have hupdate : 0 < ".keep-at-update-".toList.length := by decide
  have hprobe : 0 < ".keep-at-writable-".toList.length := by decide
  have hdot : "keep-at".toList[0]? ≠ some '.' := by decide
  refine ⟨fun h => hdot ?_, fun h => hdot ?_⟩
  · rw [h, toList_updateName, List.getElem?_append_left hupdate]
    decide
  · rw [h, toList_probeName, List.getElem?_append_left hprobe]
    decide

/-- The executable, and what a killed update has left under the name that the next one of its pid takes. -/
def leftBehind : ExecDir where
  disk :=
    { names := fun name => if name = "keep-at" then some 0 else if name = updateName 7 then some 1 else none
      past := []
      node := fun ino => if ino = 0 then ⟨[0], 0o700⟩ else ⟨[9, 9], 0o600⟩
      possible := fun ino node => node = if ino = 0 then ⟨[0], 0o700⟩ else ⟨[9, 9], 0o600⟩
      next := 2 }
  updates _ := none
  extracted := []
  swapped := []
  running := []
  flushed := []

theorem leftBehind_names {name : String} {ino : Nat} (h : leftBehind.disk.names name = some ino) :
    name = "keep-at" ∧ ino = 0 ∨ name = updateName 7 ∧ ino = 1 := by
  simp only [leftBehind] at h
  split at h
  next hname => exact Or.inl ⟨hname, (Option.some.inj h).symm⟩
  next =>
    split at h
    next hname => exact Or.inr ⟨hname, (Option.some.inj h).symm⟩
    next => cases h

theorem leftBehind_fresh : leftBehind.Fresh where
  apart p q ino own hp hq := by
    rcases leftBehind_names hp with ⟨rfl, -⟩ | ⟨rfl, rfl⟩
    · exact absurd lasting_keepAt own
    · rcases leftBehind_names hq with ⟨-, hino⟩ | ⟨rfl, -⟩
      · cases hino
      · rfl
  bounded p ino hp := by
    rcases leftBehind_names hp with ⟨-, rfl⟩ | ⟨-, rfl⟩ <;> decide
  current _ := rfl
  idle _ := rfl
  swapped := rfl
  running := rfl

theorem executable_swapped_whole_leftBehind :
    ∃ y, Relation.ReflTransGen (ExecDirStep false) leftBehind y ∧ y.content "keep-at" = some ⟨[3], 0o700⟩ := by
  obtain ⟨-, -, -, later, -⟩ := executable_swapped_whole leftBehind_fresh .refl
  have probes : leftBehind.MayOpen false (probeName 7) := by
    intro node hnode
    rw [ExecDir.content, CrashDisk.content] at hnode
    obtain ⟨ino, hino, -⟩ := Option.map_eq_some_iff.mp hnode
    rcases leftBehind_names hino with ⟨hname, -⟩ | ⟨hname, -⟩
    · exact absurd (hname ▸ lasting_keepAt) (not_lasting_probeName 7)
    · exact (updateName_ne_probeName hname.symm).elim
  have opens : leftBehind.MayOpen false (updateName 7) := by
    intro node hnode
    rw [ExecDir.content, CrashDisk.content] at hnode
    obtain ⟨ino, hino, rfl⟩ := Option.map_eq_some_iff.mp hnode
    rcases leftBehind_names hino with ⟨hname, -⟩ | ⟨-, rfl⟩
    · exact absurd (hname ▸ lasting_keepAt) (not_lasting_updateName 7)
    · exact Or.inr (by decide)
  exact later 7 "keep-at" ⟨[0], 0o700⟩ rfl lasting_keepAt rfl probes opens [3]

end KeepAt
