import KeepAt.RunLoop

namespace KeepAt

/-- A scan in the life of a node: when it started, in which start of the daemon and under which interval, and the
completion that the file had when it ended or was cut off. -/
structure ScanStart where
  startedAt : Time
  boot : Nat
  interval : Duration
  recordedAt : Option Time
  deriving DecidableEq

/-- A node over the starts of its daemon. -/
structure ScanLife where
  settings : Settings
  boot : Nat
  loop : RunLoop
  log : List ScanStart

def fileCompletion (file : Option Snapshot) : Option Time := (loadSnapshot file).scanCompletedAt

/-- The file that a process leaves which dies in a scan: as the scan found it, or as some write of it left it. -/
def cutFile (file : Option Snapshot) : Option ScanFileEnv → Option Snapshot
  | none => file
  | some env => (scanOnceFile file env).1

namespace ScanLife

variable (x : ScanLife)

def interval : Duration := x.settings.scan.interval

/-- The scans that a turn of the loop adds. -/
def turn (loop : RunLoop) : ScanLife :=
  let new := loop.scans.drop x.loop.scans.length
  { x with
    loop
    log := x.log ++ new.map fun r => ⟨r.startedAt, x.boot, x.interval, r.recordedAt⟩ }

/-- Another process, over the file that the last one left. -/
def restart (settings : Settings) (file : Option Snapshot) (delayAt deadlineAt : Time) (cut : List ScanStart) :
    ScanLife :=
  { settings, boot := x.boot + 1, loop := RunLoop.enter settings file delayAt deadlineAt, log := x.log ++ cut }

end ScanLife

/-- What becomes of a node, under a clock that does not go back: a turn of its loop, or the end of its process, between
two turns or in the middle of a scan, and the start of another one under whatever is configured then. -/
inductive ScanLifeStep (x : ScanLife) : ScanLife → Prop
  | turn {loop : RunLoop} (step : LoopStep x.settings x.loop loop) : ScanLifeStep x (x.turn loop)
  | die (settings : Settings) (delayAt deadlineAt : Time) (later : x.loop.clock ≤ delayAt)
      (ordered : delayAt ≤ deadlineAt) :
      ScanLifeStep x (x.restart settings x.loop.file delayAt deadlineAt [])
  | dieScanning (startedAt : Time) (written : Option ScanFileEnv) (settings : Settings) (delayAt deadlineAt : Time)
      (due : x.loop.deadline ≤ startedAt) (later : x.loop.clock ≤ startedAt) (dead : startedAt ≤ delayAt)
      (clocked : ∀ env ∈ written, startedAt ≤ env.completedAt ∧ env.completedAt ≤ delayAt)
      (ordered : delayAt ≤ deadlineAt) :
      ScanLifeStep x (x.restart settings (cutFile x.loop.file written) delayAt deadlineAt
        [⟨startedAt, x.boot, x.interval, fileCompletion (cutFile x.loop.file written)⟩])

/-- The start of a node: no scan yet, and a file that records nothing later than now. -/
structure ScanLife.Fresh (x : ScanLife) : Prop where
  log : x.log = []
  entered : ∃ delayAt deadlineAt, delayAt ≤ deadlineAt ∧
    x.loop = RunLoop.enter x.settings x.loop.file delayAt deadlineAt ∧
    ∀ done, fileCompletion x.loop.file = some done → done ≤ delayAt

/-- A scan keeps its distance from the one before: the interval from what the file recorded then, and in one process
the interval from its start. -/
structure ScanStart.Paces (a b : ScanStart) : Prop where
  boots : a.boot ≤ b.boot
  recorded : ∀ done, a.recordedAt = some done → done + b.interval ≤ b.startedAt
  within : a.boot = b.boot → a.startedAt + b.interval ≤ b.startedAt

/-- No completion of the scan itself came into the file. -/
def ScanStart.Unrecorded (a : ScanStart) : Prop := ∀ done, a.recordedAt = some done → done < a.startedAt

/-- What holds of a node at any time. -/
structure ScanLife.Sound (x : ScanLife) : Prop where
  paced : x.log.IsChain ScanStart.Paces
  known : ∀ done, fileCompletion x.loop.file = some done → done ≤ x.loop.clock
  waits : ∀ done, fileCompletion x.loop.file = some done → done + x.interval ≤ x.loop.deadline
  boots : ∀ a ∈ x.log.getLast?, a.boot ≤ x.boot
  last : ∀ a ∈ x.log.getLast?, a.recordedAt = fileCompletion x.loop.file
  within : ∀ a ∈ x.log.getLast?, a.boot = x.boot → a.startedAt + x.interval ≤ x.loop.deadline

variable {x y : ScanLife}

/-- A scan leaves its own completion in the file, or the one that it found there, or none. -/
theorem scanOnceFile_completion {file : Option Snapshot} {env : ScanFileEnv} {done : Time}
    (h : fileCompletion (scanOnceFile file env).1 = some done) :
    done = env.completedAt ∨ fileCompletion file = some done := by
  have hsaved : ∀ {file : Option Snapshot} {s : Snapshot} {saved : Bool}, s.scanCompletedAt = none →
      fileCompletion (saveSnapshot file s saved) = some done → fileCompletion file = some done := by
    intro file s saved hs h
    cases saved with
    | true =>
      rw [fileCompletion, saveSnapshot, if_pos rfl, loadSnapshot, Option.getD_some, hs] at h
      cases h
    | false => exact h
  have hfold : ∀ (progress : List (Nat × Bool)) (file : Option Snapshot) (floor : Nat),
      fileCompletion (progress.foldl (fun file p => saveSnapshot file (env.snapshot p.1 floor) p.2) file) = some done →
      fileCompletion file = some done := by
    intro progress
    induction progress with
    | nil => exact fun _ _ h => h
    | cons p rest ih => exact fun file floor h => hsaved rfl (ih _ floor h)
  unfold scanOnceFile at h
  dsimp only at h
  split at h
  next => exact Or.inr (hsaved rfl h)
  next =>
    split at h
    next => exact Or.inr (hsaved rfl (hsaved rfl h))
    next =>
      split at h
      next => exact Or.inr (hsaved rfl (hsaved rfl (hfold _ _ _ h)))
      next =>
        cases hcompletion : env.completionSaved with
        | true =>
          rw [hcompletion] at h
          exact Or.inl (Option.some.inj h).symm
        | false =>
          rw [hcompletion] at h
          exact Or.inr (hsaved rfl (hsaved rfl (hfold _ _ _ h)))

/-- What is left of the interval, in the process that reads the file. -/
theorem enter_waits {settings : Settings} {file : Option Snapshot} {delayAt deadlineAt done : Time}
    (ordered : delayAt ≤ deadlineAt) (past : done ≤ delayAt) (h : fileCompletion file = some done) :
    done + settings.scan.interval ≤ (RunLoop.enter settings file delayAt deadlineAt).deadline :=
  delayUntilNextScan_reaches _ h past ordered

theorem ScanLife.Fresh.sound (h : x.Fresh) : x.Sound := by
  obtain ⟨hlog, delayAt, deadlineAt, ordered, hloop, hpast⟩ := h
  have hnone : ∀ a ∈ x.log.getLast?, False := by simp [hlog]
  refine ⟨by rw [hlog]; exact .nil, fun done hd => ?_, fun done hd => ?_, fun a ha => (hnone a ha).elim,
    fun a ha => (hnone a ha).elim, fun a ha => (hnone a ha).elim⟩
  · rw [hloop]
    exact (hpast done hd).trans ordered
  · rw [hloop]
    exact enter_waits ordered (hpast done hd) hd

theorem ScanLife.Sound.paces (h : x.Sound) {b : ScanStart} (boot : b.boot = x.boot) (interval : b.interval = x.interval)
    (due : x.loop.deadline ≤ b.startedAt) : (x.log ++ [b]).IsChain ScanStart.Paces := by
  refine List.isChain_append.mpr ⟨h.paced, List.isChain_singleton _, fun a ha c hc => ?_⟩
  obtain rfl := Option.some.inj hc
  refine ⟨boot ▸ h.boots a ha, fun done hdone => ?_, fun hboot => ?_⟩
  · rw [h.last a ha] at hdone
    rw [interval]
    exact (h.waits done hdone).trans due
  · rw [interval]
    exact (h.within a ha (hboot.trans boot)).trans due

/-- The deadline after a scan is the interval away from whatever the file records then. -/
theorem scan_waits {s : Settings} {x : RunLoop} {env : ScanFileEnv} {t : ScanTimes} {done : Time}
    (past : done ≤ t.delayAt) (ordered : t.delayAt ≤ t.deadlineAt)
    (h : fileCompletion (x.scan s env t).file = some done) :
    done + s.scan.interval ≤ (x.scan s env t).deadline := by
  unfold RunLoop.scan at h ⊢
  dsimp only at h ⊢
  cases hcompleted : (scanOnceFile x.file env).2 with
  | true =>
    rw [if_pos rfl]
    exact (delayUntilNextScan_reaches _ h past ordered).trans
      (add_le_add le_rfl (Int.ofNat_le.mpr (le_max_left _ _)))
  | false =>
    rw [if_neg (by simp)]
    exact add_le_add (past.trans ordered) (Int.ofNat_le.mpr (le_max_left _ _))

theorem scan_after_start {s : Settings} {x : RunLoop} {env : ScanFileEnv} {t : ScanTimes} (ordered : t.Ordered env) :
    t.startedAt + s.scan.interval ≤ (x.scan s env t).deadline := by
  obtain ⟨hstarted, hcompleted, hended, hdelay, hdeadline⟩ := ordered
  cases hok : (scanOnceFile x.file env).2 with
  | true =>
    have hdone : fileCompletion (x.scan s env t).file = some env.completedAt := scanOnceFile_completed hok
    have hwaits := scan_waits (hended.trans hdelay) hdeadline hdone
    exact (add_le_add (hstarted.trans hcompleted) le_rfl).trans hwaits
  | false =>
    have hlate : t.startedAt ≤ t.deadlineAt :=
      hstarted.trans (hcompleted.trans (hended.trans (hdelay.trans hdeadline)))
    unfold RunLoop.scan
    dsimp only
    rw [hok, if_neg (by simp)]
    exact add_le_add hlate (Int.ofNat_le.mpr (le_max_left _ _))

theorem ScanLife.Sound.turn {loop : RunLoop} (h : x.Sound) (step : LoopStep x.settings x.loop loop) :
    (x.turn loop).Sound := by
  have quiet : ∀ doneAt, x.loop.clock ≤ doneAt → (x.turn (x.loop.tick doneAt)).Sound := by
    intro doneAt later
    have hlog : (x.turn (x.loop.tick doneAt)).log = x.log := by simp [ScanLife.turn, RunLoop.tick]
    refine ⟨hlog ▸ h.paced, fun done hd => (h.known done hd).trans later, h.waits, ?_, ?_, ?_⟩ <;> rw [hlog]
    · exact h.boots
    · exact h.last
    · exact h.within
  cases step with
  | scan env t due later ordered =>
    let b : ScanStart :=
      ⟨t.startedAt, x.boot, x.interval, fileCompletion (x.loop.scan x.settings env t).file⟩
    have hlog : (x.turn (x.loop.scan x.settings env t)).log = x.log ++ [b] := by
      simp [ScanLife.turn, RunLoop.scan, b, fileCompletion]
    have hlast : (x.turn (x.loop.scan x.settings env t)).log.getLast? = some b := by rw [hlog]; exact List.getLast?_concat
    have hpast : ∀ done, fileCompletion (x.loop.scan x.settings env t).file = some done → done ≤ t.delayAt := by
      intro done hd
      have hended := ordered.completed.trans (ordered.ended.trans ordered.delay)
      rcases scanOnceFile_completion hd with rfl | hold
      · exact ordered.ended.trans ordered.delay
      · exact (h.known done hold).trans (later.trans (ordered.started.trans hended))
    refine ⟨hlog ▸ h.paces rfl rfl due, fun done hd => (hpast done hd).trans ordered.deadline,
      fun done hd => scan_waits (hpast done hd) ordered.deadline hd, fun a ha => ?_, fun a ha => ?_, fun a ha => ?_⟩
    all_goals obtain rfl := Option.some.inj (hlast.symm.trans ha)
    · exact le_rfl
    · rfl
    · exact fun _ => scan_after_start ordered
  | stats doneAt later on => exact quiet doneAt later
  | watchdog doneAt later on => exact quiet doneAt later

theorem ScanLife.Sound.restart {file : Option Snapshot} {cut : List ScanStart} {delayAt deadlineAt : Time}
    (settings : Settings) (paced : (x.log ++ cut).IsChain ScanStart.Paces)
    (past : ∀ done, fileCompletion file = some done → done ≤ delayAt) (ordered : delayAt ≤ deadlineAt)
    (last : ∀ a ∈ (x.log ++ cut).getLast?, a.boot ≤ x.boot ∧ a.recordedAt = fileCompletion file) :
    (x.restart settings file delayAt deadlineAt cut).Sound := by
  refine ⟨paced, fun done hd => (past done hd).trans ordered, fun done hd => enter_waits ordered (past done hd) hd,
    fun a ha => ?_, fun a ha => (last a ha).2, fun a ha hboot => ?_⟩
  · exact (last a ha).1.trans (Nat.le_succ _)
  · have := (last a ha).1
    exact absurd hboot (by simp only [ScanLife.restart]; omega)

theorem ScanLifeStep.sound (step : ScanLifeStep x y) (h : x.Sound) : y.Sound := by
  cases step with
  | turn step => exact h.turn step
  | die settings delayAt deadlineAt later ordered =>
    refine .restart settings (by rw [List.append_nil]; exact h.paced) (fun done hd => (h.known done hd).trans later)
      ordered fun a ha => ?_
    rw [List.append_nil] at ha
    exact ⟨h.boots a ha, h.last a ha⟩
  | dieScanning startedAt written settings delayAt deadlineAt due later dead clocked ordered =>
    refine .restart settings (h.paces rfl rfl due) (fun done hd => ?_) ordered fun a ha => ?_
    · have hold : fileCompletion x.loop.file = some done → done ≤ delayAt :=
        fun hd => (h.known done hd).trans (later.trans dead)
      cases written with
      | none => exact hold hd
      | some env =>
        rcases scanOnceFile_completion hd with rfl | hd
        · exact (clocked env rfl).2
        · exact hold hd
    · rw [List.getLast?_concat] at ha
      obtain rfl := Option.some.inj ha
      exact ⟨le_rfl, rfl⟩

/-- Over any number of starts of the daemon, killed whenever and under whatever intervals, a scan starts no sooner than
the interval after the last completion that the file had, and in one process the interval after the scan before. So of
scans closer together than that, each but the last was cut off, in a process of its own, before its completion was
saved: a daemon that keeps crashing scans once more for each restart. -/
theorem scans_paced_over_restarts (fresh : x.Fresh) (run : Relation.ReflTransGen ScanLifeStep x y) :
    y.log.IsChain ScanStart.Paces ∧
      ∀ window, window <:+: y.log → (∀ a ∈ window, ∀ b ∈ window, b.startedAt < a.startedAt + b.interval) →
        window.IsChain fun a b => a.boot < b.boot ∧ a.Unrecorded := by
  have hsound : y.Sound := run_preserves (P := ScanLife.Sound) ScanLifeStep.sound run fresh.sound
  refine ⟨hsound.paced, fun window hwindow hnear => ?_⟩
  have hpaced : window.IsChain ScanStart.Paces := hsound.paced.infix hwindow
  refine List.IsChain.imp_of_mem_imp ?_ hpaced
  intro a b ha hb h
  have hab := hnear a ha b hb
  refine ⟨lt_of_le_of_ne h.boots fun hboot => ?_, fun done hdone => ?_⟩
  · exact absurd (h.within hboot) (not_le.mpr hab)
  · exact lt_of_add_lt_add_right ((h.recorded done hdone).trans_lt hab)

open Reference in
/-- A daemon that is killed in its first scan, and the scan that follows in the next one. -/
theorem scans_paced_over_restarts_killed :
    let x : ScanLife := ⟨settings, 0, RunLoop.enter settings none 0 0, []⟩
    let cut := { scanFile 0 3 with interruptedLate := true }
    let y := x.restart settings (cutFile none (some cut)) 5 5
      [⟨0, 0, x.interval, fileCompletion (cutFile none (some cut))⟩]
    let z := y.turn (y.loop.scan settings (scanFile 6 8) (scanTimes 6 9))
    z.log.map ScanStart.startedAt = [0, 6] ∧ z.log.IsChain fun a b => a.boot < b.boot ∧ a.Unrecorded := by
  intro x cut y z
  have fresh : x.Fresh := ⟨rfl, 0, 0, le_rfl, rfl, fun done hd => by cases hd⟩
  have killed : ScanLifeStep x y :=
    .dieScanning 0 (some cut) settings 5 5 (by decide) (by decide) (by decide)
      (fun env henv => by cases henv; decide) le_rfl
  have scanned : ScanLifeStep y z :=
    .turn (.scan (scanFile 6 8) (scanTimes 6 9) (by decide) (by decide)
      ⟨by decide, by decide, by decide, le_rfl, le_rfl⟩)
  have hnear : ∀ a ∈ z.log, ∀ b ∈ z.log, b.startedAt < a.startedAt + b.interval := by decide
  exact ⟨by decide, (scans_paced_over_restarts fresh ((Relation.ReflTransGen.single killed).tail scanned)).2 z.log
    List.infix_rfl hnear⟩

end KeepAt
