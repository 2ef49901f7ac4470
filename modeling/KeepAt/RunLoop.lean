import KeepAt.NetStats
import KeepAt.Reference
import KeepAt.Runs

namespace KeepAt

/-- What one scan meets, as far as it decides what the scan writes to `network-stats.json` and whether it
completes. `progress` lists the counts that its progress saver writes. -/
structure ScanFileEnv where
  startedAt : Time
  startSaved : Bool
  catalogLoaded : Bool
  interruptedEarly : Bool
  totalCandidates : Nat
  dispatchSaved : Bool
  progress : List (Nat × Bool)
  interruptedLate : Bool
  seedCounts : List Nat
  processed : Nat
  completedAt : Time
  completionSaved : Bool
  cacheSaved : Bool

def ScanFileEnv.snapshot (env : ScanFileEnv) (processedCandidates seederFloor : Nat) : Snapshot :=
  { scanStartedAt := some env.startedAt, totalCandidates := env.totalCandidates, processedCandidates,
    seederFloor }

/-- The snapshots that a scan writes, and whether it returns without an error. -/
def scanOnceFile (file : Option Snapshot) (env : ScanFileEnv) : Option Snapshot × Bool :=
  let floor := (loadSnapshot file).seederFloor
  let file := saveSnapshot file { scanStartedAt := some env.startedAt, seederFloor := floor } env.startSaved
  if !env.startSaved || !env.catalogLoaded || env.interruptedEarly then (file, false)
  else
    let file := saveSnapshot file (env.snapshot 0 floor) env.dispatchSaved
    if !env.dispatchSaved then (file, false)
    else
      let floor' := (loadSnapshot file).seederFloor
      let file := env.progress.foldl (fun file p => saveSnapshot file (env.snapshot p.1 floor') p.2) file
      if env.interruptedLate then (file, false)
      else
        let floor := if env.seedCounts.isEmpty then floor else seederFloor env.seedCounts
        let file := saveSnapshot file
          { env.snapshot env.processed floor with scanCompletedAt := some env.completedAt } env.completionSaved
        (file, env.completionSaved && env.cacheSaved)

/-- An elapsed time below zero counts as none. -/
def delayUntilNextScan (interval : Duration) (file : Option Snapshot) (now : Time) : Duration :=
  if interval = 0 then 0
  else
    match (loadSnapshot file).scanCompletedAt with
    | some done => interval - (now - done).toNat
    | none => 0

/-- The shortest wait between two scans. -/
def scanFloor : Duration := 60 * 10 ^ 9

/-- One scan of the loop: the deadline that it started on, and the completion that the file records when it
has ended. -/
structure LoopScan where
  deadline : Time
  startedAt : Time
  endedAt : Time
  completed : Bool
  recordedAt : Option Time
  deriving DecidableEq

/-- The run loop between two turns of its `select!`. -/
structure RunLoop where
  clock : Time
  deadline : Time
  file : Option Snapshot
  scans : List LoopScan

/-- When a scan starts and ends, and when the loop reads the clock for its delay and for its deadline. -/
structure ScanTimes where
  startedAt : Time
  endedAt : Time
  delayAt : Time
  deadlineAt : Time

structure ScanTimes.Ordered (t : ScanTimes) (env : ScanFileEnv) : Prop where
  started : t.startedAt ≤ env.startedAt
  completed : env.startedAt ≤ env.completedAt
  ended : env.completedAt ≤ t.endedAt
  delay : t.endedAt ≤ t.delayAt
  deadline : t.delayAt ≤ t.deadlineAt

namespace RunLoop

variable (s : Settings) (x : RunLoop)

/-- The loop as it is entered: the first deadline has no floor. -/
def enter (file : Option Snapshot) (delayAt deadlineAt : Time) : RunLoop :=
  { clock := deadlineAt, deadline := deadlineAt + delayUntilNextScan s.scan.interval file delayAt, file,
    scans := [] }

/-- A turn that runs a scan. -/
def scan (env : ScanFileEnv) (t : ScanTimes) : RunLoop :=
  let (file, completed) := scanOnceFile x.file env
  let wait := if completed then delayUntilNextScan s.scan.interval file t.delayAt else s.scan.interval
  { clock := t.deadlineAt
    deadline := t.deadlineAt + max wait scanFloor
    file
    scans := x.scans ++ [{ deadline := x.deadline, startedAt := t.startedAt, endedAt := t.endedAt, completed,
                           recordedAt := (loadSnapshot file).scanCompletedAt }] }

/-- A turn that saves the statistics or makes a watchdog pass. -/
def tick (doneAt : Time) : RunLoop := { x with clock := doneAt }

end RunLoop

/-- A turn of the loop, under a clock that does not go back. A shutdown ends the run anywhere. -/
inductive LoopStep (s : Settings) (x : RunLoop) : RunLoop → Prop
  | scan (env : ScanFileEnv) (t : ScanTimes) (due : x.deadline ≤ t.startedAt) (later : x.clock ≤ t.startedAt)
      (ordered : t.Ordered env) : LoopStep s x (x.scan s env t)
  | stats (doneAt : Time) (later : x.clock ≤ doneAt) (on : s.cfg.config.statsInterval > 0) :
      LoopStep s x (x.tick doneAt)
  | watchdog (doneAt : Time) (later : x.clock ≤ doneAt) (on : s.scan.quarantineCheckInterval > 0) :
      LoopStep s x (x.tick doneAt)

variable {s : Settings} {x y : RunLoop}

/-- A scan that completes leaves its completion in the file. -/
theorem scanOnceFile_completed {file : Option Snapshot} {env : ScanFileEnv}
    (h : (scanOnceFile file env).2 = true) :
    (loadSnapshot (scanOnceFile file env).1).scanCompletedAt = some env.completedAt := by
  unfold scanOnceFile at h ⊢
  dsimp only at h ⊢
  split at h
  next => cases h
  next hbegun =>
    rw [if_neg hbegun]
    split at h
    next => cases h
    next hdispatched =>
      rw [if_neg hdispatched]
      split at h
      next => cases h
      next hwalked =>
        rw [if_neg hwalked]
        have hsaved : env.completionSaved = true := (Bool.and_eq_true _ _ ▸ h).1
        rw [hsaved]
        rfl

/-- A scan paces what starts at a time: a minute after its end, and the interval after the completion that
it recorded or, without one, after its end. -/
structure LoopScan.Paces (interval : Duration) (r : LoopScan) (time : Time) : Prop where
  floor : r.endedAt + scanFloor ≤ time
  completed : r.completed = true → ∃ done, r.recordedAt = some done ∧ done ≤ r.endedAt ∧ done + interval ≤ time
  failed : r.completed = false → r.endedAt + interval ≤ time

theorem LoopScan.Paces.mono {interval : Duration} {r : LoopScan} {time later : Time}
    (h : r.Paces interval time) (hle : time ≤ later) : r.Paces interval later := by
  refine ⟨h.floor.trans hle, fun hcompleted => ?_, fun hfailed => (h.failed hfailed).trans hle⟩
  obtain ⟨done, hrecorded, hended, hdone⟩ := h.completed hcompleted
  exact ⟨done, hrecorded, hended, hdone.trans hle⟩

theorem add_le_add_remaining {done now later : Int} {interval : Nat} (past : done ≤ now) (hle : now ≤ later) :
    done + interval ≤ later + (interval - (now - done).toNat : Nat) := by
  omega

/-- Whatever is left of the interval when the delay is read, it is over at the deadline. -/
theorem delayUntilNextScan_reaches (interval : Duration) {file : Option Snapshot} {done now later : Time}
    (recorded : (loadSnapshot file).scanCompletedAt = some done) (past : done ≤ now) (hle : now ≤ later) :
    done + interval ≤ later + delayUntilNextScan interval file now := by
  unfold delayUntilNextScan
  rw [recorded]
  split
  next hzero =>
    rw [hzero]
    exact add_le_add (past.trans hle) le_rfl
  next => exact add_le_add_remaining past hle

/-- The deadline that a scan leaves is paced by it. -/
theorem scan_paces (x : RunLoop) {env : ScanFileEnv} {t : ScanTimes} (ordered : t.Ordered env) :
    LoopScan.Paces s.scan.interval
      { deadline := x.deadline, startedAt := t.startedAt, endedAt := t.endedAt,
        completed := (scanOnceFile x.file env).2,
        recordedAt := (loadSnapshot (scanOnceFile x.file env).1).scanCompletedAt }
      (x.scan s env t).deadline := by
  obtain ⟨hstarted, hcompleted, hended, hdelay, hdeadline⟩ := ordered
  have hlate : t.endedAt ≤ t.deadlineAt := hdelay.trans hdeadline
  refine ⟨add_le_add hlate (Int.ofNat_le.mpr (le_max_right _ _)), fun hok => ?_, fun hfailed => ?_⟩
  · have hrecorded := scanOnceFile_completed hok
    refine ⟨env.completedAt, hrecorded, hended, ?_⟩
    have hreaches := delayUntilNextScan_reaches s.scan.interval hrecorded (hended.trans hdelay) hdeadline
    unfold RunLoop.scan
    dsimp only at hok ⊢
    rw [hok, if_pos rfl]
    exact hreaches.trans (add_le_add le_rfl (Int.ofNat_le.mpr (le_max_left _ _)))
  · unfold RunLoop.scan
    dsimp only at hfailed ⊢
    rw [hfailed, if_neg (by simp)]
    exact add_le_add hlate (Int.ofNat_le.mpr (le_max_left _ _))

/-- What holds between two turns of a loop entered with a deadline: every scan paces the next one, and the
last one the deadline that stands. -/
structure LoopSound (s : Settings) (entered : Time) (x : RunLoop) : Prop where
  started : ∀ r ∈ x.scans, r.deadline ≤ r.startedAt
  untouched : x.scans = [] → x.deadline = entered
  first : ∀ r ∈ x.scans.head?, r.deadline = entered
  paced : x.scans.IsChain fun prev next => prev.Paces s.scan.interval next.startedAt
  next : ∀ r ∈ x.scans.getLast?, r.Paces s.scan.interval x.deadline

theorem LoopStep.sound {entered : Time} (step : LoopStep s x y) (h : LoopSound s entered x) :
    LoopSound s entered y := by
  cases step with
  | scan env t due later ordered =>
    refine ⟨fun r hr => ?_, fun hnone => ?_, fun r hr => ?_, ?_, fun r hr => ?_⟩
    · rcases List.mem_append.mp hr with hold | hnew
      · exact h.started r hold
      · rw [List.mem_singleton.mp hnew]
        exact due
    · exact absurd hnone (List.append_ne_nil_of_right_ne_nil _ (List.cons_ne_nil _ _))
    · have hhead : (x.scan s env t).scans.head? = x.scans.head?.or _ := List.head?_append
      rw [hhead] at hr
      rcases Option.or_eq_some_iff.mp hr with hold | ⟨hnone, hnew⟩
      · exact h.first r hold
      · rw [← Option.some.inj hnew]
        exact h.untouched (List.head?_eq_none_iff.mp hnone)
    · refine List.isChain_append.mpr ⟨h.paced, List.isChain_singleton _, fun prev hprev next hnext => ?_⟩
      rw [← Option.some.inj hnext]
      exact (h.next prev hprev).mono due
    · have hlast : (x.scan s env t).scans.getLast? = some _ := List.getLast?_concat
      rw [hlast] at hr
      rw [← Option.some.inj hr]
      exact scan_paces x ordered
  | stats doneAt later on => exact ⟨h.started, h.untouched, h.first, h.paced, h.next⟩
  | watchdog doneAt later on => exact ⟨h.started, h.untouched, h.first, h.paced, h.next⟩

/-- A turn starts a scan, no earlier than the deadline that stands, or leaves the deadline alone. -/
theorem LoopStep.turns (step : LoopStep s x y) : (y.scans = x.scans ∧ y.deadline = x.deadline) ∨
    ∃ r, y.scans = x.scans ++ [r] ∧ r.deadline = x.deadline ∧ x.deadline ≤ r.startedAt := by
  cases step with
  | scan env t due later ordered => exact Or.inr ⟨_, rfl, rfl, due⟩
  | stats doneAt later on => exact Or.inl ⟨rfl, rfl⟩
  | watchdog doneAt later on => exact Or.inl ⟨rfl, rfl⟩

/-- In any run of the loop a scan starts at or after the deadline, which only scans move, a minute after the
scan before it has ended, and the interval after the completion that this one recorded or else after its end.
The first one keeps the interval from the completion that the loop finds in the file. -/
theorem run_loop_pacing (s : Settings) (file : Option Snapshot) (delayAt deadlineAt : Time)
    (hentered : delayAt ≤ deadlineAt) {y : RunLoop}
    (run : Relation.ReflTransGen (LoopStep s) (RunLoop.enter s file delayAt deadlineAt) y) :
    (∀ r ∈ y.scans, r.deadline ≤ r.startedAt) ∧
      (∀ z, LoopStep s y z → (z.scans = y.scans ∧ z.deadline = y.deadline) ∨
        ∃ r, z.scans = y.scans ++ [r] ∧ r.deadline = y.deadline ∧ y.deadline ≤ r.startedAt) ∧
      (y.scans.IsChain fun prev next : LoopScan => prev.endedAt + scanFloor ≤ next.startedAt ∧
        (prev.completed = true → ∃ done, prev.recordedAt = some done ∧
          done + s.scan.interval ≤ next.startedAt) ∧
        (prev.completed = false → prev.endedAt + s.scan.interval ≤ next.startedAt)) ∧
      ∀ r ∈ y.scans.head?, ∀ done, (loadSnapshot file).scanCompletedAt = some done → done ≤ delayAt →
        done + s.scan.interval ≤ r.startedAt := by
  have start : LoopSound s (RunLoop.enter s file delayAt deadlineAt).deadline
      (RunLoop.enter s file delayAt deadlineAt) :=
    ⟨fun r hr => absurd hr List.not_mem_nil, fun _ => rfl, fun r hr => absurd hr (by simp [RunLoop.enter]),
      .nil, fun r hr => absurd hr (by simp [RunLoop.enter])⟩
  have hsound := run_preserves (P := LoopSound s (RunLoop.enter s file delayAt deadlineAt).deadline)
    LoopStep.sound run start
  refine ⟨hsound.started, fun z step => step.turns, ?_, fun r hr done hdone past => ?_⟩
  · refine hsound.paced.imp fun prev next h => ⟨h.floor, fun hcompleted => ?_, h.failed⟩
    obtain ⟨done, hrecorded, -, hreached⟩ := h.completed hcompleted
    exact ⟨done, hrecorded, hreached⟩
  · have hreaches := delayUntilNextScan_reaches s.scan.interval hdone past hentered
    have hstarted := hsound.started r (List.mem_of_mem_head? hr)
    rw [hsound.first r hr] at hstarted
    exact hreaches.trans hstarted

namespace Reference

/-- A scan that starts at one time and completes at another. -/
def scanFile (startedAt completedAt : Time) : ScanFileEnv where
  startedAt := startedAt
  startSaved := true
  catalogLoaded := true
  interruptedEarly := false
  totalCandidates := 1
  dispatchSaved := true
  progress := [(1, true)]
  interruptedLate := false
  seedCounts := [3]
  processed := 1
  completedAt := completedAt
  completionSaved := true
  cacheSaved := true

def scanTimes (startedAt endedAt : Time) : ScanTimes := ⟨startedAt, endedAt, endedAt, endedAt⟩

end Reference

open Reference in
theorem run_loop_pacing_one :
    let x := (RunLoop.enter settings none 0 0).scan settings (scanFile 0 5) (scanTimes 0 9)
    let y := (x.tick 20).scan settings (scanFile (5 + defaultScanInterval) (9 + defaultScanInterval))
      (scanTimes (5 + defaultScanInterval) (9 + defaultScanInterval))
    y.scans.map LoopScan.startedAt = [0, 5 + defaultScanInterval] ∧
      y.scans.IsChain fun prev next : LoopScan => prev.endedAt + scanFloor ≤ next.startedAt := by
  intro x y
  have first : LoopStep settings (RunLoop.enter settings none 0 0) x :=
    .scan _ _ (by decide) (by decide)
      ⟨by decide, by decide, by decide, le_rfl, le_rfl⟩
  have ticked : LoopStep settings x (x.tick 20) := .stats 20 (by decide) (by decide)
  have second : LoopStep settings (x.tick 20) y :=
    .scan _ _ (by decide) (by decide)
      ⟨by decide, by decide, by decide, le_rfl, le_rfl⟩
  have run := ((Relation.ReflTransGen.single first).tail ticked).tail second
  exact ⟨by decide, (run_loop_pacing settings none 0 0 le_rfl run).2.2.1.imp fun _ _ h => h.1⟩

end KeepAt
