import KeepAt.DaemonControl

namespace KeepAt

open Utf8

variable {defaultDir : OsString} {x y : Machine}

/-- The arguments of a running `keep-at run` or `keep-at start` name the data dir: in a flag, by a config file that
names it, or as the default when they name neither. -/
def Proc.Names (defaultDir : OsString) (configDir : OsString → Option OsString) (dir : OsString) (p : Proc) :
    Prop :=
  ∃ (own pid : Nat) (entry : ProcEntry) (parts : List OsString), entry.cmdline = p.cmdline ∧
    keepAtDaemonProc own entry = some (pid, parts) ∧
    foregroundMatches configDir defaultDir parts (lossy dir) = true

/-- Under this pid the data dir's daemon of that birth wrote the PID file, and whoever has the pid now is that
daemon or was started later. -/
structure Machine.WrittenBy (x : Machine) (dir : OsString) (pid born : Nat) : Prop where
  written : (dir, pid, born) ∈ x.writes
  past : born < x.births
  now : ∀ p, x.procs pid = some p → (p.born = born ∧ p.dataDir = some dir) ∨ born < p.born

/-- What a stop may signal: a process that its data dir's PID file names and that wrote it or, when that daemon
died and left the file, was started under the same pid since and is a keep-at process; one whose arguments name
the data dir; and any daemon only when no data dir was named. -/
def StopRoute.Finds (defaultDir : OsString) (writes : List (OsString × Nat × Nat)) (dir : OsString)
    (explicit : Bool) (pid : Nat) (p : Proc) (configDir : OsString → Option OsString) : StopRoute → Prop
  | .pidFile => p.isKeepAt = true ∧
      (p.dataDir = some dir ∨ ∃ born < p.born, (dir, pid, born) ∈ writes)
  | .argv => p.Names defaultDir configDir dir
  | .anyDaemon => explicit = false

/-- The same process, or one that was started since. -/
def Proc.LaterThan (p q : Proc) : Prop := p = q ∨ q.born < p.born

structure StopSignal.Sound (defaultDir : OsString) (x : Machine) (s : StopSignal) : Prop where
  found : s.route.Finds defaultDir x.writes s.dir s.explicit s.pid s.found s.configDir
  configDir : s.configDir ∈ x.configs
  target : s.target.LaterThan s.found

def StopCmd.Sound (defaultDir : OsString) (x : Machine) (c : StopCmd) : Prop :=
  match c.stage with
  | .checking pid => ∃ born, x.WrittenBy c.dir pid born
  | .signalling route pid found configDir =>
    route.Finds defaultDir x.writes c.dir c.explicit pid found configDir ∧ configDir ∈ x.configs ∧
      found.born < x.births ∧ ∀ p, x.procs pid = some p → p.LaterThan found
  | _ => True

/-- What holds of a machine at any moment. -/
structure Machine.Sound (defaultDir : OsString) (x : Machine) : Prop where
  young : ∀ pid p, x.procs pid = some p → p.born < x.births
  files : ∀ dir text, x.pidFile dir = some text →
    ∃ pid born, text = toString pid ∧ pid ≤ u32Max ∧ x.WrittenBy dir pid born
  stops : ∀ c ∈ x.stops, c.Sound defaultDir x
  signals : ∀ s ∈ x.signals, s.Sound defaultDir x

/-- No process of before is under another pid, and the others are younger. -/
structure Machine.Grows (x y : Machine) : Prop where
  births : x.births ≤ y.births
  writes : ∀ w ∈ x.writes, w ∈ y.writes
  configs : ∀ c ∈ x.configs, c ∈ y.configs
  procs : ∀ pid p, y.procs pid = some p → x.procs pid = some p ∨ x.births ≤ p.born

theorem readPid_toString {pid : Nat} (small : pid ≤ u32Max) : readPid (some (toString pid)) = some pid := by
  have hdigits : ∀ c ∈ Nat.toDigits 10 pid, c.isDigit = true := fun c => isDigit_of_mem_toDigits
  have htrim : trim (Nat.toDigits 10 pid) = Nat.toDigits 10 pid :=
    trim_eq_self fun c hc => not_isWhiteSpace_of_isNumberChar (isNumberChar_of_mem_toDigits hc)
  have hne : Nat.toDigits 10 pid ≠ [] := List.ne_nil_of_length_pos Nat.length_toDigits_pos
  have hdecimal : ¬(Nat.toDigits 10 pid = [] ∨ ¬(Nat.toDigits 10 pid).all Char.isDigit = true) := by
    rw [not_or, not_not]
    exact ⟨hne, List.all_eq_true.mpr hdigits⟩
  have hplus : withoutPlus (Nat.toDigits 10 pid) = Nat.toDigits 10 pid := by
    unfold withoutPlus
    split
    next rest heq => exact absurd (hdigits '+' (by rw [heq]; exact List.mem_cons_self)) (by decide)
    next => rfl
  rw [readPid, Option.bind_some, Nat.toString_eq_ofList_toDigits, String.toList_ofList, htrim, parseU32, hplus,
    if_neg hdecimal, Nat.ofDigitChars_ten_toDigits, if_pos small]

theorem Machine.WrittenBy.grow {dir : OsString} {pid born : Nat} (h : x.WrittenBy dir pid born)
    (grows : x.Grows y) : y.WrittenBy dir pid born := by
  refine ⟨grows.writes _ h.written, h.past.trans_le grows.births, fun p hp => ?_⟩
  rcases grows.procs pid p hp with hold | hyoung
  · exact h.now p hold
  · exact Or.inr (h.past.trans_le hyoung)

theorem StopRoute.Finds.grow {route : StopRoute} {writes writes' : List (OsString × Nat × Nat)}
    {dir : OsString} {explicit : Bool} {pid : Nat} {p : Proc} {configDir : OsString → Option OsString}
    (h : route.Finds defaultDir writes dir explicit pid p configDir) (more : ∀ w ∈ writes, w ∈ writes') :
    route.Finds defaultDir writes' dir explicit pid p configDir := by
  cases route with
  | pidFile => exact ⟨h.1, h.2.imp_right fun ⟨born, hborn, hmem⟩ => ⟨born, hborn, more _ hmem⟩⟩
  | argv => exact h
  | anyDaemon => exact h

theorem StopCmd.Sound.grow {c : StopCmd} (h : c.Sound defaultDir x) (grows : x.Grows y) :
    c.Sound defaultDir y := by
  obtain ⟨own, dir, explicit, stage⟩ := c
  cases stage with
  | checking pid =>
    obtain ⟨born, hwritten⟩ := h
    exact ⟨born, hwritten.grow grows⟩
  | signalling route pid found configDir =>
    obtain ⟨hfinds, hconfig, hborn, hnow⟩ := h
    refine ⟨hfinds.grow grows.writes, grows.configs _ hconfig, hborn.trans_le grows.births, fun p hp => ?_⟩
    rcases grows.procs pid p hp with hold | hyoung
    · exact hnow p hold
    · exact Or.inr (hborn.trans_le hyoung)
  | asked | scanning | waiting | ended => trivial

theorem StopSignal.Sound.grow {s : StopSignal} (h : s.Sound defaultDir x) (grows : x.Grows y) :
    s.Sound defaultDir y :=
  ⟨h.found.grow grows.writes, grows.configs _ h.configDir, h.target⟩

theorem MachineStep.grows (step : MachineStep defaultDir x y) : x.Grows y := by
  cases step with
  | spawn pid cmdline dataDir free small =>
    refine ⟨Nat.le_succ _, fun _ hw => hw, fun _ hc => hc, fun pid' p hp => ?_⟩
    simp only [Machine.spawn, Function.update_apply] at hp
    split at hp
    next =>
      obtain rfl := Option.some.inj hp
      exact Or.inr le_rfl
    next => exact Or.inl hp
  | writePid pid p dir running daemon small =>
    exact ⟨le_rfl, fun _ hw => List.mem_cons_of_mem _ hw, fun _ hc => hc, fun _ _ hp => Or.inl hp⟩
  | configure path dir =>
    exact ⟨le_rfl, fun _ hw => hw, fun _ hc => List.mem_cons_of_mem _ hc, fun _ _ hp => Or.inl hp⟩
  | die pid =>
    refine ⟨le_rfl, fun _ hw => hw, fun _ hc => hc, fun pid' p hp => ?_⟩
    simp only [Function.update_apply] at hp
    split at hp
    next => cases hp
    next => exact Or.inl hp
  | _ => exact ⟨le_rfl, fun _ hw => hw, fun _ hc => hc, fun _ _ hp => Or.inl hp⟩

/-- What matches by the config files that could be loaded matches by what the config files say. -/
theorem foregroundMatches_of_loads {loadedDir configDir : OsString → Option OsString} {parts : List OsString}
    {want : OsString} (loads : ∀ path dir, loadedDir path = some dir → configDir path = some dir)
    (h : foregroundMatches loadedDir defaultDir parts want = true) :
    foregroundMatches configDir defaultDir parts want = true := by
  unfold foregroundMatches at h ⊢
  split at h
  next => exact h
  next path _ =>
    cases hload : loadedDir path with
    | none =>
      rw [hload] at h
      cases h
    | some dir =>
      rw [hload] at h
      rw [loads path dir hload]
      exact h
  next => exact h

/-- A process that a walk over the process table finds by its arguments. -/
theorem names_of_findForeground {loadedDir : OsString → Option OsString} {entries : List ProcEntry}
    {own pid : Nat} {dir : OsString} {p : Proc} (lists : x.Lists entries)
    (loads : ∀ path dir, loadedDir path = some dir → x.configDir path = some dir)
    (found : findForeground loadedDir defaultDir own entries dir = some pid) (running : x.procs pid = some p) :
    p.Names defaultDir x.configDir dir := by
  obtain ⟨⟨pid', parts⟩, hmem, hmatch⟩ := List.exists_of_findSome?_eq_some found
  obtain ⟨entry, hentry, hproc⟩ := List.mem_filterMap.mp hmem
  dsimp only at hmatch
  split at hmatch
  next hmatches =>
    obtain rfl := Option.some.inj hmatch
    have hparsed : parsePid (lossy entry.name) = some pid' ∧ entry.cmdline ≠ [] := by
      obtain ⟨n, hn, hrest⟩ := Option.bind_eq_some_iff.mp hproc
      split at hrest
      next => cases hrest
      next hother =>
        simp only [Bool.or_eq_true, decide_eq_true_eq, not_or] at hother
        split at hrest
        next =>
          split at hrest
          next => cases hrest
          next =>
            split at hrest
            next =>
              obtain ⟨rfl, -⟩ := Prod.mk.inj (Option.some.inj hrest)
              exact ⟨hn, hother.2⟩
            next => cases hrest
        next => cases hrest
    obtain ⟨q, hq, hline⟩ := lists entry hentry pid' hparsed.1 hparsed.2
    obtain rfl := Option.some.inj (hq.symm.trans running)
    exact ⟨own, pid', entry, parts, hline.symm, hproc, foregroundMatches_of_loads loads hmatches⟩
  next => cases hmatch

theorem Machine.Sound.stop (h : x.Sound defaultDir) {before after : List StopCmd} {c : StopCmd}
    (at_ : x.stops = before ++ c :: after) : c.Sound defaultDir x :=
  h.stops c (by rw [at_]; exact List.mem_append_right _ List.mem_cons_self)

theorem Machine.Sound.writer (h : x.Sound defaultDir) (grows : x.Grows y) {dir : OsString} {text : String}
    (file : x.pidFile dir = some text) :
    ∃ pid born, text = toString pid ∧ pid ≤ u32Max ∧ y.WrittenBy dir pid born := by
  obtain ⟨pid, born, htext, hsmall, hwritten⟩ := h.files dir text file
  exact ⟨pid, born, htext, hsmall, hwritten.grow grows⟩

/-- One stop goes on, and nothing else changes. -/
theorem Machine.Sound.advance (h : x.Sound defaultDir) {before after : List StopCmd} {c c' : StopCmd}
    (at_ : x.stops = before ++ c :: after) (next : c'.Sound defaultDir x) :
    Machine.Sound defaultDir { x with stops := before ++ c' :: after } := by
  have grows : x.Grows { x with stops := before ++ c' :: after } :=
    ⟨le_rfl, fun _ hw => hw, fun _ hc => hc, fun _ _ hp => Or.inl hp⟩
  have hstops := h.stops
  rw [at_, List.forall_mem_append, List.forall_mem_cons] at hstops
  refine ⟨h.young, fun _ _ hfile => h.writer grows hfile, ?_, fun s hs => (h.signals s hs).grow grows⟩
  refine List.forall_mem_append.mpr ⟨fun c hc => (hstops.1 c hc).grow grows, ?_⟩
  exact List.forall_mem_cons.mpr ⟨next.grow grows, fun c hc => (hstops.2.2 c hc).grow grows⟩

theorem Machine.Sound.removePid (h : x.Sound defaultDir) (dir : OsString) :
    (x.removePid dir).Sound defaultDir := by
  have grows : x.Grows (x.removePid dir) := ⟨le_rfl, fun _ hw => hw, fun _ hc => hc, fun _ _ hp => Or.inl hp⟩
  refine ⟨h.young, fun dir' text hfile => ?_, fun c hc => (h.stops c hc).grow grows,
    fun s hs => (h.signals s hs).grow grows⟩
  simp only [Machine.removePid, Function.update_apply] at hfile
  split at hfile
  next => cases hfile
  next => exact h.writer grows hfile

theorem MachineStep.sound (step : MachineStep defaultDir x y) (h : x.Sound defaultDir) : y.Sound defaultDir := by
  have grows := step.grows
  have hstops : ∀ c ∈ x.stops, c.Sound defaultDir y := fun c hc => (h.stops c hc).grow grows
  have hfiles : ∀ dir text, x.pidFile dir = some text →
      ∃ pid born, text = toString pid ∧ pid ≤ u32Max ∧ y.WrittenBy dir pid born :=
    fun _ _ hfile => h.writer grows hfile
  have hsignals : ∀ s ∈ x.signals, s.Sound defaultDir y := fun s hs => (h.signals s hs).grow grows
  cases step with
  | spawn pid cmdline dataDir free small =>
    refine ⟨fun pid' p hp => ?_, hfiles, hstops, hsignals⟩
    simp only [Machine.spawn, Function.update_apply] at hp
    split at hp
    next =>
      obtain rfl := Option.some.inj hp
      exact Nat.lt_succ_self _
    next => exact (h.young pid' p hp).trans (Nat.lt_succ_self _)
  | writePid pid p dir running daemon small =>
    refine ⟨h.young, fun dir' text hfile => ?_, hstops, hsignals⟩
    simp only [Machine.writePid, Function.update_apply] at hfile
    split at hfile
    next hdir =>
      subst hdir
      refine ⟨pid, p.born, (Option.some.inj hfile).symm, small, List.mem_cons_self, h.young pid p running,
        fun q hq => ?_⟩
      obtain rfl := Option.some.inj (running.symm.trans hq)
      exact Or.inl ⟨rfl, daemon⟩
    next => exact hfiles dir' text hfile
  | removePid pid p dir running daemon => exact h.removePid dir
  | configure path dir => exact ⟨h.young, hfiles, hstops, hsignals⟩
  | die pid =>
    refine ⟨fun pid' p hp => ?_, hfiles, hstops, hsignals⟩
    simp only [Function.update_apply] at hp
    split at hp
    next => cases hp
    next => exact h.young pid' p hp
  | stop own dir explicit =>
    exact ⟨h.young, hfiles, List.forall_mem_cons.mpr ⟨trivial, hstops⟩, hsignals⟩
  | read before after own dir explicit at_ =>
    refine h.advance at_ ?_
    cases hfile : x.pidFile dir with
    | none => trivial
    | some text =>
      obtain ⟨pid, born, rfl, hsmall, hwritten⟩ := h.files dir text hfile
      rw [readPid_toString hsmall]
      exact ⟨born, hwritten⟩
  | alive before after own dir explicit pid p at_ running keepAt =>
    obtain ⟨born, hwritten⟩ := h.stop at_
    have hkeepAt : p.isKeepAt = true := by
      rw [Machine.pidAlive, running] at keepAt
      exact keepAt
    refine h.advance at_ ⟨⟨hkeepAt, ?_⟩, List.mem_cons_self, h.young pid p running, fun q hq => Or.inl ?_⟩
    · rcases hwritten.now p running with ⟨-, hdir⟩ | hlater
      · exact Or.inl hdir
      · exact Or.inr ⟨born, hlater, hwritten.written⟩
    · exact Option.some.inj (hq.symm.trans running)
  | dead before after own dir explicit pid at_ gone => exact h.advance at_ trivial
  | scanned before after own dir explicit pid p loadedDir entries at_ lists loads found running =>
    refine h.advance at_ ⟨names_of_findForeground lists loads found running, List.mem_cons_self,
      h.young pid p running, fun q hq => Or.inl ?_⟩
    exact Option.some.inj (hq.symm.trans running)
  | scannedAny before after own dir other pid p loadedDir entries later at_ loads missed found running keepAt =>
    refine h.advance at_ ⟨rfl, List.mem_cons_self, h.young pid p running, fun q hq => Or.inl ?_⟩
    exact Option.some.inj (hq.symm.trans running)
  | notRunning before after own dir explicit at_ => exact h.advance at_ trivial
  | signal before after own dir explicit route pid found target configDir at_ running =>
    obtain ⟨hfinds, hconfig, -, hnow⟩ := h.stop at_
    have hkept := hstops
    rw [at_, List.forall_mem_append, List.forall_mem_cons] at hkept
    refine ⟨h.young, hfiles, ?_, List.forall_mem_append.mpr ⟨hsignals, ?_⟩⟩
    · exact List.forall_mem_append.mpr ⟨hkept.1, List.forall_mem_cons.mpr ⟨trivial, hkept.2.2⟩⟩
    · exact List.forall_mem_singleton.mpr ⟨hfinds, hconfig, hnow target running⟩
  | refused before after own dir explicit route pid found configDir at_ => exact h.advance at_ trivial
  | stopped before after own dir explicit pid at_ gone =>
    have hended : Machine.Sound defaultDir { x with stops := before ++ ⟨own, dir, explicit, .ended⟩ :: after } :=
      h.advance at_ trivial
    exact hended.removePid dir
  | timedOut before after own dir explicit pid at_ keepAt => exact h.advance at_ trivial

/-- No stop yet, no PID file, and no config file edited. -/
structure Machine.Fresh (x : Machine) : Prop where
  young : ∀ pid p, x.procs pid = some p → p.born < x.births
  files : x.pidFile = fun _ => none
  configs : x.pastConfigs = []
  stops : x.stops = []
  signals : x.signals = []

theorem Machine.Fresh.sound (h : x.Fresh) : x.Sound defaultDir := by
  refine ⟨h.young, fun dir text hfile => ?_, ?_, ?_⟩
  · rw [h.files] at hfile
    cases hfile
  · rw [h.stops]
    exact fun _ hc => absurd hc List.not_mem_nil
  · rw [h.signals]
    exact fun _ hs => absurd hs List.not_mem_nil

end KeepAt
