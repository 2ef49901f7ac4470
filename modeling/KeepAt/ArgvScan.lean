import KeepAt.MachineInt
import KeepAt.Utf8Lossy
import Mathlib.Data.List.DropRight
import Mathlib.Data.List.Lemmas

namespace KeepAt

open Utf8

/-- The bytes of an argument or a path. -/
abbrev OsString := List UInt8

def ascii (s : String) : OsString := s.toList.map fun c => UInt8.ofNat c.toNat

/-- The loop over the arguments after the subcommand. -/
def scanFlags : List OsString → Option OsString × Option OsString → Option OsString × Option OsString
  | [], found => found
  | a :: rest, (dirArg, configArg) =>
    if a = ascii "--data-dir" then
      match rest with
      | [] => (none, configArg)
      | v :: rest => scanFlags rest (some v, configArg)
    else
      match a.dropPrefix? (ascii "--data-dir=") with
      | some v => scanFlags rest (some v, configArg)
      | none =>
        if a = ascii "--config" then
          match rest with
          | [] => (dirArg, none)
          | v :: rest => scanFlags rest (dirArg, some v)
        else
          match a.dropPrefix? (ascii "--config=") with
          | some v => scanFlags rest (dirArg, some v)
          | none => scanFlags rest (dirArg, configArg)

def dataDirAndConfigFromArgv (parts : List OsString) : Option OsString × Option OsString :=
  scanFlags (parts.drop 2) (none, none)

def isKeepAtArgv0 (argv0 : OsString) : Bool :=
  (ascii "keep-at").isSuffixOf (lossy (argv0.rtakeWhile (· ≠ 0x2F)))

/-- `parse::<u32>` of a process directory's name. -/
def parsePid (name : OsString) : Option Nat :=
  let digits := match name with
    | 0x2B :: rest => rest
    | _ => name
  if digits = [] || !digits.all (fun b => decide (0x30 ≤ b ∧ b ≤ 0x39)) then none
  else
    let pid := digits.foldl (fun n b => 10 * n + (b.toNat - 0x30)) 0
    if pid ≤ u32Max then some pid else none

/-- An entry of a proc-like directory. A command line that cannot be read is empty. -/
structure ProcEntry where
  name : OsString
  cmdline : OsString

/-- `keep_at_daemon_procs`: one entry of the walk. -/
def keepAtDaemonProc (own : Nat) (entry : ProcEntry) : Option (Nat × List OsString) := do
  let pid ← parsePid (lossy entry.name)
  if pid = own || entry.cmdline = [] then none
  else
    match (entry.cmdline.splitOn 0).map lossy with
    | argv0 :: sub :: rest =>
      if !isKeepAtArgv0 argv0 then none
      else if sub = ascii "run" || sub = ascii "start" then some (pid, argv0 :: sub :: rest)
      else none
    | _ => none

def keepAtDaemonProcs (own : Nat) (procs : List ProcEntry) : List (Nat × List OsString) :=
  procs.filterMap (keepAtDaemonProc own)

section Scan

variable (loadedDir : OsString → Option OsString) (defaultDir : OsString)

/-- What `find_foreground` decides about one process, given the data dir of the config a path holds. -/
def foregroundMatches (parts : List OsString) (want : OsString) : Bool :=
  match dataDirAndConfigFromArgv parts with
  | (some dir, _) => decide (dir = want)
  | (none, some path) => (loadedDir path).elim false fun dir => decide (lossy dir = want)
  | (none, none) => decide (want = lossy defaultDir)

def findForegroundIn (own : Nat) (procs : List ProcEntry) (want : OsString) : Option Nat :=
  (keepAtDaemonProcs own procs).findSome? fun (pid, parts) =>
    if foregroundMatches loadedDir defaultDir parts want then some pid else none

def findForeground (own : Nat) (procs : List ProcEntry) (dataDir : OsString) : Option Nat :=
  findForegroundIn loadedDir defaultDir own procs (lossy dataDir)

/-- The data dir `find_any_daemon` reports for one process. -/
def reportedDir (parts : List OsString) : Option OsString :=
  match dataDirAndConfigFromArgv parts with
  | (some dir, _) => some dir
  | (none, some path) => loadedDir path
  | (none, none) => some defaultDir

def findAnyDaemonIn (own : Nat) (procs : List ProcEntry) : Option (Nat × OsString) :=
  (keepAtDaemonProcs own procs).findSome? fun (pid, parts) =>
    (reportedDir loadedDir defaultDir parts).map (pid, ·)

end Scan

/-- The flags of `run` and `start` that take a value. -/
def valueFlags : List OsString :=
  ["config", "data-dir", "storage-location", "storage-limit", "storage", "port", "rate-limit", "api-key",
    "aggressiveness", "min-seed-margin", "scan-interval", "moderation-delay", "stall-eviction-timeout",
    "vanished-eviction-timeout", "quarantine-check-interval", "broken-piece-discard-bytes",
    "broken-piece-min-windows", "quarantine-cooldown", "quarantine-max-retries", "keyword-blocklist",
    "preserve-deleted-torrents", "catalog-collapse-percent", "max-ram", "upload-rate-limit",
    "download-rate-limit", "cfg-data-dir", "stats-interval", "debug", "log-file"].map ascii

/-- A flag on the command line, in one of its two spellings. -/
inductive Occurrence where
  | joined (flag value : OsString)
  | spaced (flag value : OsString)
  | foreground

namespace Occurrence

def args : Occurrence → List OsString
  | .joined flag value => [ascii "--" ++ flag ++ ascii "=" ++ value]
  | .spaced flag value => [ascii "--" ++ flag, value]
  | .foreground => [ascii "--foreground"]

/-- A value of its own looks like no flag. -/
def Accepted : Occurrence → Prop
  | .joined flag _ => flag ∈ valueFlags
  | .spaced flag value => flag ∈ valueFlags ∧ (value.head? ≠ some 0x2D ∨ value = [0x2D])
  | .foreground => True

def valueOf (name : OsString) : Occurrence → Option OsString
  | .joined flag value => if flag = name then some value else none
  | .spaced flag value => if flag = name then some value else none
  | .foreground => none

/-- What the scan has found after an occurrence. -/
def note (found : Option OsString × Option OsString) (o : Occurrence) : Option OsString × Option OsString :=
  ((o.valueOf (ascii "data-dir")).elim found.1 fun v => some (lossy v),
    (o.valueOf (ascii "config")).elim found.2 fun v => some (lossy v))

end Occurrence

theorem valueFlags_plain {flag : OsString} (h : flag ∈ valueFlags) : ∀ b ∈ flag, b ≤ 0x7F ∧ b ≠ 0x3D := by
  have hall : valueFlags.all (fun f => f.all fun b => decide (b ≤ 0x7F) && decide (b ≠ 0x3D)) = true := by
    decide +kernel
  intro b hb
  have hflag := List.all_eq_true.mp (List.all_eq_true.mp hall flag h) b hb
  rw [Bool.and_eq_true, decide_eq_true_eq, decide_eq_true_eq] at hflag
  exact hflag

/-- An argument that spells neither flag is passed over. -/
theorem scanFlags_other {a : OsString} (hdir : a ≠ ascii "--data-dir")
    (hdirEq : ¬ascii "--data-dir=" <+: a) (hconfig : a ≠ ascii "--config")
    (hconfigEq : ¬ascii "--config=" <+: a) (rest : List OsString) (found : Option OsString × Option OsString) :
    scanFlags (a :: rest) found = scanFlags rest found := by
  have none_of : ∀ {p : OsString}, ¬p <+: a → a.dropPrefix? p = none := by
    intro p hp
    cases hd : a.dropPrefix? p with
    | none => rfl
    | some v =>
      obtain ⟨p', happ, hbeq⟩ := List.dropPrefix?_eq_some_iff.mp hd
      rw [eq_of_beq hbeq] at happ
      exact absurd ⟨v, happ.symm⟩ hp
  obtain ⟨dirArg, configArg⟩ := found
  rw [scanFlags.eq_def]
  simp only [if_neg hdir, none_of hdirEq, if_neg hconfig, none_of hconfigEq]

theorem scanFlags_not_flag {a : OsString} (h : ¬ascii "--" <+: a) (rest : List OsString)
    (found : Option OsString × Option OsString) : scanFlags (a :: rest) found = scanFlags rest found := by
  have not_of : ∀ {p : OsString}, ascii "--" <+: p → ¬p <+: a := fun hp ha => h (hp.trans ha)
  refine scanFlags_other ?_ (not_of ?_) ?_ (not_of ?_) rest found
  · rintro rfl
    exact h (by decide)
  · decide
  · rintro rfl
    exact h (by decide)
  · decide

theorem not_dashes_of_value {value : OsString} (h : value.head? ≠ some 0x2D ∨ value = [0x2D]) :
    ¬ascii "--" <+: lossy value := by
  rintro ⟨rest, happ⟩
  have hhead := head_of_lossy (a := 0x2D) (by decide) happ.symm
  rcases h with h | rfl
  · exact h hhead
  · rw [lossy_of_ascii (by simp)] at happ
    exact absurd (congrArg List.length happ) (by simp [ascii])

/-- The text of a flag before its value. -/
theorem lossy_flag {flag : OsString} (h : flag ∈ valueFlags) (rest : OsString) :
    lossy (ascii "--" ++ flag ++ rest) = ascii "--" ++ flag ++ lossy rest := by
  refine lossy_append_of_ascii ?_ rest
  have hdashes : ∀ b ∈ ascii "--", b ≤ 0x7F := by simp [ascii]
  exact List.forall_mem_append.mpr ⟨hdashes, fun b hb => (valueFlags_plain h b hb).1⟩

/-- Where a flag's name ends is settled by the first equals sign. -/
theorem flag_eq_of_start {flag name value : OsString} (hflag : 0x3D ∉ flag) (hname : 0x3D ∉ name)
    (h : name ++ [0x3D] <+: flag ++ 0x3D :: value) : flag = name := by
  obtain ⟨rest, happ⟩ := h
  have take : ∀ {x y : OsString}, 0x3D ∉ x → (x ++ 0x3D :: y).takeWhile (· ≠ 0x3D) = x := by
    intro x y hx
    have hall : ∀ b ∈ x, (fun b : UInt8 => decide (b ≠ 0x3D)) b = true := fun b hb =>
      decide_eq_true fun heq => hx (heq ▸ hb)
    rw [List.takeWhile_append_of_pos hall, List.takeWhile_cons_of_neg (by simp), List.append_nil]
  rw [List.append_assoc, List.singleton_append] at happ
  rw [← take hflag (y := value), ← happ, take hname]

theorem scanFlags_dataDirEq (v : OsString) (rest : List OsString) (found : Option OsString × Option OsString) :
    scanFlags ((ascii "--data-dir=" ++ v) :: rest) found = scanFlags rest (some v, found.2) := by
  have hne : ascii "--data-dir=" ++ v ≠ ascii "--data-dir" := by simp [ascii]
  have hdrop : (ascii "--data-dir=" ++ v).dropPrefix? (ascii "--data-dir=") = some v :=
    List.dropPrefix?_append_of_beq v (beq_self_eq_true _)
  rw [scanFlags.eq_def]
  simp only [if_neg hne, hdrop]

theorem scanFlags_configEq (v : OsString) (rest : List OsString) (found : Option OsString × Option OsString) :
    scanFlags ((ascii "--config=" ++ v) :: rest) found = scanFlags rest (found.1, some v) := by
  have hdir : ascii "--config=" ++ v ≠ ascii "--data-dir" := by simp [ascii]
  have hdirEq : (ascii "--config=" ++ v).dropPrefix? (ascii "--data-dir=") = none := by
    simp [ascii, List.dropPrefix?]
  have hconfig : ascii "--config=" ++ v ≠ ascii "--config" := by simp [ascii]
  have hdrop : (ascii "--config=" ++ v).dropPrefix? (ascii "--config=") = some v :=
    List.dropPrefix?_append_of_beq v (beq_self_eq_true _)
  rw [scanFlags.eq_def]
  simp only [if_neg hdir, hdirEq, if_neg hconfig, hdrop]

theorem scanFlags_dataDir (v : OsString) (rest : List OsString) (found : Option OsString × Option OsString) :
    scanFlags (ascii "--data-dir" :: v :: rest) found = scanFlags rest (some v, found.2) := rfl

theorem scanFlags_config (v : OsString) (rest : List OsString) (found : Option OsString × Option OsString) :
    scanFlags (ascii "--config" :: v :: rest) found = scanFlags rest (found.1, some v) := rfl

theorem not_mem_flag {flag : OsString} (h : flag ∈ valueFlags) : 0x3D ∉ ascii "--" ++ flag := by
  rw [List.mem_append, not_or]
  exact ⟨by simp [ascii], fun hb => (valueFlags_plain h _ hb).2 rfl⟩

theorem flag_append_inj {flag name : OsString} (h : ascii "--" ++ flag = ascii "--" ++ name) : flag = name :=
  List.append_cancel_left h

/-- Any flag but the two is passed over with its value. -/
theorem scanFlags_joined_other {flag : OsString} (h : flag ∈ valueFlags) (hdir : flag ≠ ascii "data-dir")
    (hconfig : flag ≠ ascii "config") (value : OsString) (rest : List OsString)
    (found : Option OsString × Option OsString) :
    scanFlags ((ascii "--" ++ flag ++ 0x3D :: value) :: rest) found = scanFlags rest found := by
  have hplain := not_mem_flag h
  have hmem : (0x3D : UInt8) ∈ ascii "--" ++ flag ++ 0x3D :: value :=
    List.mem_append_right _ List.mem_cons_self
  have bare : ∀ {name : OsString}, 0x3D ∉ name → ascii "--" ++ flag ++ 0x3D :: value ≠ name := by
    rintro name hname rfl
    exact hname hmem
  refine scanFlags_other (bare (by simp [ascii])) ?_ (bare (by simp [ascii])) ?_ rest found
  · intro hp
    have hname : 0x3D ∉ ascii "--data-dir" := by simp [ascii]
    exact hdir (flag_append_inj (flag_eq_of_start hplain hname hp))
  · intro hp
    have hname : 0x3D ∉ ascii "--config" := by simp [ascii]
    exact hconfig (flag_append_inj (flag_eq_of_start hplain hname hp))

theorem scanFlags_spaced_other {flag : OsString} (h : flag ∈ valueFlags) (hdir : flag ≠ ascii "data-dir")
    (hconfig : flag ≠ ascii "config") (rest : List OsString) (found : Option OsString × Option OsString) :
    scanFlags ((ascii "--" ++ flag) :: rest) found = scanFlags rest found := by
  have hplain := not_mem_flag h
  have not_of : ∀ {p : OsString}, 0x3D ∈ p → ¬p <+: ascii "--" ++ flag :=
    fun hp hstart => hplain (hstart.subset hp)
  exact scanFlags_other (fun heq => hdir (flag_append_inj heq)) (not_of (by simp [ascii]))
    (fun heq => hconfig (flag_append_inj heq)) (not_of (by simp [ascii])) rest found

/-- A flag spelled with its value in one argument. -/
theorem scanFlags_joined {flag : OsString} (h : flag ∈ valueFlags) (value : OsString) (rest : List OsString)
    (found : Option OsString × Option OsString) :
    scanFlags ((Occurrence.joined flag value).args.map lossy ++ rest) found =
      scanFlags rest ((Occurrence.joined flag value).note found) := by
  have htext : lossy (ascii "--" ++ flag ++ ascii "=" ++ value) = ascii "--" ++ flag ++ 0x3D :: lossy value := by
    rw [List.append_assoc, lossy_flag h]
    exact congrArg _ (lossy_cons_ascii (by decide) value)
  show scanFlags (lossy (ascii "--" ++ flag ++ ascii "=" ++ value) :: rest) found = _
  rw [htext]
  by_cases hdir : flag = ascii "data-dir"
  · subst hdir
    exact scanFlags_dataDirEq (lossy value) rest found
  by_cases hconfig : flag = ascii "config"
  · subst hconfig
    exact scanFlags_configEq (lossy value) rest found
  rw [scanFlags_joined_other h hdir hconfig, Occurrence.note, Occurrence.valueOf, Occurrence.valueOf,
    if_neg hdir, if_neg hconfig]
  rfl

/-- A flag with its value in an argument of its own. -/
theorem scanFlags_spaced {flag value : OsString} (h : flag ∈ valueFlags)
    (hvalue : value.head? ≠ some 0x2D ∨ value = [0x2D]) (rest : List OsString)
    (found : Option OsString × Option OsString) :
    scanFlags ((Occurrence.spaced flag value).args.map lossy ++ rest) found =
      scanFlags rest ((Occurrence.spaced flag value).note found) := by
  have htext : lossy (ascii "--" ++ flag) = ascii "--" ++ flag := by
    have happ := lossy_flag h []
    rwa [List.append_nil, show lossy [] = [] from rfl, List.append_nil] at happ
  show scanFlags (lossy (ascii "--" ++ flag) :: lossy value :: rest) found = _
  rw [htext]
  by_cases hdir : flag = ascii "data-dir"
  · subst hdir
    exact scanFlags_dataDir (lossy value) rest found
  by_cases hconfig : flag = ascii "config"
  · subst hconfig
    exact scanFlags_config (lossy value) rest found
  rw [scanFlags_spaced_other h hdir hconfig, scanFlags_not_flag (not_dashes_of_value hvalue), Occurrence.note,
    Occurrence.valueOf, Occurrence.valueOf, if_neg hdir, if_neg hconfig]
  rfl

theorem scanFlags_occurrence {o : Occurrence} (h : o.Accepted) (rest : List OsString)
    (found : Option OsString × Option OsString) :
    scanFlags (o.args.map lossy ++ rest) found = scanFlags rest (o.note found) := by
  cases o with
  | joined flag value => exact scanFlags_joined h value rest found
  | spaced flag value => exact scanFlags_spaced h.1 h.2 rest found
  | foreground =>
    have htext : lossy (ascii "--foreground") = ascii "--foreground" := by decide
    show scanFlags (lossy (ascii "--foreground") :: rest) found = _
    rw [htext]
    exact scanFlags_other (by decide) (by decide) (by decide) (by decide) rest found

theorem scanFlags_occurrences {occurrences : List Occurrence} (h : ∀ o ∈ occurrences, o.Accepted)
    (rest : List OsString) (found : Option OsString × Option OsString) :
    scanFlags ((occurrences.flatMap Occurrence.args).map lossy ++ rest) found =
      scanFlags rest (occurrences.foldl Occurrence.note found) := by
  induction occurrences generalizing found with
  | nil => rfl
  | cons o occurrences ih =>
    obtain ⟨ho, hrest⟩ := List.forall_mem_cons.mp h
    rw [List.flatMap_cons, List.map_append, List.append_assoc, scanFlags_occurrence ho, ih hrest,
      List.foldl_cons]

/-- What is noted of a flag that occurs at most once is its value. -/
theorem foldl_note {occurrences : List Occurrence} {dataDir config : Option OsString}
    (hdir : occurrences.filterMap (Occurrence.valueOf (ascii "data-dir")) = dataDir.toList)
    (hconfig : occurrences.filterMap (Occurrence.valueOf (ascii "config")) = config.toList) :
    occurrences.foldl Occurrence.note (none, none) = (dataDir.map lossy, config.map lossy) := by
  have hfold : ∀ found, occurrences.foldl Occurrence.note found =
      ((occurrences.filterMap (Occurrence.valueOf (ascii "data-dir"))).foldl (fun _ v => some (lossy v)) found.1,
        (occurrences.filterMap (Occurrence.valueOf (ascii "config"))).foldl (fun _ v => some (lossy v))
          found.2) := by
    clear hdir hconfig
    induction occurrences with
    | nil => exact fun _ => rfl
    | cons o occurrences ih =>
      intro found
      rw [List.foldl_cons, ih, Occurrence.note, List.filterMap_cons, List.filterMap_cons]
      cases o.valueOf (ascii "data-dir") <;> cases o.valueOf (ascii "config") <;> rfl
  rw [hfold, hdir, hconfig]
  cases dataDir <;> cases config <;> rfl

/-- The command line the system keeps of a process: every argument and a NUL. -/
def cmdlineOf (argv : List OsString) : OsString := argv.flatMap fun a => a ++ [0]

theorem splitOn_cmdlineOf {argv : List OsString} (h : ∀ a ∈ argv, 0 ∉ a) :
    (cmdlineOf argv).splitOn 0 = argv ++ [[]] := by
  induction argv with
  | nil => rfl
  | cons a argv ih =>
    obtain ⟨ha, hrest⟩ := List.forall_mem_cons.mp h
    rw [cmdlineOf, List.flatMap_cons, List.append_assoc, List.singleton_append,
      List.splitOn_append_cons_self, List.splitOn_eq_singleton ha, ← cmdlineOf, ih hrest]
    rfl

theorem lossy_append_keepAt (dir : OsString) : lossy (dir ++ ascii "keep-at") = lossy dir ++ ascii "keep-at" := by
  have hrest : lossy (ascii "eep-at") = ascii "eep-at" := by decide
  have happ := lossy_append_ascii (a := 0x6B) (by decide) dir (ascii "eep-at")
  rw [hrest] at happ
  exact happ

theorem isKeepAtArgv0_lossy (dir : OsString) : isKeepAtArgv0 (lossy (dir ++ ascii "keep-at")) = true := by
  have hbase : (lossy dir ++ ascii "keep-at").rtakeWhile (· ≠ 0x2F) =
      (lossy dir).rtakeWhile (· ≠ 0x2F) ++ ascii "keep-at" := by
    rw [List.rtakeWhile, List.reverse_append, List.takeWhile_append_of_pos (by simp [ascii]),
      List.reverse_append, List.reverse_reverse]
    rfl
  rw [isKeepAtArgv0, lossy_append_keepAt, hbase, lossy_append_keepAt, List.isSuffixOf_iff_suffix]
  exact List.suffix_append _ _

/-- A running `keep-at run` or `keep-at start`, as its process entry shows it to another process. -/
structure ProcEntry.Runs (own : Nat) (entry : ProcEntry) (pid : Nat) (argv0 sub : OsString)
    (args : List OsString) : Prop where
  name : parsePid (lossy entry.name) = some pid
  other : pid ≠ own
  line : entry.cmdline = cmdlineOf (argv0 :: sub :: args)
  program : ∃ dir, argv0 = dir ++ ascii "keep-at"
  subcommand : sub = ascii "run" ∨ sub = ascii "start"
  noNul : ∀ a ∈ argv0 :: sub :: args, 0 ∉ a

theorem ProcEntry.Runs.candidate {own pid : Nat} {entry : ProcEntry} {argv0 sub : OsString}
    {args : List OsString} (runs : entry.Runs own pid argv0 sub args) :
    keepAtDaemonProc own entry = some (pid, lossy argv0 :: lossy sub :: (args.map lossy ++ [[]])) := by
  obtain ⟨dir, hdir⟩ := runs.program
  have hne : entry.cmdline ≠ [] := by
    rw [runs.line, cmdlineOf, List.flatMap_cons, List.append_assoc, List.singleton_append]
    exact List.append_ne_nil_of_right_ne_nil _ (List.cons_ne_nil _ _)
  have hparts : (entry.cmdline.splitOn 0).map lossy =
      lossy argv0 :: lossy sub :: (args.map lossy ++ [[]]) := by
    rw [runs.line, splitOn_cmdlineOf runs.noNul, List.map_append]
    rfl
  have hsub : lossy sub = ascii "run" ∨ lossy sub = ascii "start" := by
    rcases runs.subcommand with rfl | rfl
    · exact .inl (by decide)
    · exact .inr (by decide)
  have hkeep : isKeepAtArgv0 (lossy argv0) = true := hdir ▸ isKeepAtArgv0_lossy dir
  have hself : (decide (pid = own) || decide (entry.cmdline = [])) = false := by
    rw [decide_eq_false runs.other, decide_eq_false hne]
    rfl
  have hrun : (decide (lossy sub = ascii "run") || decide (lossy sub = ascii "start")) = true := by
    rcases hsub with h | h
    · rw [decide_eq_true h, Bool.true_or]
    · rw [decide_eq_true h, Bool.or_true]
  simp only [keepAtDaemonProc, runs.name, Option.bind_eq_bind, Option.bind_some, hself, hparts, hkeep, hrun,
    Bool.not_true, Bool.false_eq_true, if_false, if_true]

section Table

variable {loadedDir : OsString → Option OsString} {defaultDir : OsString} {own pid : Nat}
variable {entry : ProcEntry} {parts : List OsString}

/-- The process is reported with this data dir, and it is the only one for which it is matched, in any process
table in which no process before it is found. -/
def ScansAs (loadedDir : OsString → Option OsString) (defaultDir : OsString) (own : Nat) (entry : ProcEntry)
    (pid : Nat) (dir : OsString) : Prop :=
  (∀ before after, findAnyDaemonIn loadedDir defaultDir own before = none →
    findAnyDaemonIn loadedDir defaultDir own (before ++ entry :: after) = some (pid, dir)) ∧
  ∀ w, (∀ before after, findForeground loadedDir defaultDir own before w = none →
    findForeground loadedDir defaultDir own (before ++ entry :: after) w = some pid) ↔ w = dir

theorem keepAtDaemonProcs_split (h : keepAtDaemonProc own entry = some (pid, parts))
    (before after : List ProcEntry) : keepAtDaemonProcs own (before ++ entry :: after) =
      keepAtDaemonProcs own before ++ (pid, parts) :: keepAtDaemonProcs own after := by
  rw [keepAtDaemonProcs, List.filterMap_append, List.filterMap_cons, h]
  rfl

theorem findAnyDaemonIn_eq_some_iff (h : keepAtDaemonProc own entry = some (pid, parts)) {dir : OsString} :
    (∀ before after, findAnyDaemonIn loadedDir defaultDir own before = none →
      findAnyDaemonIn loadedDir defaultDir own (before ++ entry :: after) = some (pid, dir)) ↔
      reportedDir loadedDir defaultDir parts = some dir := by
  constructor
  · intro hall
    have hone := hall [] [] rfl
    rw [findAnyDaemonIn, keepAtDaemonProcs_split h] at hone
    cases hr : reportedDir loadedDir defaultDir parts with
    | none => simp [keepAtDaemonProcs, hr] at hone
    | some reported =>
      simp only [keepAtDaemonProcs, List.filterMap_nil, List.nil_append, List.findSome?_cons, hr,
        Option.map_some, Option.some.injEq, Prod.mk.injEq, true_and] at hone
      rw [hone]
  · intro hr before after hnone
    rw [findAnyDaemonIn, keepAtDaemonProcs_split h, List.findSome?_append, ← findAnyDaemonIn, hnone]
    simp only [List.findSome?_cons, hr, Option.map_some]
    rfl

theorem findForeground_eq_some_iff (h : keepAtDaemonProc own entry = some (pid, parts)) {w : OsString} :
    (∀ before after, findForeground loadedDir defaultDir own before w = none →
      findForeground loadedDir defaultDir own (before ++ entry :: after) w = some pid) ↔
      foregroundMatches loadedDir defaultDir parts (lossy w) = true := by
  constructor
  · intro hall
    have hone := hall [] [] rfl
    rw [findForeground, findForegroundIn, keepAtDaemonProcs_split h] at hone
    by_contra hm
    simp [keepAtDaemonProcs, hm] at hone
  · intro hm before after hnone
    rw [findForeground, findForegroundIn] at hnone
    rw [findForeground, findForegroundIn, keepAtDaemonProcs_split h, List.findSome?_append, hnone]
    simp only [List.findSome?_cons, hm, if_true]
    rfl

theorem scansAs_iff (h : keepAtDaemonProc own entry = some (pid, parts)) {dir : OsString} :
    ScansAs loadedDir defaultDir own entry pid dir ↔ reportedDir loadedDir defaultDir parts = some dir ∧
      ∀ w, foregroundMatches loadedDir defaultDir parts (lossy w) = true ↔ w = dir := by
  rw [ScansAs, findAnyDaemonIn_eq_some_iff h]
  simp only [findForeground_eq_some_iff h]

end Table

end KeepAt
