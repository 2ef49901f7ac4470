import KeepAt.ArgvScan
import KeepAt.Runs
import KeepAt.SizeText

namespace KeepAt

open Utf8

/-- A process. `born` counts the processes before it, and `dataDir` is where it runs if it is a daemon. -/
structure Proc where
  born : Nat
  cmdline : OsString
  dataDir : Option OsString

def withoutPlus : List Char → List Char
  | '+' :: rest => rest
  | s => s

def parseU32 (s : List Char) : Option Nat :=
  let digits := withoutPlus s
  if digits = [] ∨ ¬digits.all Char.isDigit then none
  else
    let n := Nat.ofDigitChars 10 digits 0
    if n ≤ u32Max then some n else none

/-- `read_pid`: no answer when the file is missing or is not a number. -/
def readPid (file : Option String) : Option Nat := file.bind fun text => parseU32 (trim text.toList)

def Proc.isKeepAt (p : Proc) : Bool := p.cmdline ≠ [] && isKeepAtArgv0 ((p.cmdline.splitOn 0).headD [])

/-- How a stop came by the process it signals: by the PID file, by its arguments, or as any daemon at all. -/
inductive StopRoute where
  | pidFile
  | argv
  | anyDaemon
  deriving DecidableEq

inductive StopStage where
  | asked
  | checking (pid : Nat)
  | scanning
  | signalling (route : StopRoute) (pid : Nat) (found : Proc) (configDir : OsString → Option OsString)
  | waiting (pid : Nat)
  | ended

/-- A `keep-at stop`. It is explicit when a data dir or a config was named. -/
structure StopCmd where
  own : Nat
  dir : OsString
  explicit : Bool
  stage : StopStage

/-- A delivered SIGTERM: to `target`, on behalf of a stop that had found `found` under the same pid, when the
config files said `configDir`. -/
structure StopSignal where
  dir : OsString
  explicit : Bool
  route : StopRoute
  pid : Nat
  found : Proc
  configDir : OsString → Option OsString
  target : Proc

/-- The processes of a machine and the PID files of its data dirs. `configDir` is the data dir that the config file
of a path names, if it can be loaded. `writes` lists who wrote which PID file: the data dir, the pid and the birth
of the writer. -/
structure Machine where
  procs : Nat → Option Proc
  births : Nat
  pidFile : OsString → Option String
  configDir : OsString → Option OsString
  pastConfigs : List (OsString → Option OsString)
  writes : List (OsString × Nat × Nat)
  stops : List StopCmd
  signals : List StopSignal

def Machine.pidAlive (x : Machine) (pid : Nat) : Bool := (x.procs pid).elim false Proc.isKeepAt

/-- What a walk over the process table may see: processes that are there, not all of them maybe. -/
def Machine.Lists (x : Machine) (entries : List ProcEntry) : Prop :=
  ∀ entry ∈ entries, ∀ pid, parsePid (lossy entry.name) = some pid → entry.cmdline ≠ [] →
    ∃ p, x.procs pid = some p ∧ p.cmdline = entry.cmdline

namespace Machine

/-- What the config files say, and what they have said. -/
def configs (x : Machine) : List (OsString → Option OsString) := x.configDir :: x.pastConfigs

def spawn (x : Machine) (pid : Nat) (cmdline : OsString) (dataDir : Option OsString) : Machine :=
  { x with procs := Function.update x.procs pid (some ⟨x.births, cmdline, dataDir⟩), births := x.births + 1 }

def writePid (x : Machine) (dir : OsString) (pid born : Nat) : Machine :=
  { x with pidFile := Function.update x.pidFile dir (some (toString pid)), writes := (dir, pid, born) :: x.writes }

def removePid (x : Machine) (dir : OsString) : Machine :=
  { x with pidFile := Function.update x.pidFile dir none }

end Machine

section Steps

variable (defaultDir : OsString)

/-- A step of the machine: processes come and go, a config file is edited, a daemon writes or removes the PID file
of its data dir, and stops go on, each on its own. A walk may fail to load a config file. -/
inductive MachineStep (x : Machine) : Machine → Prop
  | spawn (pid : Nat) (cmdline : OsString) (dataDir : Option OsString) (free : x.procs pid = none)
      (small : pid ≤ u32Max) : MachineStep x (x.spawn pid cmdline dataDir)
  | writePid (pid : Nat) (p : Proc) (dir : OsString) (running : x.procs pid = some p)
      (daemon : p.dataDir = some dir) (small : pid ≤ u32Max) : MachineStep x (x.writePid dir pid p.born)
  | removePid (pid : Nat) (p : Proc) (dir : OsString) (running : x.procs pid = some p)
      (daemon : p.dataDir = some dir) : MachineStep x (x.removePid dir)
  | configure (path : OsString) (dir : Option OsString) :
      MachineStep x
        { x with
          configDir := Function.update x.configDir path dir
          pastConfigs := x.configDir :: x.pastConfigs }
  | die (pid : Nat) : MachineStep x { x with procs := Function.update x.procs pid none }
  | stop (own : Nat) (dir : OsString) (explicit : Bool) :
      MachineStep x { x with stops := ⟨own, dir, explicit, .asked⟩ :: x.stops }
  | read (before after : List StopCmd) (own : Nat) (dir : OsString) (explicit : Bool)
      (at_ : x.stops = before ++ ⟨own, dir, explicit, .asked⟩ :: after) :
      MachineStep x
        { x with
          stops := before ++
            ⟨own, dir, explicit, (readPid (x.pidFile dir)).elim .scanning .checking⟩ :: after }
  | alive (before after : List StopCmd) (own : Nat) (dir : OsString) (explicit : Bool) (pid : Nat) (p : Proc)
      (at_ : x.stops = before ++ ⟨own, dir, explicit, .checking pid⟩ :: after) (running : x.procs pid = some p)
      (keepAt : x.pidAlive pid = true) :
      MachineStep x
        { x with stops := before ++ ⟨own, dir, explicit, .signalling .pidFile pid p x.configDir⟩ :: after }
  | dead (before after : List StopCmd) (own : Nat) (dir : OsString) (explicit : Bool) (pid : Nat)
      (at_ : x.stops = before ++ ⟨own, dir, explicit, .checking pid⟩ :: after) (gone : x.pidAlive pid = false) :
      MachineStep x { x with stops := before ++ ⟨own, dir, explicit, .scanning⟩ :: after }
  | scanned (before after : List StopCmd) (own : Nat) (dir : OsString) (explicit : Bool) (pid : Nat) (p : Proc)
      (loadedDir : OsString → Option OsString) (entries : List ProcEntry)
      (at_ : x.stops = before ++ ⟨own, dir, explicit, .scanning⟩ :: after) (lists : x.Lists entries)
      (loads : ∀ path dir, loadedDir path = some dir → x.configDir path = some dir)
      (found : findForeground loadedDir defaultDir own entries dir = some pid) (running : x.procs pid = some p) :
      MachineStep x { x with stops := before ++ ⟨own, dir, explicit, .signalling .argv pid p x.configDir⟩ :: after }
  | scannedAny (before after : List StopCmd) (own : Nat) (dir other : OsString) (pid : Nat) (p : Proc)
      (loadedDir : OsString → Option OsString) (entries later : List ProcEntry)
      (at_ : x.stops = before ++ ⟨own, dir, false, .scanning⟩ :: after)
      (loads : ∀ path dir, loadedDir path = some dir → x.configDir path = some dir)
      (missed : findForeground loadedDir defaultDir own entries dir = none)
      (found : findAnyDaemonIn loadedDir defaultDir own later = some (pid, other))
      (running : x.procs pid = some p) (keepAt : x.pidAlive pid = true) :
      MachineStep x
        { x with stops := before ++ ⟨own, dir, false, .signalling .anyDaemon pid p x.configDir⟩ :: after }
  | notRunning (before after : List StopCmd) (own : Nat) (dir : OsString) (explicit : Bool)
      (at_ : x.stops = before ++ ⟨own, dir, explicit, .scanning⟩ :: after) :
      MachineStep x { x with stops := before ++ ⟨own, dir, explicit, .ended⟩ :: after }
  | signal (before after : List StopCmd) (own : Nat) (dir : OsString) (explicit : Bool) (route : StopRoute)
      (pid : Nat) (found target : Proc) (configDir : OsString → Option OsString)
      (at_ : x.stops = before ++ ⟨own, dir, explicit, .signalling route pid found configDir⟩ :: after)
      (running : x.procs pid = some target) :
      MachineStep x
        { x with
          stops := before ++ ⟨own, dir, explicit, .waiting pid⟩ :: after
          signals := x.signals ++ [⟨dir, explicit, route, pid, found, configDir, target⟩] }
  | refused (before after : List StopCmd) (own : Nat) (dir : OsString) (explicit : Bool) (route : StopRoute)
      (pid : Nat) (found : Proc) (configDir : OsString → Option OsString)
      (at_ : x.stops = before ++ ⟨own, dir, explicit, .signalling route pid found configDir⟩ :: after) :
      MachineStep x { x with stops := before ++ ⟨own, dir, explicit, .ended⟩ :: after }
  | stopped (before after : List StopCmd) (own : Nat) (dir : OsString) (explicit : Bool) (pid : Nat)
      (at_ : x.stops = before ++ ⟨own, dir, explicit, .waiting pid⟩ :: after) (gone : x.pidAlive pid = false) :
      MachineStep x
        (Machine.removePid { x with stops := before ++ ⟨own, dir, explicit, .ended⟩ :: after } dir)
  | timedOut (before after : List StopCmd) (own : Nat) (dir : OsString) (explicit : Bool) (pid : Nat)
      (at_ : x.stops = before ++ ⟨own, dir, explicit, .waiting pid⟩ :: after) (keepAt : x.pidAlive pid = true) :
      MachineStep x { x with stops := before ++ ⟨own, dir, explicit, .ended⟩ :: after }

end Steps

end KeepAt
