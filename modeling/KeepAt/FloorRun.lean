import KeepAt.NetStats

namespace KeepAt

def countPending (s : Settings) (held : List String) (items : List Item) : Nat :=
  (items.filter fun item => prefilterReason s held item = .pending).length

/-- The task of one evaluation walk. `pending` is what its workers have yet to evaluate, and `seederFloor`
what its progress saver writes back, once it is loaded. -/
structure Evaluation where
  scanStartedAt : Time
  totalCandidates : Nat
  pending : List Item
  processed : Nat
  seederFloor : Option Nat
  finished : Bool

def Evaluation.progress (t : Evaluation) (seederFloor : Nat) : Snapshot :=
  { scanStartedAt := some t.scanStartedAt, totalCandidates := t.totalCandidates,
    processedCandidates := t.processed, seederFloor }

/-- One step of the task or of its workers, on the snapshot file, and the entry it sends. The workers are
joined, and with them the progress saver, when every item is evaluated or at shutdown. -/
inductive EvaluationStep (s : Settings) (shutdown : Bool) (file : Option Snapshot) (t : Evaluation) :
    Option Snapshot → Evaluation → Option Evaluated → Prop
  | load (unloaded : t.seederFloor = none) :
      EvaluationStep s shutdown file t file { t with seederFloor := some (loadSnapshot file).seederFloor } none
  | save (floor : Nat) (saved : Bool) (loaded : t.seederFloor = some floor) (running : t.finished = false) :
      EvaluationStep s shutdown file t (saveSnapshot file (t.progress floor) saved) t none
  | evaluate (before after : List Item) (item : Item) (cache : TorrentCache) (env : EvaluateEnv)
      (loaded : t.seederFloor.isSome) (pending : t.pending = before ++ item :: after) :
      EvaluationStep s shutdown file t file { t with pending := before ++ after, processed := t.processed + 1 }
        (evaluateOneItem s cache item env).2
  | finish (loaded : t.seederFloor.isSome) (walked : t.pending = [] ∨ shutdown = true) :
      EvaluationStep s shutdown file t file { t with finished := true } none

/-- A scan whose evaluation has been dispatched. `evaluated` lists every entry its workers have sent. -/
structure Walk where
  scanStartedAt : Time
  totalCandidates : Nat
  seederFloor : Nat
  evaluation : Evaluation
  channel : List Evaluated
  floorAccum : List Nat
  processed : Nat
  evalDone : Bool
  evaluated : List Evaluated

/-- The entry of the channel that is taken next, by the receive arm or by the drain loop. -/
def Walk.take (w : Walk) (ev : Evaluated) (rest : List Evaluated) : Walk :=
  { w with channel := rest, floorAccum := w.floorAccum ++ [ev.seeders], processed := w.processed + 1 }

def Walk.send (w : Walk) (t : Evaluation) (sent : Option Evaluated) : Walk :=
  { w with evaluation := t, channel := w.channel ++ sent.toList, evaluated := w.evaluated ++ sent.toList }

/-- A scan that evaluated nothing keeps the floor that it started from. -/
def Walk.floor (w : Walk) : Nat :=
  if w.floorAccum.isEmpty then w.seederFloor else KeepAt.seederFloor w.floorAccum

inductive ScanPhase where
  | idle
  | starting (scanStartedAt : Time) (seederFloor : Nat)
  | refreshed (scanStartedAt : Time) (seederFloor : Nat)
  | walking (w : Walk)
  | finishing (w : Walk)

/-- The node as far as it writes `network-stats.json`. `detached` are the evaluations of scans that were
interrupted, and `completed` the scans whose completion snapshot was saved, the last one at the end. -/
structure FloorNode where
  file : Option Snapshot
  shutdown : Bool
  phase : ScanPhase
  detached : List Evaluation
  completed : List Walk

namespace FloorNode

variable (x : FloorNode)

def begin (now : Time) (saved : Bool) : FloorNode :=
  let seederFloor := (loadSnapshot x.file).seederFloor
  { x with
    file := saveSnapshot x.file { scanStartedAt := some now, seederFloor } saved
    phase := if saved then .starting now seederFloor else .idle }

/-- The second start snapshot, and the evaluation of the pending items. -/
def dispatch (s : Settings) (now : Time) (seederFloor : Nat) (held : List String) (items : List Item)
    (saved : Bool) : FloorNode :=
  let totalCandidates := countPending s held items
  { x with
    file := saveSnapshot x.file { scanStartedAt := some now, totalCandidates, seederFloor } saved
    phase :=
      if saved then .walking
        { scanStartedAt := now, totalCandidates, seederFloor
          evaluation :=
            { scanStartedAt := now, totalCandidates
              pending := items.filter fun item => prefilterReason s held item = .pending
              processed := 0, seederFloor := none, finished := false }
          channel := [], floorAccum := [], processed := 0, evalDone := false, evaluated := [] }
      else .idle }

/-- The scan is given up. Its evaluation goes on without a receiver. -/
def interrupt : FloorNode :=
  match x.phase with
  | .walking w => { x with phase := .idle, detached := w.evaluation :: x.detached }
  | _ => { x with phase := .idle }

def receive (w : Walk) (ev : Evaluated) (rest : List Evaluated) : FloorNode :=
  if x.shutdown then x.interrupt else { x with phase := .walking (w.take ev rest) }

def complete (w : Walk) (now : Time) (saved : Bool) : FloorNode :=
  { x with
    file := saveSnapshot x.file
      { scanStartedAt := some w.scanStartedAt, scanCompletedAt := some now,
        totalCandidates := w.totalCandidates, processedCandidates := w.processed, seederFloor := w.floor } saved
    phase := .idle
    completed := if saved then x.completed ++ [w] else x.completed }

/-- A new process finds the file and nothing else. -/
def restart : FloorNode := { x with shutdown := false, phase := .idle, detached := [] }

end FloorNode

inductive FloorStep (s : Settings) (x : FloorNode) : FloorNode → Prop
  | begin (now : Time) (saved : Bool) (idle : x.phase = .idle) : FloorStep s x (x.begin now saved)
  | fail (now : Time) (floor : Nat) (starting : x.phase = .starting now floor) :
      FloorStep s x { x with phase := .idle }
  | refresh (now : Time) (floor : Nat) (starting : x.phase = .starting now floor) :
      FloorStep s x { x with phase := if x.shutdown then .idle else .refreshed now floor }
  | dispatch (now : Time) (floor : Nat) (held : List String) (items : List Item) (saved : Bool)
      (refreshed : x.phase = .refreshed now floor) :
      FloorStep s x (x.dispatch s now floor held items saved)
  | evaluation (w : Walk) (file : Option Snapshot) (t : Evaluation) (sent : Option Evaluated)
      (walking : x.phase = .walking w)
      (step : EvaluationStep s x.shutdown x.file w.evaluation file t sent) :
      FloorStep s x { x with file, phase := .walking (w.send t sent) }
  | detached (before after : List Evaluation) (t t' : Evaluation) (file : Option Snapshot)
      (sent : Option Evaluated) (running : x.detached = before ++ t :: after)
      (step : EvaluationStep s x.shutdown x.file t file t' sent) :
      FloorStep s x { x with file, detached := before ++ t' :: after }
  | receive (w : Walk) (ev : Evaluated) (rest : List Evaluated) (walking : x.phase = .walking w)
      (open_ : w.evalDone = false) (arrived : w.channel = ev :: rest) : FloorStep s x (x.receive w ev rest)
  | join (w : Walk) (walking : x.phase = .walking w) (finished : w.evaluation.finished = true) :
      FloorStep s x { x with phase := .walking { w with evalDone := true } }
  | drain (w : Walk) (ev : Evaluated) (rest : List Evaluated) (walking : x.phase = .walking w)
      (done : w.evalDone = true) (arrived : w.channel = ev :: rest) :
      FloorStep s x { x with phase := .walking (w.take ev rest) }
  | leave (w : Walk) (walking : x.phase = .walking w) (done : w.evalDone = true) (drained : w.channel = []) :
      FloorStep s x { x with phase := if x.shutdown then .idle else .finishing w }
  | complete (w : Walk) (now : Time) (saved : Bool) (finishing : x.phase = .finishing w) :
      FloorStep s x (x.complete w now saved)
  | interrupt (stopping : x.shutdown = true) : FloorStep s x x.interrupt
  | signal : FloorStep s x { x with shutdown := true }
  | restart : FloorStep s x x.restart

/-- A process that has just started. -/
structure FloorNode.Booted (x : FloorNode) : Prop where
  idle : x.phase = .idle
  detached : x.detached = []
  completed : x.completed = []

end KeepAt
