import KeepAt.PlacementCases
import KeepAt.Runs
import KeepAt.Watchdog

namespace KeepAt

/-- What a process does to its engine, in the units that scans and watchdog passes are put together
from. `readAt` says when a refresh reads each torrent. -/
inductive Action where
  | reconcile (catalog : List String) (env : ReconcileEnv)
  | refresh (env : RefreshEnv) (readAt : String → Time)
  | evictStalled (catalog : List String) (env : StallEnv)
  | readMetadata (hex : String) (env : FetchEnv)
  | act (c : Candidate) (heldCount seederFloor : Nat) (env : ActEnv)
  | bookkeep (env : BookkeepEnv)
  | rememberCatalog (catalog : List String)
  | rearm (hex : String) (q : Quarantine) (saved : Bool)
  | enforceTrip (now : Time) (env : String → EvictEnv) (trip : String × Trip)
  | pushLive

/-- What an outside observer of a process notes down. -/
inductive Record where
  | confirmed (hex : String) (time : Time)
  | added (hex : String) (time : Time)
  | observed (hex : String) (time : Time) (bytes : Nat)
  deriving DecidableEq

def Record.time : Record → Time
  | .confirmed _ time => time
  | .added _ time => time
  | .observed _ time _ => time

def stallReads (timeout : Duration) (catalog : List String) (env : StallEnv) (t : Torrent) : Bool :=
  decide (t.infoHash ∈ catalog) && (stalledFor t env.now).any (fun since => timeout ≤ since) &&
    !(env.find t.infoHash).any SessionStats.initializing

/-- The hash an event adds, and the last stamp of the entry it goes with. -/
def Event.addStamp (env : ActEnv) : Event → Option (String × Time)
  | .add _ hash _ _ _ location cause _ _ _ _ _ =>
    some (hash, (if cause = .fill then env.fill else env.swap.place location).confirmedAt)
  | .remove _ _ _ _ _ _ _ _ => none

namespace Action

def apply (s : Settings) (e : Engine) : Action → Engine
  | reconcile catalog env => KeepAt.reconcile s e catalog env
  | refresh env _ => refreshHeldSeederCounts s e env
  | evictStalled catalog env => evictStalledTorrents s e catalog env
  | readMetadata hex env => { e with torrentCache := (fetchMetadata s e.torrentCache hex env).1 }
  | act c heldCount seederFloor env => (actOnCandidate s e c heldCount seederFloor env).1
  | bookkeep env => (KeepAt.bookkeep s e env).1
  | rememberCatalog catalog => { e with lastCatalog := some catalog }
  | rearm hex q saved => { e with state := (e.state.quarantinePut hex q saved).1 }
  | enforceTrip now env trip => KeepAt.enforceTrip s now env e trip
  | pushLive => e.pushLive

def records (s : Settings) (e : Engine) : Action → List Record
  | reconcile catalog env =>
    let survivors := (vanishedPass s { e with lastCatalog := some catalog } catalog env.vanished).state.all
    (survivors.filter fun t => t.infoHash ∈ catalog).map fun t =>
      .confirmed t.infoHash env.confirmedAt
  | refresh env readAt =>
    (refreshWalk s env e.torrentCache (e.state.all.take env.walked)).2.map fun r =>
      .observed r.infoHash (readAt r.infoHash) r.progress
  | evictStalled catalog env =>
    if s.scan.stallEvictionTimeout = 0 then []
    else (e.state.all.filter (stallReads s.scan.stallEvictionTimeout catalog env)).map fun t =>
      .observed t.infoHash env.now (progressBytes env.find env.dirSize t)
  | act c heldCount seederFloor env =>
    let added := (actOnCandidate s e c heldCount seederFloor env).1.history.drop e.history.length
    (added.filterMap (Event.addStamp env)).map fun p => .added p.1 p.2
  | bookkeep env =>
    e.session.filterMap fun hex => (liveCounters (env.stats hex)).map fun p => .observed hex env.now p.1
  | _ => []

end Action

def PlaceEnv.Clocked (lo hi : Time) (env : PlaceEnv) : Prop :=
  lo ≤ env.addedAt ∧ env.addedAt ≤ env.progressAt ∧ env.progressAt ≤ env.confirmedAt ∧
    env.confirmedAt ≤ hi

def ActEnv.Clocked (lo hi : Time) (env : ActEnv) : Prop :=
  lo ≤ hi ∧ env.fill.Clocked lo hi ∧ ∀ location, (env.swap.place location).Clocked lo hi

/-- The readings an action takes of a nondecreasing clock that shows `lo` before it and `hi` after. -/
def Action.Clocked (lo hi : Time) : Action → Prop
  | .reconcile _ env => lo ≤ env.vanished.now ∧ env.vanished.now ≤ env.confirmedAt ∧ env.confirmedAt ≤ hi
  | .refresh env readAt =>
    lo ≤ hi ∧ ∀ hex, lo ≤ readAt hex ∧ readAt hex ≤ env.stampedAt hex ∧ env.stampedAt hex ≤ hi
  | .evictStalled _ env => lo ≤ env.now ∧ env.now ≤ hi
  | .act _ _ _ env => env.Clocked lo hi
  | .bookkeep env => lo ≤ env.now ∧ env.now ≤ hi
  | .enforceTrip now _ _ => lo ≤ now ∧ now ≤ hi
  | _ => lo ≤ hi

/-- A process with the clock and the notes taken so far. -/
structure Process where
  engine : Engine
  clock : Time
  log : List Record

def Process.after (s : Settings) (x : Process) (a : Action) (clock : Time) : Process :=
  { engine := a.apply s x.engine, clock, log := x.log ++ a.records s x.engine }

/-- A step of a process. `Permits` says which actions a run may contain. -/
inductive ProcessStep (s : Settings) (Permits : Process → Action → Prop) : Process → Process → Prop
  | action (x : Process) (a : Action) (clock : Time) (clocked : a.Clocked x.clock clock)
      (permitted : Permits x a) : ProcessStep s Permits x (x.after s a clock)
  | rehash (x : Process) (ts : List Torrent) (h : ts.Perm x.engine.state.torrents.values) :
      ProcessStep s Permits x
        { x with engine := { x.engine with state := x.engine.state.rehash ts h } }

def AnyAction (_ : Process) (_ : Action) : Prop := True

theorem Action.Clocked.le {lo hi : Time} {a : Action} (h : a.Clocked lo hi) : lo ≤ hi := by
  cases a with
  | reconcile => exact h.1.trans (h.2.1.trans h.2.2)
  | refresh => exact h.1
  | evictStalled => exact h.1.trans h.2
  | act => exact h.1
  | bookkeep => exact h.1.trans h.2
  | enforceTrip => exact h.1.trans h.2
  | readMetadata => exact h
  | rememberCatalog => exact h
  | rearm => exact h
  | pushLive => exact h

theorem Admitted.addStamp {s : Settings} {e after : Engine} {c : Candidate} {env : ActEnv}
    {md : TorrentMeta} {location : PathBuf} {place : PlaceEnv} {displaced : List Torrent}
    (h : Admitted s e c env after md location place displaced) :
    (after.history.drop e.history.length).filterMap (Event.addStamp env) =
      [(hexEncode c.infoHash, place.confirmedAt)] := by
  obtain ⟨seederFloor, decision, hrec⟩ := h.recorded
  rw [hrec, List.drop_left, List.filterMap_cons]
  simp only [addEvent, Event.addStamp, List.filterMap_nil, List.isEmpty_map, h.chosen]
  cases displaced.isEmpty <;> rfl

theorem PlaceEnv.clocked_of_chosen {lo hi : Time} {env : ActEnv} (h : env.Clocked lo hi)
    (displaced : List Torrent) (location : PathBuf) :
    (if displaced.isEmpty then env.fill else env.swap.place location).Clocked lo hi := by
  split
  · exact h.2.1
  · exact h.2.2 location

/-- What an engine may become next: by an action, or as another iteration order of its map. -/
inductive EngineStep (s : Settings) : Engine → Engine → Prop
  | action (e : Engine) (a : Action) : EngineStep s e (a.apply s e)
  | rehash (e : Engine) (ts : List Torrent) (h : ts.Perm e.state.torrents.values) :
      EngineStep s e { e with state := e.state.rehash ts h }

theorem ProcessStep.engine {s : Settings} {Permits : Process → Action → Prop} {x y : Process}
    (step : ProcessStep s Permits x y) : EngineStep s x.engine y.engine := by
  cases step with
  | action a clock clocked permitted => exact .action x.engine a
  | rehash ts h => exact .rehash x.engine ts h

theorem foldl_steps {s : Settings} {α β : Type} (f : Engine × β → α → Engine × β)
    (h : ∀ acc x, Relation.ReflTransGen (EngineStep s) acc.1 (f acc x).1) (xs : List α)
    (acc : Engine × β) : Relation.ReflTransGen (EngineStep s) acc.1 (xs.foldl f acc).1 := by
  induction xs generalizing acc with
  | nil => exact .refl
  | cons x xs ih => exact (h acc x).trans (ih (f acc x))

theorem reprobeOne_steps (s : Settings) (listed : List String) (seederFloor : Nat) (now : Time)
    (env : String → ProbeEnv) (acc : Engine × Nat) (entry : String × Quarantine) :
    Relation.ReflTransGen (EngineStep s) acc.1 (reprobeOne s listed seederFloor now env acc entry).1 := by
  obtain ⟨hex, q⟩ := entry
  simp only [reprobeOne]
  split
  next => exact .refl
  next =>
    have read := EngineStep.action (s := s) acc.1 (.readMetadata hex (env hex).fetch)
    split
    next => exact .single read
    next md swarm _ =>
      let c := probeCandidate ((decodeHash hex).getD zeroHash) q.title md swarm seederFloor
      let rearmed := { q with cooldownUntil := rearmUntil s.scan now }
      exact ((Relation.ReflTransGen.single read).tail
        (.action _ (.act c acc.2 seederFloor (env hex).act))).tail
        (.action _ (.rearm hex rearmed (env hex).rearmSaved))

theorem quarantineReprobe_steps (s : Settings) (e : Engine) (env : ReprobeEnv) :
    Relation.ReflTransGen (EngineStep s) e (quarantineReprobe s e env) := by
  simp only [quarantineReprobe]
  split
  next => exact .refl
  next =>
    split
    next => exact .refl
    next listed _ =>
      have probes := foldl_steps (reprobeOne s listed env.seederFloor env.now env.probe)
        (reprobeOne_steps s listed env.seederFloor env.now env.probe) (lapsed e.state env.now)
        ({ e with lastCatalog := some listed }, e.state.torrents.size)
      exact .head (.action e (.rememberCatalog listed)) probes

theorem enforceTrips_steps (s : Settings) (now : Time) (env : String → EvictEnv)
    (trips : List (String × Trip)) (e : Engine) :
    Relation.ReflTransGen (EngineStep s) e (trips.foldl (enforceTrip s now env) e) := by
  induction trips generalizing e with
  | nil => exact .refl
  | cons trip trips ih => exact .head (.action e (.enforceTrip now env trip)) (ih _)

/-- A watchdog pass is a run of actions. -/
theorem quarantinePass_steps (s : Settings) (e : Engine) (env : PassEnv) :
    Relation.ReflTransGen (EngineStep s) e (quarantinePass s e env) := by
  simp only [quarantinePass]
  split
  next => exact .refl
  next =>
    have booked := Relation.ReflTransGen.single (EngineStep.action (s := s) e (.bookkeep env.bookkeep))
    have probed := booked.trans (quarantineReprobe_steps s (bookkeep s e env.bookkeep).1 env.reprobe)
    split
    next =>
      split
      next => exact probed.tail (.action _ .pushLive)
      next => exact probed
    next =>
      exact (probed.trans (enforceTrips_steps s env.tripNow env.trip _ _)).tail (.action _ .pushLive)

end KeepAt
