import KeepAt.PlacementCases

namespace KeepAt

structure StartEnv where
  canonicalize : PathBuf → Option PathBuf
  saved : Bool
  session : List String
  sessionOk : String → Bool

def resumeHeld (s : Settings) (sessionOk : String → Bool) : Engine → List Torrent → Engine
  | e, [] => e
  | e, h :: rest =>
    match addTorrentBytes s e.session e.torrentCache h.infoHash (sessionOk h.infoHash) with
    | none => resumeHeld s sessionOk e rest
    | some session => resumeHeld s sessionOk { e with session } rest

/-- The engine of a new process over the files the last one left. -/
def Engine.start (s : Settings) (stored : Stored) (torrentCache : TorrentCache) (history : List Event)
    (env : StartEnv) : Engine :=
  let loaded : State := ⟨stored.torrents, stored.quarantined, stored⟩
  let state := (loaded.rekeyStorageLocations env.canonicalize (s.storage.map StorageLocation.path)
    env.saved).1
  resumeHeld s env.sessionOk
    { state, session := env.session, torrentCache, history, live := none, detector := .empty,
      lastCatalog := none }
    state.all

theorem resumeHeld_state (s : Settings) (sessionOk : String → Bool) (e : Engine) (ts : List Torrent) :
    (resumeHeld s sessionOk e ts).state = e.state := by
  induction ts generalizing e with
  | nil => rfl
  | cons t ts ih =>
    rw [resumeHeld]
    split <;> rw [ih]

def configuredPaths (s : Settings) : List PathBuf := s.storage.map StorageLocation.path

def Event.addLocation : Event → Option PathBuf
  | .add _ _ _ _ _ location _ _ _ _ _ _ => some location
  | .remove _ _ _ _ _ _ _ _ => none

def addedLocations (before after : Engine) : List PathBuf :=
  (after.history.drop before.history.length).filterMap Event.addLocation

/-- A node over its restarts. `placed` lists every add so far: where it went, and the locations
that were configured then. -/
structure Node where
  settings : Settings
  engine : Engine
  heldCount : Nat
  placed : List (PathBuf × List PathBuf)

namespace Node

def act (x : Node) (c : Candidate) (seederFloor : Nat) (env : ActEnv) : Node :=
  let r := actOnCandidate x.settings x.engine c x.heldCount seederFloor env
  { x with
    engine := r.1
    heldCount := r.2
    placed := x.placed ++ (addedLocations x.engine r.1).map (·, configuredPaths x.settings) }

def recount (x : Node) : Node := { x with heldCount := x.engine.state.torrents.size }

def restart (x : Node) (settings : Settings) (env : StartEnv) : Node :=
  { x with
    settings
    engine := Engine.start settings x.engine.state.file x.engine.torrentCache x.engine.history env }

end Node

/-- A step of a node. `Permits` says which calls on candidates a run may contain. -/
inductive NodeStep (Permits : Node → Candidate → Nat → ActEnv → Prop) : Node → Node → Prop
  | act (x : Node) (c : Candidate) (seederFloor : Nat) (env : ActEnv)
      (permitted : Permits x c seederFloor env) : NodeStep Permits x (x.act c seederFloor env)
  | remove (x : Node) (hex : String) (env : RemoveEnv) :
      NodeStep Permits x { x with engine := (x.engine.dropHeld hex env).1 }
  | recount (x : Node) : NodeStep Permits x x.recount
  | rehash (x : Node) (ts : List Torrent) (h : ts.Perm x.engine.state.torrents.values) :
      NodeStep Permits x { x with engine := { x.engine with state := x.engine.state.rehash ts h } }
  | restart (x : Node) (settings : Settings) (env : StartEnv) : NodeStep Permits x (x.restart settings env)

end KeepAt
