import KeepAt.Engine

namespace KeepAt

structure PlaceEnv where
  mkdirOk : Bool
  sessionOk : Bool
  addedAt : Time
  progressAt : Time
  confirmedAt : Time
  saved : Bool
  recordedAt : Time

structure SwapEnv where
  deviceFree : PathBuf → Option Nat
  dirSize : Torrent → Nat
  place : PathBuf → PlaceEnv
  remove : String → RemoveEnv

structure ActEnv where
  now : Time
  fetch : FetchEnv
  fdHeadroom : Option Nat
  roll : F64
  locationRoll : F64
  deviceFree : PathBuf → Option Nat
  fill : PlaceEnv
  swap : SwapEnv

def heldEntry (c : Candidate) (md : TorrentMeta) (sizeBytes : Nat) (location : PathBuf) (env : PlaceEnv) :
    Torrent :=
  { infoHash := hexEncode c.infoHash, title := c.title, sizeBytes, storageLocation := location,
    addedAt := env.addedAt, pieceCount := md.pieceCount, lastKnownSeeders := c.seeders,
    completedPieces := 0, lastProgressAt := some env.progressAt,
    lastConfirmedInCatalogAt := some env.confirmedAt }

def placeDecision (s : Settings) (c : Candidate) (md : TorrentMeta) (sizeBytes : Nat)
    (displaced : List Held) (seederFloor : Nat) (roll : F64) : SwapDecision F64 :=
  evaluateSwap { c with sizeBytes, pieceCount := md.pieceCount, seederFloor } displaced
    s.scan.minSeedMargin s.cfg.config.aggressiveness roll

def displacedEvent (d : Held) : Displaced :=
  { hash := hexEncode d.infoHash, title := d.title, seeders := d.seeders, sizeBytes := d.sizeBytes }

def addEvent (c : Candidate) (sizeBytes : Nat) (location : PathBuf) (displaced : List Held)
    (seederFloor : Nat) (decision : SwapDecision F64) (ts : Time) : Event :=
  .add ts (hexEncode c.infoHash) c.title sizeBytes c.seeders location
    (if displaced.isEmpty then .fill else .swap) decision.chance decision.roll seederFloor
    decision.reason (displaced.map displacedEvent)

def tryAdd (s : Settings) (e : Engine) (c : Candidate) (md : TorrentMeta) (sizeBytes : Nat)
    (location : PathBuf) (displaced : List Held) (seederFloor : Nat) (roll : F64) (env : PlaceEnv) :
    Engine × Bool × SwapDecision F64 :=
  let decision := placeDecision s c md sizeBytes displaced seederFloor roll
  if !decision.shouldSwap then (e, false, decision)
  else if !env.mkdirOk then (e, false, decision)
  else
    match addTorrentBytes s e.session e.torrentCache (hexEncode c.infoHash) env.sessionOk with
    | none => (e, false, decision)
    | some session =>
      let state := (e.state.put (heldEntry c md sizeBytes location env) env.saved).1
      let event := addEvent c sizeBytes location displaced seederFloor decision env.recordedAt
      ((Engine.record { e with session, state } event).pushLive, true, decision)

def heldView (h : Torrent) : Held :=
  { infoHash := (decodeHash h.infoHash).getD zeroHash, title := h.title, sizeBytes := h.sizeBytes,
    pieceCount := h.pieceCount, seeders := h.lastKnownSeeders }

def removeDisplaced (e : Engine) (remove : String → RemoveEnv) : List Torrent → Nat → Engine × Nat
  | [], removed => (e, removed)
  | h :: rest, removed =>
    let (e, dropped) := e.dropHeld h.infoHash (remove h.infoHash)
    removeDisplaced e remove rest (if dropped then removed + 1 else removed)

def finishSwap (e : Engine) (remove : String → RemoveEnv) (displaced : List Torrent)
    (decision : SwapDecision F64) : Engine × Bool × SwapDecision F64 × Nat :=
  let (e, removed) := removeDisplaced e remove displaced 0
  (if removed > 0 then e.pushLive else e, true, decision, removed)

def heldAt (held : List Torrent) (location : PathBuf) : List Torrent :=
  held.filter (fun h => h.storageLocation = location)

/-- The locations held torrents are registered at, each once, in path order. -/
def heldLocations (held : List Torrent) : List PathBuf :=
  (held.map Torrent.storageLocation).dedup.insertionSort (· ≤ ·)

def displaceableAt (s : Settings) (held : List Torrent) (c : Candidate) (md : TorrentMeta)
    (sizeBytes : Nat) (location : PathBuf) : Option (List Torrent) :=
  selectDisplaceable s.powf (heldAt held location) c.seeders (sizeNeeded sizeBytes)
    (torrentRam md.pieceCount s.peerLimit) s.peerLimit s.scan.minSeedMargin s.sizeBias

def deviceGate (env : SwapEnv) (location : PathBuf) (displaced : List Torrent) (sizeBytes : Nat) :
    Option String :=
  deviceGateReason (env.deviceFree location) (wrappingSum (displaced.map env.dirSize))
    (sizeNeeded sizeBytes)

def swapLoop (s : Settings) (held : List Torrent) (c : Candidate) (md : TorrentMeta) (sizeBytes : Nat)
    (seederFloor : Nat) (roll : F64) (env : SwapEnv) :
    Engine → List PathBuf → SwapDecision F64 → Engine × Bool × SwapDecision F64 × Nat
  | e, [], last => (e, false, last, 0)
  | e, location :: rest, last =>
    match displaceableAt s held c md sizeBytes location with
    | none => swapLoop s held c md sizeBytes seederFloor roll env e rest last
    | some displaced =>
      match deviceGate env location displaced sizeBytes with
      | some reason =>
        swapLoop s held c md sizeBytes seederFloor roll env e rest
          (.refused reason ((0 : Nat) : F64))
      | none =>
        let (e, added, decision) := tryAdd s e c md sizeBytes location (displaced.map heldView)
          seederFloor roll (env.place location)
        if added then finishSwap e env.remove displaced decision
        else swapLoop s held c md sizeBytes seederFloor roll env e rest decision

def trySwap (s : Settings) (e : Engine) (c : Candidate) (md : TorrentMeta) (sizeBytes : Nat)
    (seederFloor : Nat) (roll : F64) (env : SwapEnv) : Engine × Bool × SwapDecision F64 × Nat :=
  swapLoop s e.state.all c md sizeBytes seederFloor roll env e (heldLocations e.state.all)
    (.refused "no held torrent clears the seed margin against this candidate" ((0 : Nat) : F64))

def notEvaluated : SwapDecision F64 := .refused "candidate not evaluated" ((0 : Nat) : F64)

/-- Where the free-space path places the candidate: below the torrent cap and within the RAM
headroom, at a location with room. -/
def fillTarget (s : Settings) (e : Engine) (c : Candidate) (md : TorrentMeta) (heldCount : Nat)
    (env : ActEnv) : Option StorageLocation :=
  if heldCount < s.maxTorrents then
    if torrentRam c.pieceCount s.peerLimit > e.ramHeadroomBytes s then none
    else
      let freeSpace := s.storage.map (e.freeBytes env.deviceFree)
      let spaceNeeded := s.storage.map (fun _ => sizeNeeded md.totalLength)
      (chooseLocation freeSpace spaceNeeded env.locationRoll).bind (s.storage[·]?)
  else none

def tryFill (s : Settings) (e : Engine) (c : Candidate) (md : TorrentMeta) (heldCount seederFloor : Nat)
    (roll : F64) (env : ActEnv) : Engine × Bool × SwapDecision F64 :=
  match fillTarget s e c md heldCount env with
  | none => (e, false, notEvaluated)
  | some loc => tryAdd s e c md md.totalLength loc.path [] seederFloor roll env.fill

/-- Fill free space, else swap. A roll-rejected candidate is rejected on both paths, and a
re-probe never displaces. -/
def placeCandidate (s : Settings) (e : Engine) (c : Candidate) (md : TorrentMeta)
    (heldCount seederFloor : Nat) (probe : Bool) (roll : F64) (env : ActEnv) : Engine × Nat :=
  let (e, added, decision) := tryFill s e c md heldCount seederFloor roll env
  if added then (e, heldCount + 1)
  else if decision.seedScarcityBlocked then (e, heldCount)
  else if probe then (e, heldCount)
  else
    let (e, swapped, _, removed) := trySwap s e c md md.totalLength seederFloor roll env.swap
    (e, if swapped then saturatingAdd heldCount 1 - removed else heldCount)

/-- The one roll of an evaluation; a re-probe's beats every chance. -/
def evaluationRoll (probe : Bool) (roll : F64) : F64 := if probe then -((1 : Nat) : F64) else roll

/-- Gate, re-read the metadata, then place. Returns the running held count as well. -/
def actOnCandidate (s : Settings) (e : Engine) (c : Candidate) (heldCount seederFloor : Nat)
    (env : ActEnv) : Engine × Nat :=
  let hex := hexEncode c.infoHash
  match e.quarantineGate hex env.now with
  | (some _, _) => (e, heldCount)
  | (none, probe) =>
    let (torrentCache, metadata) := fetchMetadata s e.torrentCache hex env.fetch
    let e := { e with torrentCache }
    match metadata with
    | none => (e, heldCount)
    | some md =>
      if !fitsInHeadroom md.fileCount env.fdHeadroom then (e, heldCount)
      else
        placeCandidate s e { c with pieceCount := md.pieceCount } md heldCount seederFloor probe
          (evaluationRoll probe env.roll) env

end KeepAt
