import KeepAt.Detector
import KeepAt.Displace
import KeepAt.ResolvedConfig
import KeepAt.TorrentFile

namespace KeepAt

inductive Cause where
  | fill
  | swap
  | stalled
  | deletedFromCatalog
  | quarantined
  deriving DecidableEq

structure Displaced where
  hash : String
  title : String
  seeders : Nat
  sizeBytes : Nat
  deriving DecidableEq

inductive Event where
  | add (ts : Time) (hash title : String) (sizeBytes seeders : Nat) (location : PathBuf) (cause : Cause)
      (chance roll : F64) (seederFloor : Nat) (reason : String) (displaced : List Displaced)
  | remove (ts : Time) (hash title : String) (sizeBytes seeders : Nat) (location : PathBuf)
      (cause : Cause) (reason : String)
  deriving DecidableEq

structure StateEntry where
  title : String
  infoHash : String
  sizeBytes : Nat
  lastKnownSeeders : Nat
  deriving DecidableEq

structure LiveView where
  quarantined : Nat
  held : List StateEntry
  deriving DecidableEq

/-- What an engine is built with and never changes. The last three are the power function of the
platform, the metainfo decoder and the lower-case mapping of the libraries. -/
structure Settings where
  cfg : ResolvedConfig
  maxTorrents : Nat
  ramBudget : Nat
  ramBudget_le : ramBudget ≤ u64Max
  sizeBias : F64
  powf : F64 → F64 → F64
  torrentFromBytes : Bytes → Option Metainfo
  toLowercase : String → String

abbrev TorrentCache := KeyedList (Prod.fst : String × Bytes → String)

/-- The mutable part. `session` lists the hashes the torrent session manages. -/
structure Engine where
  state : State
  session : List String
  torrentCache : TorrentCache
  history : List Event
  live : Option LiveView
  detector : Detector
  lastCatalog : Option (List String)

def perTorrentSizeBuffer : Nat := 256 * 1024
def socketReserve : Nat := 512

def fitsInHeadroom (needFiles : Nat) (headroom : Option Nat) : Bool :=
  match headroom with
  | none => true
  | some h => decide (saturatingAdd needFiles socketReserve ≤ h)

def sizeNeeded (nominal : Nat) : Nat := saturatingAdd nominal perTorrentSizeBuffer

def decodeHash (hex : String) : Option InfoHash :=
  match hexDecode (trim hex.toList) with
  | none => none
  | some bytes => if h : bytes.length = 20 then some ⟨bytes, h⟩ else none

def snapshotEntries (s : State) : List StateEntry :=
  s.all.map fun t =>
    { title := t.title, infoHash := t.infoHash, sizeBytes := t.sizeBytes,
      lastKnownSeeders := t.lastKnownSeeders }

def Settings.peerLimit (s : Settings) : Nat := peerLimitForBudget s.ramBudget

def Settings.parseTorrentBytes (s : Settings) (body : Bytes) : Option TorrentMeta :=
  KeepAt.parseTorrentBytes s.torrentFromBytes body

def Settings.storage (s : Settings) : List StorageLocation := s.cfg.config.storage

def Settings.scan (s : Settings) : ScanConfig := s.cfg.config.scan

def maxFittableSize (s : Settings) : Nat :=
  (s.storage.map StorageLocation.limitBytes).max?.getD 0

namespace Engine

def pushLive (e : Engine) : Engine :=
  { e with live := e.live.map fun _ => ⟨e.state.quarantineCount, snapshotEntries e.state⟩ }

def record (e : Engine) (ev : Event) : Engine := { e with history := e.history ++ [ev] }

def freeBytes (e : Engine) (deviceFree : PathBuf → Option Nat) (loc : StorageLocation) : Nat :=
  let heldNominal := e.state.bytesUsed loc.path
  let heldBuffers :=
    (e.state.all.filter (fun t => t.storageLocation = loc.path)).length * perTorrentSizeBuffer
  let free := loc.limitBytes - saturatingAdd heldNominal heldBuffers
  match deviceFree loc.path with
  | some devFree => min free devFree
  | none => free

def ramHeadroomBytes (s : Settings) (e : Engine) : Nat :=
  let price := fun (h : Torrent) => torrentRam (if h.pieceCount > 0 then h.pieceCount else 1024) s.peerLimit
  s.ramBudget - (e.state.all.map price).foldl saturatingAdd 0

/-- The entry that blocks a hash, or whether the hash is a lapsed one due for a probe. -/
def quarantineGate (e : Engine) (hex : String) (now : Time) : Option Quarantine × Bool :=
  match e.state.quarantineGet hex with
  | none => (none, false)
  | some q => if now ≥ q.cooldownUntil then (none, true) else (some q, false)

end Engine

/-- One attempt to get a `.torrent`: the body a download would return, and whether its cache write
goes through. -/
structure FetchEnv where
  body : Option Bytes
  cacheSaved : Bool

/-- Metadata from the cache when it parses, else from a download that replaces the cached bytes. -/
def fetchMetadata (s : Settings) (cache : TorrentCache) (hex : String) (env : FetchEnv) :
    TorrentCache × Option TorrentMeta :=
  match (cache.find hex).bind (fun b => s.parseTorrentBytes b.2) with
  | some md => (cache, some md)
  | none =>
    match env.body.bind (fun body => (s.parseTorrentBytes body).map (body, ·)) with
    | none => (cache, none)
    | some (body, md) => (if env.cacheSaved then cache.insert (hex, body) else cache, some md)

/-- Add the cached bytes to the session. The torrent that enters is the one they parse to. -/
def addTorrentBytes (s : Settings) (session : List String) (cache : TorrentCache) (hex : String)
    (sessionOk : Bool) : Option (List String) :=
  match (cache.find hex).bind (fun b => s.parseTorrentBytes b.2) with
  | none => none
  | some md =>
    if sessionOk then
      some (if hexEncode md.infoHash ∈ session then session else hexEncode md.infoHash :: session)
    else none

structure RemoveEnv where
  deleted : Bool
  cacheUnlinked : Bool
  saved : Bool

/-- Session deletion goes by the decoded hash; an undecodable one deletes nothing. -/
def removeTorrent (session : List String) (hex : String) (deleted : Bool) : List String :=
  match decodeHash hex with
  | none => session
  | some id => if deleted then session.filter (fun h => h ≠ hexEncode id) else session

namespace Engine

def dropHeld (e : Engine) (hex : String) (env : RemoveEnv) : Engine × Bool :=
  let (state, result) := e.state.remove hex env.saved
  ({ e with
      session := removeTorrent e.session hex env.deleted
      torrentCache := if env.cacheUnlinked then e.torrentCache.erase hex else e.torrentCache
      state },
   result.isSome)

@[simp] theorem pushLive_state (e : Engine) : e.pushLive.state = e.state := rfl
@[simp] theorem pushLive_session (e : Engine) : e.pushLive.session = e.session := rfl
@[simp] theorem pushLive_torrentCache (e : Engine) : e.pushLive.torrentCache = e.torrentCache := rfl
@[simp] theorem pushLive_history (e : Engine) : e.pushLive.history = e.history := rfl
@[simp] theorem pushLive_lastCatalog (e : Engine) : e.pushLive.lastCatalog = e.lastCatalog := rfl

@[simp] theorem record_state (e : Engine) (ev : Event) : (e.record ev).state = e.state := rfl
@[simp] theorem record_session (e : Engine) (ev : Event) : (e.record ev).session = e.session := rfl

@[simp] theorem record_torrentCache (e : Engine) (ev : Event) :
    (e.record ev).torrentCache = e.torrentCache := rfl

@[simp] theorem record_history (e : Engine) (ev : Event) : (e.record ev).history = e.history ++ [ev] := rfl

@[simp] theorem record_lastCatalog (e : Engine) (ev : Event) :
    (e.record ev).lastCatalog = e.lastCatalog := rfl

@[simp] theorem dropHeld_torrents (e : Engine) (hex : String) (env : RemoveEnv) :
    (e.dropHeld hex env).1.state.torrents = e.state.torrents.erase hex := by
  simp [dropHeld]

@[simp] theorem dropHeld_quarantined (e : Engine) (hex : String) (env : RemoveEnv) :
    (e.dropHeld hex env).1.state.quarantined = e.state.quarantined := by
  simp [dropHeld]

@[simp] theorem dropHeld_history (e : Engine) (hex : String) (env : RemoveEnv) :
    (e.dropHeld hex env).1.history = e.history := rfl

theorem dropHeld_session_subset (e : Engine) (hex : String) (env : RemoveEnv) :
    (e.dropHeld hex env).1.session ⊆ e.session := by
  intro h hm
  simp only [dropHeld, removeTorrent] at hm
  split at hm
  next => exact hm
  next =>
    split at hm
    next => exact List.mem_of_mem_filter hm
    next => exact hm

theorem dropHeld_cache_subset (e : Engine) (hex : String) (env : RemoveEnv) :
    (e.dropHeld hex env).1.torrentCache.values ⊆ e.torrentCache.values := by
  intro b hb
  simp only [dropHeld] at hb
  split at hb
  next => exact (KeyedList.mem_erase.mp hb).1
  next => exact hb

theorem dropHeld_saved (e : Engine) (hex : String) (env : RemoveEnv) :
    (e.dropHeld hex env).2 = env.saved := by
  simp only [dropHeld, State.remove, State.save]
  cases env.saved <;> rfl

end Engine

end KeepAt
