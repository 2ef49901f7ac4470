import KeepAt.Engine
import KeepAt.TtlCell

namespace KeepAt

inductive Activity where
  | booting
  | seeding
  | scanning
  deriving DecidableEq

structure HeldTorrentView where
  title : String
  infoHash : String
  sizeBytes : Nat
  progressBytes : Nat
  finished : Bool
  verifying : Bool
  lastKnownSeeders : Nat
  deriving DecidableEq

structure HeldView where
  booting : Bool
  torrents : List HeldTorrentView
  deriving DecidableEq

structure RuntimeView where
  booting : Bool
  activity : Activity
  checksInProgress : Nat
  uptimeSeconds : Nat
  heldTorrents : Nat
  seedingTorrents : Nat
  downloadingTorrents : Nat
  quarantinedTorrents : Nat
  diskUsedBytes : Nat
  diskLimitBytes : Nat
  diskCommittedBytes : Nat
  totalBytesUploaded : Nat
  totalBytesDownloaded : Nat
  uploadBpsHour : F64
  downloadBpsHour : F64
  uploadBpsDay : F64
  downloadBpsDay : F64
  activePeers : Nat
  processRssBytes : Nat

/-- A torrent as the session shows it. -/
structure SessionTorrent where
  infoHash : String
  progressBytes : Nat
  finished : Bool
  initializing : Bool
  deriving DecidableEq

/-- What a runtime query reads of the session, and the rates that the tracker gives it. -/
structure SessionRead where
  torrents : List SessionTorrent
  uploadedBytes : Nat
  fetchedBytes : Nat
  livePeers : Nat
  uploadBpsHour : F64
  downloadBpsHour : F64
  uploadBpsDay : F64
  downloadBpsDay : F64

inductive HandleInner where
  | booting (held : List HeldTorrentView)
  | live (view : LiveView)
  deriving DecidableEq

def verifyingView (t : StateEntry) : HeldTorrentView :=
  { title := t.title, infoHash := t.infoHash, sizeBytes := t.sizeBytes, progressBytes := 0, finished := false
    verifying := true, lastKnownSeeders := t.lastKnownSeeders }

namespace HandleInner

def isBooting : HandleInner → Bool
  | .booting _ => true
  | .live _ => false

def refresh (view : LiveView) : HandleInner → HandleInner
  | .booting _ => .booting (view.held.map verifyingView)
  | .live _ => .live view

def heldLen : HandleInner → Nat
  | .booting held => held.length
  | .live view => view.held.length

def hashes : HandleInner → List String
  | .booting held => held.map HeldTorrentView.infoHash
  | .live view => view.held.map StateEntry.infoHash

def committed : HandleInner → Nat
  | .booting held => wrappingSum (held.map HeldTorrentView.sizeBytes)
  | .live view => wrappingSum (view.held.map StateEntry.sizeBytes)

def quarantined : HandleInner → Nat
  | .booting _ => 0
  | .live view => view.quarantined

end HandleInner

def seedingCount (torrents : List SessionTorrent) : Nat := (torrents.filter SessionTorrent.finished).length

def checksCount (torrents : List SessionTorrent) : Nat :=
  (torrents.filter fun t => !t.finished && t.initializing).length

def downloadingCount (torrents : List SessionTorrent) : Nat :=
  (torrents.filter fun t => !t.finished && !t.initializing).length

def secsElapsed (now startedAt : Nat) : Nat := (now - startedAt) / 10 ^ 9

/-- The answer of a runtime query from what it read on its way. -/
def runtimeView (activity : Activity) (inner : HandleInner) (session : SessionRead) (disk : Nat × Nat)
    (uptimeSeconds rss : Nat) : RuntimeView :=
  let zero : F64 := ((0 : Nat) : F64)
  let live := !inner.isBooting
  { booting := inner.isBooting
    activity
    checksInProgress := if live then checksCount session.torrents else 0
    uptimeSeconds
    heldTorrents := inner.heldLen
    seedingTorrents := if live then seedingCount session.torrents else 0
    downloadingTorrents := if live then downloadingCount session.torrents else inner.heldLen
    quarantinedTorrents := inner.quarantined
    diskUsedBytes := disk.1
    diskLimitBytes := disk.2
    diskCommittedBytes := inner.committed
    totalBytesUploaded := if live then session.uploadedBytes else 0
    totalBytesDownloaded := if live then session.fetchedBytes else 0
    uploadBpsHour := if live then session.uploadBpsHour else zero
    downloadBpsHour := if live then session.downloadBpsHour else zero
    uploadBpsDay := if live then session.uploadBpsDay else zero
    downloadBpsDay := if live then session.downloadBpsDay else zero
    activePeers := if live then session.livePeers else 0
    processRssBytes := rss }

/-- The session's torrent of a hash, the last one listed if there are several. -/
def liveProgress (torrents : List SessionTorrent) (hex : String) : Nat × Bool × Bool :=
  match torrents.reverse.find? fun t => decide (t.infoHash = hex) with
  | some t => (t.progressBytes, t.finished, t.initializing)
  | none => (0, false, false)

def heldTorrentView (torrents : List SessionTorrent) (t : StateEntry) : HeldTorrentView :=
  let progress := liveProgress torrents t.infoHash
  { title := t.title, infoHash := t.infoHash, sizeBytes := t.sizeBytes, progressBytes := progress.1
    finished := progress.2.1, verifying := progress.2.2, lastKnownSeeders := t.lastKnownSeeders }

def HandleInner.heldView (torrents : List SessionTorrent) : HandleInner → HeldView
  | .booting held => ⟨true, held⟩
  | .live view =>
    ⟨false, (view.held.map (heldTorrentView torrents)).insertionSort fun a b => a.title ≤ b.title⟩

def maxConcurrentQueries : Nat := 32

def diskCacheTtl : Duration := secs 60

/-- How far the daemon is: the engine is built, then attached to the handle, and then runs. -/
inductive EnginePhase where
  | booting
  | attached
  | running
  deriving DecidableEq

/-- How far a query is. The figures are read one after the other, and each is under a lock of its own. -/
inductive QueryStage where
  | accepted
  | asked
  | sawActivity (activity : Activity)
  | sawHandle (activity : Activity) (inner : HandleInner)
  | sawSession (activity : Activity) (inner : HandleInner) (session : SessionRead)
  | walking (activity : Activity) (inner : HandleInner) (session : SessionRead)
  | answered

structure LiveQuery where
  since : Nat
  stage : QueryStage

inductive LiveAnswer where
  | runtime (since at_ : Nat) (view : RuntimeView)
  | held (since : Nat) (torrents : List SessionTorrent) (view : HeldView)

/-- The server of a daemon. `past` lists what the handle has held, the present last, and a query's `since` is
where that stood when it was accepted. -/
structure LiveServer where
  startedAt : Nat
  inner : HandleInner
  activity : Activity
  engine : EnginePhase
  disk : TtlCell (Nat × Nat)
  queries : List LiveQuery
  past : List HandleInner
  answers : List LiveAnswer

/-- The disk figures that a daemon starts with: those that the last one saved, as old as they are, or none. -/
def seededDisk (snapshot : Option (Nat × Nat)) : Nat × Nat := snapshot.getD (0, 0)

namespace LiveServer

/-- The start of a daemon, over the held list of the state file and the disk figures of the last snapshot. -/
def boot (now : Nat) (held : List StateEntry) (snapshot : Option (Nat × Nat)) : LiveServer :=
  let inner := .booting (held.map verifyingView)
  { startedAt := now, inner, activity := .booting, engine := .booting
    disk := .start now (some (seededDisk snapshot)), queries := [], past := [inner], answers := [] }

def setInner (x : LiveServer) (inner : HandleInner) : LiveServer := { x with inner, past := x.past ++ [inner] }

def answer (x : LiveServer) (before after : List LiveQuery) (since : Nat) (a : LiveAnswer) : LiveServer :=
  { x with queries := before ++ ⟨since, .answered⟩ :: after, answers := x.answers ++ [a] }

end LiveServer

/-- A step of the server: of the clock, of the engine, or of one of its queries. Over capacity a connection is
dropped, which changes nothing. -/
inductive LiveServerStep (x : LiveServer) : LiveServer → Prop
  | wait (d : Nat) : LiveServerStep x { x with disk := x.disk.wait d }
  | activate (view : LiveView) (phase : x.engine = .booting) :
      LiveServerStep x { x.setInner (.live view) with engine := .attached }
  | announce (phase : x.engine = .attached) :
      LiveServerStep x { x with activity := .seeding, engine := .running }
  | setActivity (activity : Activity) (phase : x.engine = .running) (engine : activity ≠ .booting) :
      LiveServerStep x { x with activity }
  | refresh (view : LiveView) : LiveServerStep x (x.setInner (x.inner.refresh view))
  | accept (permit : x.queries.length < maxConcurrentQueries) :
      LiveServerStep x { x with queries := ⟨x.past.length - 1, .accepted⟩ :: x.queries }
  | ask (before after : List LiveQuery) (since : Nat)
      (at_ : x.queries = before ++ ⟨since, .accepted⟩ :: after) :
      LiveServerStep x { x with queries := before ++ ⟨since, .asked⟩ :: after }
  | answerHeld (before after : List LiveQuery) (since : Nat) (torrents : List SessionTorrent)
      (at_ : x.queries = before ++ ⟨since, .accepted⟩ :: after) :
      LiveServerStep x (x.answer before after since (.held since torrents (x.inner.heldView torrents)))
  | seeActivity (before after : List LiveQuery) (since : Nat)
      (at_ : x.queries = before ++ ⟨since, .asked⟩ :: after) :
      LiveServerStep x { x with queries := before ++ ⟨since, .sawActivity x.activity⟩ :: after }
  | seeHandle (before after : List LiveQuery) (since : Nat) (activity : Activity)
      (at_ : x.queries = before ++ ⟨since, .sawActivity activity⟩ :: after) :
      LiveServerStep x { x with queries := before ++ ⟨since, .sawHandle activity x.inner⟩ :: after }
  | seeSession (before after : List LiveQuery) (since : Nat) (activity : Activity) (inner : HandleInner)
      (session : SessionRead) (at_ : x.queries = before ++ ⟨since, .sawHandle activity inner⟩ :: after) :
      LiveServerStep x { x with queries := before ++ ⟨since, .sawSession activity inner session⟩ :: after }
  | answerCached (before after : List LiveQuery) (since : Nat) (activity : Activity) (inner : HandleInner)
      (session : SessionRead) (disk : Nat × Nat) (rss : Nat)
      (at_ : x.queries = before ++ ⟨since, .sawSession activity inner session⟩ :: after)
      (free : x.disk.reading = none) (fresh : x.disk.fresh diskCacheTtl = some disk) :
      LiveServerStep x (x.answer before after since (.runtime since x.disk.now
        (runtimeView activity inner session disk (secsElapsed x.disk.now x.startedAt) rss)))
  | walk (before after : List LiveQuery) (since : Nat) (activity : Activity) (inner : HandleInner)
      (session : SessionRead) (at_ : x.queries = before ++ ⟨since, .sawSession activity inner session⟩ :: after)
      (free : x.disk.reading = none) (stale : x.disk.fresh diskCacheTtl = none) :
      LiveServerStep x
        { x with
          queries := before ++ ⟨since, .walking activity inner session⟩ :: after
          disk := x.disk.beginReading }
  | answerWalked (before after : List LiveQuery) (since : Nat) (activity : Activity) (inner : HandleInner)
      (session : SessionRead) (began : Nat) (disk : Nat × Nat) (rss : Nat)
      (at_ : x.queries = before ++ ⟨since, .walking activity inner session⟩ :: after)
      (reading : x.disk.reading = some began) :
      LiveServerStep x ({ x with disk := x.disk.finishReading began disk }.answer before after since
        (.runtime since x.disk.now
          (runtimeView activity inner session disk (secsElapsed x.disk.now x.startedAt) rss)))
  | hangUp (before after : List LiveQuery) (since : Nat) (stage : QueryStage)
      (at_ : x.queries = before ++ ⟨since, stage⟩ :: after) (outside : stage = .accepted ∨ stage = .answered) :
      LiveServerStep x { x with queries := before ++ after }

end KeepAt
