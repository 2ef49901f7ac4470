import KeepAt.PooledStorage

namespace KeepAt

/-- A storage with the metadata that librqbit made it for, and initialises it with. -/
structure View where
  storage : PooledStorage
  metadata : List FileInfo
  deriving DecidableEq

/-- A storage inside its `init`: the files still to make and the paths pushed so far. -/
structure Initialising where
  view : View
  remaining : List FileInfo
  paths : List (Option PathBuf)
  deriving DecidableEq

/-- A file unlinked by a `remove_file` that has not yet swept the pool. -/
structure Removal where
  path : PathBuf
  ino : Nat
  deriving DecidableEq

/-- The storages of a process and the disk they share, less the pool. -/
structure StorageWorld where
  disk : Inodes PathBuf
  registry : StorageRegistry
  nextUid : Nat
  created : Nat
  views : List View
  inits : List Initialising
  removals : List Removal
  inFlight : List InFlight

inductive Observed where
  | quiet
  | began (path : Option PathBuf) (request : IoRequest) (obtained : Obtained)
  | finished (io : InFlight) (result : IoResult)
  | initialised (uid : Nat) (ok : Bool)
  | removed (path : PathBuf) (ok : Bool)

namespace StorageWorld

def live (w : StorageWorld) : List View := w.views ++ w.inits.map Initialising.view

/-- An IO put in flight when its handle was obtained. -/
def begin_ (w : StorageWorld) (request : IoRequest) (obtained : Obtained) : StorageWorld :=
  match obtained with
  | .served ino => { w with inFlight := ⟨ino, request, []⟩ :: w.inFlight }
  | _ => w

end StorageWorld

/-- The steps in which no handle is asked for and no cached one dropped, of any thread at any time. -/
inductive StorageStep : StorageWorld → Observed → StorageWorld → Prop
  | register (w : StorageWorld) (infoHash : InfoHash) (folder : PathBuf) (overwrite : Bool) :
      StorageStep w .quiet { w with registry := registerTorrent w.registry infoHash folder overwrite }
  | unregister (w : StorageWorld) (infoHash : InfoHash) :
      StorageStep w .quiet { w with registry := unregisterTorrent w.registry infoHash }
  | create (w : StorageWorld) (infoHash : InfoHash) (metadata : List FileInfo) (st : PooledStorage)
      (next : Nat) (h : PooledStorage.create w.registry w.nextUid infoHash = some (st, next)) :
      StorageStep w .quiet
        { w with nextUid := next, created := w.created + 1, views := ⟨st, metadata⟩ :: w.views }
  | init (w : StorageWorld) (v : View) (h : v ∈ w.views) :
      StorageStep w .quiet
        { w with views := w.views.erase v, inits := ⟨v, v.metadata, []⟩ :: w.inits }
  | initFile (w : StorageWorld) (i : Initialising) (fi : FileInfo) (rest : List FileInfo)
      (outcome : InitOutcome) (disk : Inodes PathBuf) (path : Option PathBuf) (h : i ∈ w.inits)
      (next : i.remaining = fi :: rest)
      (ok : i.view.storage.initFile w.disk fi outcome = (disk, some path)) :
      StorageStep w .quiet
        { w with disk := disk, inits := ⟨i.view, rest, i.paths ++ [path]⟩ :: w.inits.erase i }
  | initFails (w : StorageWorld) (i : Initialising) (fi : FileInfo) (rest : List FileInfo)
      (outcome : InitOutcome) (disk : Inodes PathBuf) (h : i ∈ w.inits)
      (next : i.remaining = fi :: rest)
      (refused : i.view.storage.initFile w.disk fi outcome = (disk, none)) :
      StorageStep w (.initialised i.view.storage.uid false)
        { w with disk := disk, inits := w.inits.erase i, views := i.view :: w.views }
  | initDone (w : StorageWorld) (i : Initialising) (h : i ∈ w.inits) (last : i.remaining = []) :
      StorageStep w (.initialised i.view.storage.uid true)
        { w with
          inits := w.inits.erase i
          views := ⟨{ i.view.storage with paths := i.paths }, i.view.metadata⟩ :: w.views }
  | take (w : StorageWorld) (v : View) (h : v ∈ w.views) :
      StorageStep w .quiet { w with views := ⟨v.storage.take, v.metadata⟩ :: w.views }
  | drop (w : StorageWorld) (v : View) : StorageStep w .quiet { w with views := w.views.erase v }
  | io (w : StorageWorld) (io io' : InFlight) (bs : List UInt8) (h : io ∈ w.inFlight)
      (call : IoCall (w.disk.bytes io.ino) io bs (.inl io')) :
      StorageStep w .quiet
        { w with disk := w.disk.store io.ino bs, inFlight := io' :: w.inFlight.erase io }
  | finish (w : StorageWorld) (io : InFlight) (bs : List UInt8) (result : IoResult) (h : io ∈ w.inFlight)
      (call : IoCall (w.disk.bytes io.ino) io bs (.inr result)) :
      StorageStep w (.finished io result)
        { w with disk := w.disk.store io.ino bs, inFlight := w.inFlight.erase io }
  | unlink (w : StorageWorld) (v : View) (filename : PathBuf) (ino : Nat) (h : v ∈ w.views)
      (named : w.disk.names (joinPath v.storage.outputFolder filename) = some ino) :
      StorageStep w .quiet
        { w with
          disk := w.disk.unlink (joinPath v.storage.outputFolder filename)
          removals := ⟨joinPath v.storage.outputFolder filename, ino⟩ :: w.removals }
  | unlinkFails (w : StorageWorld) (v : View) (filename : PathBuf) (h : v ∈ w.views) :
      StorageStep w (.removed (joinPath v.storage.outputFolder filename) false) w
  /-- The directory of a torrent whose storages librqbit has dropped, deleted file by file. -/
  | wipe (w : StorageWorld) (outputDir path : PathBuf) (under : outputDir <+: path)
      (gone : ∀ v ∈ w.live, ∀ fi ∈ v.metadata,
        ¬outputDir <+: joinPath v.storage.outputFolder fi.relativeFilename) :
      StorageStep w .quiet { w with disk := w.disk.unlink path }

/-- What an open of a path can meet: the file it names, or any error. -/
def MeetsOpen (disk : Inodes PathBuf) (path : PathBuf) (outcome : OpenOutcome) : Prop :=
  ∀ ino, outcome = .opened ino → disk.names path = some ino

/-- The storages over the pool. -/
inductive PooledStep : StorageWorld × FilePool → Observed → StorageWorld × FilePool → Prop
  | world {w w' : StorageWorld} {o : Observed} (pool : FilePool) (h : StorageStep w o w') :
      PooledStep (w, pool) o (w', pool)
  | begin_ (w : StorageWorld) (pool : FilePool) (v : View) (fileId : Nat) (request : IoRequest)
      (first second : OpenOutcome) (h : v ∈ w.views)
      (meets : ∀ full, v.storage.fullPath fileId = some full →
        MeetsOpen w.disk full first ∧ MeetsOpen w.disk full second) :
      PooledStep (w, pool)
        (.began (v.storage.fullPath fileId) request (v.storage.handle pool fileId first second).2)
        (w.begin_ request (v.storage.handle pool fileId first second).2,
          (v.storage.handle pool fileId first second).1)
  | sweep (w : StorageWorld) (pool : FilePool) (r : Removal) (h : r ∈ w.removals) :
      PooledStep (w, pool) (.removed r.path true)
        ({ w with removals := w.removals.erase r }, pool.evictPath r.path)

/-- Storages that open the file of each IO by its path and keep nothing open. -/
inductive DirectStep : StorageWorld → Observed → StorageWorld → Prop
  | world {w w' : StorageWorld} {o : Observed} (h : StorageStep w o w') : DirectStep w o w'
  | begin_ (w : StorageWorld) (v : View) (fileId : Nat) (request : IoRequest) (obtained : Obtained)
      (h : v ∈ w.views) (missing : v.storage.fullPath fileId = none ↔ obtained = .noSuchFile)
      (named : ∀ full ino, v.storage.fullPath fileId = some full → obtained = .served ino →
        w.disk.names full = some ino) :
      DirectStep w (.began (v.storage.fullPath fileId) request obtained) (w.begin_ request obtained)
  | forget (w : StorageWorld) (r : Removal) (h : r ∈ w.removals) :
      DirectStep w (.removed r.path true) { w with removals := w.removals.erase r }

end KeepAt
