import KeepAt.InfoHash
import KeepAt.OpenFiles
import KeepAt.PoolSound
import KeepAt.Traces

namespace KeepAt

/-- What a torrent's metadata says of one of its files. -/
structure FileInfo where
  relativeFilename : PathBuf
  padding : Bool
  deriving DecidableEq

structure Registered where
  outputFolder : PathBuf
  overwrite : Bool
  deriving DecidableEq

abbrev StorageRegistry := KeyedList (Prod.fst : InfoHash × Registered → InfoHash)

def registerTorrent (registry : StorageRegistry) (infoHash : InfoHash) (outputFolder : PathBuf)
    (overwrite : Bool) : StorageRegistry := registry.insert (infoHash, ⟨outputFolder, overwrite⟩)

def unregisterTorrent (registry : StorageRegistry) (infoHash : InfoHash) : StorageRegistry :=
  registry.erase infoHash

def lookup (registry : StorageRegistry) (infoHash : InfoHash) : Option Registered :=
  (registry.find infoHash).map Prod.snd

structure PooledStorage where
  uid : Nat
  outputFolder : PathBuf
  overwrite : Bool
  paths : List (Option PathBuf)
  deriving DecidableEq

/-- `Path::join`: an absolute path replaces what it is joined to. -/
def joinPath (folder rel : PathBuf) : PathBuf :=
  match rel with
  | "/" :: _ => rel
  | _ => folder ++ rel

def hasParent (p : PathBuf) : Bool := p ≠ [] ∧ p ≠ ["/"]

/-- What the system makes of the calls for one file: a refusal can come before the file is there, or
after. -/
inductive InitOutcome where
  | opened
  | refused
  | refusedAfterCreation
  deriving DecidableEq

namespace PooledStorage

/-- A new storage; the id counter is an `AtomicU64`. -/
def create (registry : StorageRegistry) (uid : Nat) (infoHash : InfoHash) : Option (PooledStorage × Nat) :=
  (lookup registry infoHash).map fun reg => (⟨uid, reg.outputFolder, reg.overwrite, []⟩, (uid + 1) % 2 ^ 64)

def fullPath (st : PooledStorage) (fileId : Nat) : Option PathBuf :=
  (st.paths[fileId]?.join).map (joinPath st.outputFolder)

/-- One file of `init`, with what is pushed for it. -/
def initFile (st : PooledStorage) (disk : Inodes PathBuf) (fi : FileInfo) (outcome : InitOutcome) :
    Inodes PathBuf × Option (Option PathBuf) :=
  if fi.padding then (disk, some none)
  else
    let full := joinPath st.outputFolder fi.relativeFilename
    if hasParent full = false then (disk, none)
    else if st.overwrite = false ∧ (disk.names full).isSome then (disk, none)
    else
      match outcome with
      | .refused => (disk, none)
      | .refusedAfterCreation => (disk.touch full, none)
      | .opened => (disk.touch full, some (some fi.relativeFilename))

/-- Pause: a view of the same files under the same id. -/
def take (st : PooledStorage) : PooledStorage := ⟨st.uid, st.outputFolder, st.overwrite, st.paths⟩

end PooledStorage

/-- What a request for a handle comes back with. -/
inductive Obtained where
  | noSuchFile
  | served (ino : Nat)
  | failed
  | exhausted
  deriving DecidableEq

def PoolReply.obtained : PoolReply → Obtained
  | .served handle => .served handle.serial
  | .failed => .failed
  | .exhausted => .exhausted
  | .panicked => .failed

/-- The handle of a file from the pool; the serial of a handle is the inode it was opened on. -/
def PooledStorage.handle (st : PooledStorage) (pool : FilePool) (fileId : Nat) (first second : OpenOutcome) :
    FilePool × Obtained :=
  match st.fullPath fileId with
  | none => (pool, .noSuchFile)
  | some full =>
    let (pool, reply) := pool.getOrOpen ⟨st.uid, fileId⟩ full first second
    (pool, reply.obtained)

inductive IoRequest where
  | preadExact (offset len : Nat)
  | pwriteAll (offset : Nat) (data : List UInt8)
  | ensureFileLength (length : Nat)
  deriving DecidableEq

/-- An IO on the inode its handle was opened on, with what is left of it and what it has read. -/
structure InFlight where
  ino : Nat
  request : IoRequest
  got : List UInt8
  deriving DecidableEq

/-- How an IO comes out; an error names no bytes. -/
inductive IoResult where
  | done (got : List UInt8)
  | error
  deriving DecidableEq

/-- One system call of an IO. A read or a write may move fewer bytes than asked; none at the end of
the file is an error, as is one that the system reports. -/
inductive IoCall (bs : List UInt8) : InFlight → List UInt8 → InFlight ⊕ IoResult → Prop
  | read (ino offset len n : Nat) (got : List UInt8) (some : 0 < n) (fits : n ≤ len)
      (there : offset + n ≤ bs.length) :
      IoCall bs ⟨ino, .preadExact offset len, got⟩ bs
        (.inl ⟨ino, .preadExact (offset + n) (len - n), got ++ readAt bs offset n⟩)
  | readDone (ino offset : Nat) (got : List UInt8) :
      IoCall bs ⟨ino, .preadExact offset 0, got⟩ bs (.inr (.done got))
  | written (ino offset n : Nat) (data got : List UInt8) (some : 0 < n) (fits : n ≤ data.length) :
      IoCall bs ⟨ino, .pwriteAll offset data, got⟩ (writeAt bs offset (data.take n))
        (.inl ⟨ino, .pwriteAll (offset + n) (data.drop n), got⟩)
  | writeDone (ino offset : Nat) (got : List UInt8) :
      IoCall bs ⟨ino, .pwriteAll offset [], got⟩ bs (.inr (.done got))
  | resized (ino length : Nat) (got : List UInt8) :
      IoCall bs ⟨ino, .ensureFileLength length, got⟩ (resize bs length) (.inr (.done got))
  | error (io : InFlight) : IoCall bs io bs (.inr .error)

end KeepAt
