import KeepAt.KeyedList
import KeepAt.Recency
import KeepAt.State
import Mathlib.Data.List.MinMax

namespace KeepAt

structure PoolKey where
  uid : Nat
  fileId : Nat
  deriving DecidableEq

/-- An open file, with the request it was opened for. -/
structure PoolHandle where
  openedFor : PoolKey
  path : PathBuf
  serial : Nat
  deriving DecidableEq

structure PoolEntry where
  key : PoolKey
  handle : PoolHandle
  path : PathBuf
  deriving DecidableEq

structure FilePool where
  cap : Nat
  map : KeyedList PoolEntry.key
  stamps : KeyedList (Prod.fst : PoolKey × Nat → PoolKey)
  stamp : Nat

/-- What one open meets: a file, an ordinary error, or the descriptor limit (`EMFILE`). -/
inductive OpenOutcome where
  | opened (serial : Nat)
  | failed
  | exhausted
  deriving DecidableEq

/-- What a request comes back with; `panicked` is the lookup after an insertion finding nothing. -/
inductive PoolReply where
  | served (handle : PoolHandle)
  | failed
  | exhausted
  | panicked
  deriving DecidableEq

namespace FilePool

def withCap (cap : Nat) : FilePool := ⟨max cap 1, .empty, .empty, 0⟩

def evict (p : FilePool) (key : PoolKey) : FilePool :=
  { p with map := p.map.erase key, stamps := p.stamps.erase key }

def evictPath (p : FilePool) (path : PathBuf) : FilePool :=
  ((p.map.values.filter fun e => e.path = path).map PoolEntry.key).foldl evict p

/-- Stamp a key; the counter is a `u64` that wraps. -/
def restamp (p : FilePool) (key : PoolKey) : FilePool :=
  { p with stamps := p.stamps.insert (key, p.stamp), stamp := (p.stamp + 1) % 2 ^ 64 }

def leastStamped (p : FilePool) : Option PoolKey := (p.stamps.values.argmin Prod.snd).map Prod.fst

/-- The eviction loop of an insertion; it ends at the latest when no stamp is left. -/
def makeRoom (key : PoolKey) : Nat → FilePool → FilePool
  | 0, p => p
  | fuel + 1, p =>
    if p.map.size ≥ p.cap then
      match p.leastStamped with
      | none => p
      | some victim => if victim = key then p else makeRoom key fuel (p.evict victim)
    else p

def insert (p : FilePool) (key : PoolKey) (handle : PoolHandle) (path : PathBuf) : FilePool :=
  let p := (makeRoom key p.stamps.size p).restamp key
  { p with map := p.map.insert ⟨key, handle, path⟩ }

def shed : Nat → FilePool → FilePool
  | 0, p => p
  | n + 1, p =>
    match p.leastStamped with
    | none => p
    | some victim => shed n (p.evict victim)

def openAndInsert (p : FilePool) (key : PoolKey) (path : PathBuf) (serial : Nat) : FilePool × PoolReply :=
  let p := p.insert key ⟨key, path, serial⟩ path
  (p, match p.map.find key with
    | some e => .served e.handle
    | none => .panicked)

/-- Reuse the cached handle or open one; at the descriptor limit shed a quarter of the pool and try
once more. -/
def getOrOpen (p : FilePool) (key : PoolKey) (path : PathBuf) (first second : OpenOutcome) :
    FilePool × PoolReply :=
  match p.map.find key with
  | some e => (p.restamp key, .served e.handle)
  | none =>
    match first with
    | .opened serial => p.openAndInsert key path serial
    | .failed => (p, .failed)
    | .exhausted =>
      let p := shed (max (p.cap / 4) 1) p
      match second with
      | .opened serial => p.openAndInsert key path serial
      | .failed => (p, .failed)
      | .exhausted => (p, .exhausted)

end FilePool

inductive PoolCall where
  | getOrOpen (key : PoolKey) (first second : OpenOutcome)
  | evictPath (path : PathBuf)

/-- One call on the pool; a key is always requested with the same path. -/
def FilePool.call (pathOf : PoolKey → PathBuf) (p : FilePool) : PoolCall → FilePool × Option PoolReply
  | .getOrOpen key first second =>
    let (p, reply) := p.getOrOpen key (pathOf key) first second
    (p, some reply)
  | .evictPath path => (p.evictPath path, none)

/-- Whether a request of this key gets a handle. -/
def serves (cached : List PoolKey) (key : PoolKey) (first second : OpenOutcome) : Bool :=
  if key ∈ cached then true
  else
    match first, second with
    | .opened _, _ => true
    | .exhausted, .opened _ => true
    | _, _ => false

/-- The cached keys, the one used last first, after a call on them: what a bounded pool that always
drops its least recently used keys keeps. -/
def lruCall (cap : Nat) (pathOf : PoolKey → PathBuf) (cached : List PoolKey) : PoolCall → List PoolKey
  | .getOrOpen key first second =>
    if key ∈ cached then Recency.touch key cached
    else
      let kept := if first = .exhausted then Recency.shed (max (cap / 4) 1) cached else cached
      if serves cached key first second then Recency.install cap key kept else kept
  | .evictPath path => cached.filter fun key => pathOf key ≠ path

/-- The keys served so far, the last one first. -/
def servedCall (cached : List PoolKey) (history : List PoolKey) : PoolCall → List PoolKey
  | .getOrOpen key first second => if serves cached key first second then key :: history else history
  | .evictPath _ => history

end KeepAt
