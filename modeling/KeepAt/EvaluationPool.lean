import KeepAt.FloorRun
import KeepAt.Scrape
import KeepAt.WorkerPool

namespace KeepAt

structure ScanStats where
  libraryBytes : Nat := 0
  metadataFetched : Nat := 0
  metadataCached : Nat := 0
  scrapeRequests : Nat := 0
  scrapeCached : Nat := 0
  skippedHeld : Nat := 0
  skippedBlocked : Nat := 0
  skippedTooBig : Nat := 0
  skippedAge : Nat := 0
  skippedFetchErr : Nat := 0
  skippedScrapeErr : Nat := 0
  eligible : Nat := 0
  deriving DecidableEq

namespace ScanStats

def scrapes (stats : ScanStats) : ScrapeStats := ⟨stats.scrapeCached, stats.scrapeRequests⟩

def withScrapes (stats : ScanStats) (scrapes : ScrapeStats) : ScanStats :=
  { stats with scrapeCached := scrapes.scrapeCached, scrapeRequests := scrapes.scrapeRequests }

end ScanStats

def addInto (dst src : ScanStats) : ScanStats where
  libraryBytes := dst.libraryBytes + src.libraryBytes
  metadataFetched := dst.metadataFetched + src.metadataFetched
  metadataCached := dst.metadataCached + src.metadataCached
  scrapeRequests := dst.scrapeRequests + src.scrapeRequests
  scrapeCached := dst.scrapeCached + src.scrapeCached
  skippedHeld := dst.skippedHeld + src.skippedHeld
  skippedBlocked := dst.skippedBlocked + src.skippedBlocked
  skippedTooBig := dst.skippedTooBig + src.skippedTooBig
  skippedAge := dst.skippedAge + src.skippedAge
  skippedFetchErr := dst.skippedFetchErr + src.skippedFetchErr
  skippedScrapeErr := dst.skippedScrapeErr + src.skippedScrapeErr
  eligible := dst.eligible + src.eligible

/-- How far a worker is with its item: its metadata, then its age and its swarm, then what came of it. -/
inductive WorkerStage where
  | fetching
  | aging (md : TorrentMeta)
  | scraping (md : TorrentMeta)
  | scraped (md : TorrentMeta) (answer : Except ErrorChain SwarmCounts)
  | evaluated (result : Option Evaluated)
  | counted (result : Option Evaluated)
  | ended

structure EvaluationWorker where
  item : Item
  stage : WorkerStage

/-- What the workers of a walk share. `sent` is what they have sent, each entry with the item it came of. -/
structure WalkShared where
  stats : ScanStats
  processed : Nat
  sent : List (Item × Evaluated)

def evaluatedOf (item : Item) (md : TorrentMeta) (swarm : SwarmCounts) : Evaluated where
  title := item.title
  infoHash := md.infoHash
  sizeBytes := md.totalLength
  pieceCount := md.pieceCount
  seeders := swarm.seeders
  leechers := swarm.leechers

/-- One step of a worker through `evaluate_one_item` and what its task does with the result. The caches are as
the worker finds them. -/
inductive WorkerStep (s : Settings) (shared : ScrapeShared) : EvaluationWorker → WalkShared → EvaluationWorker →
    WalkShared → Prop
  | fetched (item : Item) (x : WalkShared) (cache : TorrentCache) (env : FetchEnv) (md : TorrentMeta)
      (read : (fetchMetadata s cache (hexEncode item.infoHash) env).2 = some md) :
      WorkerStep s shared ⟨item, .fetching⟩ x ⟨item, .aging md⟩
        { x with stats := { x.stats with metadataFetched := x.stats.metadataFetched + 1 } }
  | unfetched (item : Item) (x : WalkShared) (cache : TorrentCache) (env : FetchEnv)
      (failed : (fetchMetadata s cache (hexEncode item.infoHash) env).2 = none) :
      WorkerStep s shared ⟨item, .fetching⟩ x ⟨item, .evaluated none⟩
        { x with stats := { x.stats with skippedFetchErr := x.stats.skippedFetchErr + 1 } }
  | old (item : Item) (x : WalkShared) (md : TorrentMeta) (now : Time) (aged : oldEnough s md now = true) :
      WorkerStep s shared ⟨item, .aging md⟩ x ⟨item, .scraping md⟩ x
  | young (item : Item) (x : WalkShared) (md : TorrentMeta) (now : Time) (fresh : oldEnough s md now = false) :
      WorkerStep s shared ⟨item, .aging md⟩ x ⟨item, .evaluated none⟩
        { x with stats := { x.stats with skippedAge := x.stats.skippedAge + 1 } }
  | scraped (item : Item) (x : WalkShared) (md : TorrentMeta) (cache : SwarmCache) (readAt insertedAt : Time)
      (trackers : List ScrapeCall) (asks : trackers.map ScrapeCall.tracker = md.trackers) :
      WorkerStep s shared ⟨item, .scraping md⟩ x
        ⟨item, .scraped md
          (scrapeSwarmCached shared cache x.stats.scrapes readAt insertedAt trackers md.infoHash).result⟩
        { x with stats := x.stats.withScrapes (scrapeSwarmCached shared cache x.stats.scrapes readAt insertedAt
            trackers md.infoHash).stats }
  | eligible (item : Item) (x : WalkShared) (md : TorrentMeta) (swarm : SwarmCounts) :
      WorkerStep s shared ⟨item, .scraped md (.ok swarm)⟩ x ⟨item, .evaluated (some (evaluatedOf item md swarm))⟩
        { x with stats := { x.stats with eligible := x.stats.eligible + 1 } }
  | unscraped (item : Item) (x : WalkShared) (md : TorrentMeta) (err : ErrorChain) :
      WorkerStep s shared ⟨item, .scraped md (.error err)⟩ x ⟨item, .evaluated none⟩
        { x with stats := { x.stats with skippedScrapeErr := x.stats.skippedScrapeErr + 1 } }
  | count (item : Item) (x : WalkShared) (result : Option Evaluated) :
      WorkerStep s shared ⟨item, .evaluated result⟩ x ⟨item, .counted result⟩ { x with processed := x.processed + 1 }
  | send (item : Item) (x : WalkShared) (ev : Evaluated) :
      WorkerStep s shared ⟨item, .counted (some ev)⟩ x ⟨item, .ended⟩ { x with sent := x.sent ++ [(item, ev)] }
  | skip (item : Item) (x : WalkShared) : WorkerStep s shared ⟨item, .counted none⟩ x ⟨item, .ended⟩ x

def EvaluationWorker.begin (item : Item) : EvaluationWorker := ⟨item, .fetching⟩

def EvaluationWorker.Ended (w : EvaluationWorker) : Prop := w.stage = .ended

/-- `slice::chunks`: pieces of `n + 1` from the front. -/
def chunks {α : Type} (n : Nat) : List α → List (List α)
  | [] => []
  | x :: xs => (x :: xs.take n) :: chunks n (xs.drop n)
  termination_by xs => xs.length
  decreasing_by
    simp only [List.length_drop, List.length_cons]
    omega

theorem flatten_chunks {α : Type} (n : Nat) (xs : List α) : (chunks n xs).flatten = xs := by
  fun_induction chunks n xs with
  | case1 => rfl
  | case2 x xs ih => rw [List.flatten_cons, ih, List.cons_append, List.take_append_drop]

theorem chunks_length_le {α : Type} (n : Nat) (xs : List α) : (chunks n xs).length ≤ xs.length := by
  fun_induction chunks n xs with
  | case1 => exact le_rfl
  | case2 x xs ih =>
    simp only [List.length_cons, List.length_drop] at ih ⊢
    omega

abbrev EvaluationPool := WorkerPool Item EvaluationWorker WalkShared

inductive EvaluationPhase where
  | prefiltering
  | dispatching
  | merged
  deriving DecidableEq

/-- A run of `run_evaluation`. `undispatched` are the chunks that have no task yet. -/
structure EvaluationRun where
  phase : EvaluationPhase
  shutdown : Bool
  unread : List Item
  pending : List Item
  prefilter : ScanStats
  undispatched : List (List Item)
  pool : EvaluationPool

namespace EvaluationRun

def start (items : List Item) (shutdown : Bool) (stats : ScanStats) : EvaluationRun :=
  { phase := .prefiltering, shutdown, unread := items, pending := [], prefilter := {}, undispatched := []
    pool := ⟨[], [], evaluateConcurrency, ⟨stats, 0, []⟩⟩ }

variable (s : Settings) (held : List String) (x : EvaluationRun)

def prefilterNext (item : Item) (rest : List Item) : EvaluationRun :=
  match prefilterReason s held item with
  | .held =>
    { x with unread := rest, prefilter := { x.prefilter with skippedHeld := x.prefilter.skippedHeld + 1 } }
  | .blocked =>
    { x with unread := rest, prefilter := { x.prefilter with skippedBlocked := x.prefilter.skippedBlocked + 1 } }
  | .tooBig =>
    { x with unread := rest, prefilter := { x.prefilter with skippedTooBig := x.prefilter.skippedTooBig + 1 } }
  | .pending => { x with unread := rest, pending := x.pending ++ [item] }

def chunkPending : EvaluationRun :=
  { x with phase := .dispatching, pending := [], undispatched := chunks (evaluateConcurrency * 4 - 1) x.pending }

def merge : EvaluationRun :=
  { x with
    phase := .merged
    pool := { x.pool with shared := { x.pool.shared with stats := addInto x.pool.shared.stats x.prefilter } } }

end EvaluationRun

/-- A step of the walk: of the task itself, of a dispatcher or of a worker, or the shutdown. The task goes on to
its end when all is joined, or at shutdown, and what runs then is left to itself. -/
inductive EvaluationRunStep (s : Settings) (shared : ScrapeShared) (held : List String) (x : EvaluationRun) :
    EvaluationRun → Prop
  | prefilter (item : Item) (rest : List Item) (phase : x.phase = .prefiltering) (running : x.shutdown = false)
      (next : x.unread = item :: rest) : EvaluationRunStep s shared held x (x.prefilterNext s held item rest)
  | chunk (phase : x.phase = .prefiltering) (read : x.unread = [] ∨ x.shutdown = true) :
      EvaluationRunStep s shared held x x.chunkPending
  | dispatch (chunk : List Item) (rest : List (List Item)) (phase : x.phase = .dispatching)
      (running : x.shutdown = false) (next : x.undispatched = chunk :: rest) :
      EvaluationRunStep s shared held x { x with undispatched := rest, pool := x.pool.dispatch chunk }
  | pool (pool : EvaluationPool)
      (step : x.pool.Step EvaluationWorker.begin (WorkerStep s shared) EvaluationWorker.Ended pool) :
      EvaluationRunStep s shared held x { x with pool }
  | merge (phase : x.phase = .dispatching)
      (joined : (x.undispatched = [] ∧ x.pool.Idle) ∨ x.shutdown = true) :
      EvaluationRunStep s shared held x x.merge
  | signal (running : x.shutdown = false) : EvaluationRunStep s shared held x { x with shutdown := true }

end KeepAt
