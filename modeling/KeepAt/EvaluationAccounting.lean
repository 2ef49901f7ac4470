import KeepAt.EvaluationPool
import KeepAt.AdmissionIntegrity
import Mathlib.Algebra.Order.Group.Multiset

namespace KeepAt

variable {s : Settings} {shared : ScrapeShared} {held : List String} {items : List Item}
  {w w' : EvaluationWorker} {a a' : WalkShared}

variable (shared) in
theorem walk_scrapeCached (infoHash : InfoHash) (insertedAt : Time) (cache : SwarmCache)
    (lastErr : Option ErrorChain) (stats : ScrapeStats) (trackers : List ScrapeCall) :
    (shared.walk infoHash insertedAt cache lastErr stats trackers).stats.scrapeCached = stats.scrapeCached := by
  induction trackers generalizing lastErr stats with
  | nil => rfl
  | cons call rest ih =>
    unfold ScrapeShared.walk
    dsimp only
    split
    next => exact ih lastErr stats
    next =>
      split
      next => rfl
      next =>
        split
        next => rfl
        next => exact ih _ _
      next => exact ih _ _

variable (shared) in
/-- A scrape is answered from the cache once at most, and only when it is answered. -/
theorem scrapeSwarmCached_scrapeCached (cache : SwarmCache) (stats : ScrapeStats) (readAt insertedAt : Time)
    (trackers : List ScrapeCall) (infoHash : InfoHash) :
    let run := scrapeSwarmCached shared cache stats readAt insertedAt trackers infoHash
    run.stats.scrapeCached ≤ stats.scrapeCached + 1 ∧
      ∀ err, run.result = .error err → run.stats.scrapeCached = stats.scrapeCached := by
  intro run
  simp only [run, scrapeSwarmCached]
  split
  next => exact ⟨le_rfl, fun err h => by cases h⟩
  next =>
    have h := walk_scrapeCached shared infoHash insertedAt cache none stats trackers
    exact ⟨by omega, fun _ _ => h⟩

namespace WorkerStage

def isFetching : WorkerStage → Bool
  | .fetching => true
  | _ => false

def isUndecided : WorkerStage → Bool
  | .fetching | .aging _ | .scraping _ | .scraped .. => true
  | _ => false

def isUnanswered : WorkerStage → Bool
  | .fetching | .aging _ | .scraping _ | .scraped _ (.error _) => true
  | _ => false

def isUnprocessed : WorkerStage → Bool
  | .counted _ | .ended => false
  | _ => true

def isUndelivered : WorkerStage → Bool
  | .evaluated none | .counted none | .ended => false
  | _ => true

end WorkerStage

def EvaluationWorker.worth (open_ : WorkerStage → Bool) (w : EvaluationWorker) : Nat :=
  if open_ w.stage then 1 else 0

/-- The items that came to nothing. -/
def ScanStats.skipped (stats : ScanStats) : Nat := stats.skippedFetchErr + stats.skippedAge + stats.skippedScrapeErr

section Worker

open WorkerStage

theorem WorkerStep.fetching (step : WorkerStep s shared w a w' a') :
    w'.worth isFetching + (a'.stats.metadataFetched + a'.stats.skippedFetchErr) =
      w.worth isFetching + (a.stats.metadataFetched + a.stats.skippedFetchErr) := by
  cases step <;> simp [EvaluationWorker.worth, isFetching, ScanStats.withScrapes] <;> omega

theorem WorkerStep.undecided (step : WorkerStep s shared w a w' a') :
    w'.worth isUndecided + (a'.stats.skipped + a'.stats.eligible) =
      w.worth isUndecided + (a.stats.skipped + a.stats.eligible) := by
  cases step <;>
    simp [EvaluationWorker.worth, isUndecided, ScanStats.withScrapes, ScanStats.skipped] <;> omega

theorem WorkerStep.unprocessed (step : WorkerStep s shared w a w' a') :
    w'.worth isUnprocessed + a'.processed = w.worth isUnprocessed + a.processed := by
  cases step <;> simp [EvaluationWorker.worth, isUnprocessed, Nat.add_comm]

theorem WorkerStep.undelivered (step : WorkerStep s shared w a w' a') :
    w'.worth isUndelivered + (a'.stats.skipped + a'.sent.length) =
      w.worth isUndelivered + (a.stats.skipped + a.sent.length) := by
  cases step with
  | count item x result =>
    cases result <;> rfl
  | _ =>
    simp [EvaluationWorker.worth, isUndelivered, ScanStats.withScrapes, ScanStats.skipped] <;> omega

/-- An answer from the cache is counted before the item counts as eligible, which it then does. -/
theorem WorkerStep.scrapeCached (step : WorkerStep s shared w a w' a') :
    w'.worth isUnanswered + (a'.stats.skipped + a'.stats.scrapeCached) ≤
      w.worth isUnanswered + (a.stats.skipped + a.stats.scrapeCached) := by
  cases step with
  | scraped item x md cache readAt insertedAt trackers asks =>
    have h := scrapeSwarmCached_scrapeCached shared cache a.stats.scrapes readAt insertedAt trackers md.infoHash
    cases hresult : (scrapeSwarmCached shared cache a.stats.scrapes readAt insertedAt trackers
        md.infoHash).result with
    | ok swarm =>
      have hcached := h.1
      simp [EvaluationWorker.worth, isUnanswered, ScanStats.withScrapes, ScanStats.skipped,
        ScanStats.scrapes] at hcached ⊢
      omega
    | error err =>
      have hcached := h.2 err hresult
      simp [EvaluationWorker.worth, isUnanswered, ScanStats.withScrapes, ScanStats.skipped,
        ScanStats.scrapes] at hcached ⊢
      omega
  | _ => simp [EvaluationWorker.worth, isUnanswered, ScanStats.skipped] <;> omega

theorem WorkerStep.untouched (step : WorkerStep s shared w a w' a') :
    a'.stats.metadataCached = a.stats.metadataCached ∧ a'.stats.skippedHeld = a.stats.skippedHeld ∧
      a'.stats.skippedBlocked = a.stats.skippedBlocked ∧ a'.stats.skippedTooBig = a.stats.skippedTooBig := by
  cases step <;> exact ⟨rfl, rfl, rfl, rfl⟩

end Worker

open WorkerStage

/-- The items that are given to a pool and not past some stage. -/
def EvaluationPool.left (open_ : WorkerStage → Bool) (pool : EvaluationPool) : Nat :=
  pool.total (fun item => (EvaluationWorker.begin item).worth open_) (EvaluationWorker.worth open_)

theorem EvaluationPool.left_dispatch {open_ : WorkerStage → Bool} (h : open_ .fetching = true)
    (pool : EvaluationPool) (queue : List Item) :
    EvaluationPool.left open_ (pool.dispatch queue) = queue.length + EvaluationPool.left open_ pool := by
  have hsum : (queue.map fun item => (EvaluationWorker.begin item).worth open_).sum = queue.length := by
    simp [EvaluationWorker.worth, EvaluationWorker.begin, h]
  rw [EvaluationPool.left, WorkerPool.total_dispatch, hsum]
  rfl

/-- What the counters say once `n` items were given to the pool and `merged` was merged into them. -/
structure PoolTally (n : Nat) (merged : ScanStats) (pool : EvaluationPool) : Prop where
  fetching : pool.left isFetching + (pool.shared.stats.metadataFetched + pool.shared.stats.skippedFetchErr) = n
  undecided : pool.left isUndecided + (pool.shared.stats.skipped + pool.shared.stats.eligible) = n
  unprocessed : pool.left isUnprocessed + pool.shared.processed = n
  undelivered : pool.left isUndelivered + (pool.shared.stats.skipped + pool.shared.sent.length) = n
  scrapeCached : pool.left isUnanswered + (pool.shared.stats.skipped + pool.shared.stats.scrapeCached) ≤ n
  metadataCached : pool.shared.stats.metadataCached = 0
  skippedHeld : pool.shared.stats.skippedHeld = merged.skippedHeld
  skippedBlocked : pool.shared.stats.skippedBlocked = merged.skippedBlocked
  skippedTooBig : pool.shared.stats.skippedTooBig = merged.skippedTooBig

namespace PoolTally

variable {n : Nat} {merged : ScanStats} {pool pool' : EvaluationPool}

theorem dispatch (h : PoolTally n merged pool) (queue : List Item) :
    PoolTally (queue.length + n) merged (pool.dispatch queue) where
  fetching := by rw [EvaluationPool.left_dispatch rfl, Nat.add_assoc]; exact congrArg _ h.fetching
  undecided := by rw [EvaluationPool.left_dispatch rfl, Nat.add_assoc]; exact congrArg _ h.undecided
  unprocessed := by rw [EvaluationPool.left_dispatch rfl, Nat.add_assoc]; exact congrArg _ h.unprocessed
  undelivered := by rw [EvaluationPool.left_dispatch rfl, Nat.add_assoc]; exact congrArg _ h.undelivered
  scrapeCached := by rw [EvaluationPool.left_dispatch rfl, Nat.add_assoc]; exact Nat.add_le_add_left h.scrapeCached _
  metadataCached := h.metadataCached
  skippedHeld := h.skippedHeld
  skippedBlocked := h.skippedBlocked
  skippedTooBig := h.skippedTooBig

theorem worth_ended {open_ : WorkerStage → Bool} (h : open_ .ended = false) {w : EvaluationWorker}
    (ended : w.Ended) : w.worth open_ = 0 := by
  rw [EvaluationWorker.Ended] at ended
  simp [EvaluationWorker.worth, ended, h]

theorem step (h : PoolTally n merged pool)
    (step : pool.Step EvaluationWorker.begin (WorkerStep s shared) EvaluationWorker.Ended pool') :
    PoolTally n merged pool' where
  fetching := (step.conserves _ (fun a => a.stats.metadataFetched + a.stats.skippedFetchErr)
    WorkerStep.fetching (worth_ended rfl)).trans h.fetching
  undecided := (step.conserves _ (fun a => a.stats.skipped + a.stats.eligible)
    WorkerStep.undecided (worth_ended rfl)).trans h.undecided
  unprocessed := (step.conserves _ (fun a => a.processed) WorkerStep.unprocessed (worth_ended rfl)).trans
    h.unprocessed
  undelivered := (step.conserves _ (fun a => a.stats.skipped + a.sent.length)
    WorkerStep.undelivered (worth_ended rfl)).trans h.undelivered
  scrapeCached := (step.total_le _ (fun a => a.stats.skipped + a.stats.scrapeCached)
    WorkerStep.scrapeCached (worth_ended rfl)).trans h.scrapeCached
  metadataCached := (step.shared_eq _ fun h => h.untouched.1).trans h.metadataCached
  skippedHeld := (step.shared_eq _ fun h => h.untouched.2.1).trans h.skippedHeld
  skippedBlocked := (step.shared_eq _ fun h => h.untouched.2.2.1).trans h.skippedBlocked
  skippedTooBig := (step.shared_eq _ fun h => h.untouched.2.2.2).trans h.skippedTooBig

theorem merge (h : PoolTally n {} pool)
    (hmerged : merged =
      { skippedHeld := merged.skippedHeld, skippedBlocked := merged.skippedBlocked
        skippedTooBig := merged.skippedTooBig }) :
    PoolTally n merged
      { pool with shared := { pool.shared with stats := addInto pool.shared.stats merged } } := by
  obtain ⟨hf, hd, hp, hv, hs, hc, hheld, hblocked, htooBig⟩ := h
  rw [hmerged]
  refine ⟨hf, hd, hp, hv, hs, hc, ?_, ?_, ?_⟩
  · exact (congrArg (· + merged.skippedHeld) hheld).trans (Nat.zero_add _)
  · exact (congrArg (· + merged.skippedBlocked) hblocked).trans (Nat.zero_add _)
  · exact (congrArg (· + merged.skippedTooBig) htooBig).trans (Nat.zero_add _)

theorem start (stats : ScanStats) (h : stats = { libraryBytes := stats.libraryBytes }) :
    PoolTally 0 {} ⟨[], [], evaluateConcurrency, ⟨stats, 0, []⟩⟩ := by
  rw [h]
  constructor <;> simp [EvaluationPool.left, WorkerPool.total, ScanStats.skipped]

end PoolTally

def countReason (s : Settings) (held : List String) (reason : Prefilter) (items : List Item) : Nat :=
  (items.filter fun item => prefilterReason s held item = reason).length

theorem countReason_concat (reason : Prefilter) (read : List Item) (item : Item) :
    countReason s held reason (read ++ [item]) =
      countReason s held reason read + if prefilterReason s held item = reason then 1 else 0 := by
  simp only [countReason, List.filter_append, List.length_append, List.filter_cons, List.filter_nil]
  split <;> simp_all

def prefilterStats (s : Settings) (held : List String) (read : List Item) : ScanStats :=
  { skippedHeld := countReason s held .held read, skippedBlocked := countReason s held .blocked read
    skippedTooBig := countReason s held .tooBig read }

/-- What a run counts of the items that its prefilter has read: each is skipped, waits, or was given to the
pool. -/
structure EvaluationRun.Accounted (s : Settings) (held : List String) (items read : List Item)
    (x : EvaluationRun) : Prop where
  split : items = read ++ x.unread
  stopped : x.phase ≠ .prefiltering → x.pending = [] ∧ (x.unread = [] ∨ x.shutdown = true)
  unchunked : x.phase = .prefiltering → x.undispatched = []
  joined : x.phase = .merged → (x.undispatched = [] ∧ x.pool.Idle) ∨ x.shutdown = true
  prefilter : x.prefilter = prefilterStats s held read
  tally : ∃ n, x.pending.length + x.undispatched.flatten.length + n = countPending s held read ∧
    PoolTally n (if x.phase = .merged then x.prefilter else {}) x.pool

namespace EvaluationRun.Accounted

variable {read : List Item} {x y : EvaluationRun}

theorem prefilterNext {item : Item} {rest : List Item} (h : x.Accounted s held items read)
    (phase : x.phase = .prefiltering) (next : x.unread = item :: rest) :
    (x.prefilterNext s held item rest).Accounted s held items (read ++ [item]) := by
  obtain ⟨n, hwaiting, htally⟩ := h.tally
  have hsplit : items = read ++ [item] ++ rest := by rw [h.split, next, List.append_assoc]; rfl
  have hpending : countPending s held (read ++ [item]) =
      countPending s held read + if prefilterReason s held item = .pending then 1 else 0 :=
    countReason_concat .pending read item
  have hstats : ∀ reason, prefilterReason s held item = reason → prefilterStats s held (read ++ [item]) =
      { x.prefilter with
        skippedHeld := x.prefilter.skippedHeld + if reason = .held then 1 else 0
        skippedBlocked := x.prefilter.skippedBlocked + if reason = .blocked then 1 else 0
        skippedTooBig := x.prefilter.skippedTooBig + if reason = .tooBig then 1 else 0 } := by
    rintro reason rfl
    rw [h.prefilter]
    simp only [prefilterStats, countReason_concat]
  have hmerged : ¬x.phase = .merged := by rw [phase]; decide
  rw [if_neg hmerged] at htally
  have kept : ∀ reason, prefilterReason s held item = reason → reason ≠ .pending →
      countPending s held (read ++ [item]) = countPending s held read := by
    intro reason hr hne
    rw [hpending, hr, if_neg hne, Nat.add_zero]
  unfold EvaluationRun.prefilterNext
  cases hr : prefilterReason s held item with
  | pending =>
    refine ⟨hsplit, fun hp => absurd phase hp, h.unchunked, fun hm => absurd hm hmerged, ?_, n, ?_, ?_⟩
    · rw [hstats _ hr]
      rfl
    · rw [hpending, if_pos hr, ← hwaiting, List.length_append]
      simp only [List.length_cons, List.length_nil]
      omega
    · rwa [if_neg hmerged]
  | _ =>
    refine ⟨hsplit, fun hp => absurd phase hp, h.unchunked, fun hm => absurd hm hmerged, ?_, n, ?_, ?_⟩
    · rw [hstats _ hr]
      rfl
    · rw [kept _ hr (by decide)]
      exact hwaiting
    · rwa [if_neg hmerged]

theorem chunkPending (h : x.Accounted s held items read) (phase : x.phase = .prefiltering)
    (readAll : x.unread = [] ∨ x.shutdown = true) : x.chunkPending.Accounted s held items read := by
  obtain ⟨n, hwaiting, htally⟩ := h.tally
  have hmerged : ¬x.phase = .merged := by rw [phase]; decide
  refine ⟨h.split, fun _ => ⟨rfl, readAll⟩, fun hp => EvaluationPhase.noConfusion hp,
    fun hm => EvaluationPhase.noConfusion hm, h.prefilter, n, ?_, ?_⟩
  · rw [h.unchunked phase] at hwaiting
    simp only [EvaluationRun.chunkPending, flatten_chunks]
    simpa using hwaiting
  · rwa [if_neg hmerged] at htally

theorem dispatch {chunk : List Item} {rest : List (List Item)} (h : x.Accounted s held items read)
    (phase : x.phase = .dispatching) (next : x.undispatched = chunk :: rest) :
    EvaluationRun.Accounted s held items read { x with undispatched := rest, pool := x.pool.dispatch chunk } := by
  obtain ⟨n, hwaiting, htally⟩ := h.tally
  have hmerged : ¬x.phase = .merged := by rw [phase]; decide
  refine ⟨h.split, h.stopped, fun hp => absurd (hp.symm.trans phase) (by decide),
    fun hm => absurd hm hmerged, h.prefilter, chunk.length + n, ?_, htally.dispatch chunk⟩
  rw [next, List.flatten_cons, List.length_append] at hwaiting
  dsimp only
  omega

theorem pool {pool : EvaluationPool} (h : x.Accounted s held items read)
    (step : x.pool.Step EvaluationWorker.begin (WorkerStep s shared) EvaluationWorker.Ended pool) :
    EvaluationRun.Accounted s held items read { x with pool } := by
  obtain ⟨n, hwaiting, htally⟩ := h.tally
  exact ⟨h.split, h.stopped, h.unchunked, fun hm => (h.joined hm).imp_left fun hj => absurd step hj.2.not_step,
    h.prefilter, n, hwaiting, htally.step step⟩

theorem merge (h : x.Accounted s held items read) (phase : x.phase = .dispatching)
    (joined : (x.undispatched = [] ∧ x.pool.Idle) ∨ x.shutdown = true) :
    x.merge.Accounted s held items read := by
  obtain ⟨n, hwaiting, htally⟩ := h.tally
  have hmerged : ¬x.phase = .merged := by rw [phase]; decide
  rw [if_neg hmerged] at htally
  refine ⟨h.split, fun _ => h.stopped (by rw [phase]; decide), fun hp => EvaluationPhase.noConfusion hp,
    fun _ => joined, h.prefilter, n, hwaiting, ?_⟩
  rw [if_pos (show x.merge.phase = .merged from rfl)]
  exact htally.merge (by rw [show x.merge.prefilter = _ from h.prefilter]; rfl)

end EvaluationRun.Accounted

theorem evaluationRunStep_accounted {x y : EvaluationRun} (step : EvaluationRunStep s shared held x y)
    (h : ∃ read, x.Accounted s held items read) : ∃ read, y.Accounted s held items read := by
  obtain ⟨read, h⟩ := h
  cases step with
  | prefilter item rest phase running next => exact ⟨_, h.prefilterNext phase next⟩
  | chunk phase read => exact ⟨_, h.chunkPending phase read⟩
  | dispatch chunk rest phase running next => exact ⟨_, h.dispatch phase next⟩
  | pool pool step => exact ⟨_, h.pool step⟩
  | merge phase joined => exact ⟨_, h.merge phase joined⟩
  | signal running =>
    exact ⟨read, h.split, fun hp => ⟨(h.stopped hp).1, Or.inr rfl⟩, h.unchunked, fun _ => Or.inr rfl, h.prefilter,
      h.tally⟩

theorem EvaluationRun.start_accounted (items : List Item) (shutdown : Bool) (libraryBytes : Nat) :
    (EvaluationRun.start items shutdown { libraryBytes }).Accounted s held items [] :=
  ⟨rfl, fun hp => absurd rfl hp, fun _ => rfl, fun hm => EvaluationPhase.noConfusion hm, rfl, 0, rfl,
    .start _ rfl⟩

/-- In every order of the tasks' steps the counters never promise more than there was, and once a walk that no
shutdown cut short is merged, they account for every item of the catalog once. A body read from the cache
counts as fetched. An item answered from the scrape cache counts as eligible only a step later. -/
theorem evaluation_accounts {shutdown : Bool} {libraryBytes : Nat} {x : EvaluationRun}
    (run : Relation.ReflTransGen (EvaluationRunStep s shared held)
      (.start items shutdown { libraryBytes }) x) :
    let stats := x.pool.shared.stats
    x.pool.shared.processed ≤ countPending s held items ∧ stats.metadataCached = 0 ∧
      stats.scrapeCached ≤ stats.eligible + x.pool.workers.length ∧
      (x.phase = .merged → x.shutdown = false →
        x.pool.shared.processed = countPending s held items ∧
        stats.skippedHeld = countReason s held .held items ∧
        stats.skippedBlocked = countReason s held .blocked items ∧
        stats.skippedTooBig = countReason s held .tooBig items ∧
        stats.skipped + stats.eligible = countPending s held items ∧
        stats.metadataFetched + stats.skippedFetchErr = countPending s held items ∧
        x.pool.shared.sent.length = stats.eligible ∧ stats.scrapeCached ≤ stats.eligible) := by
  obtain ⟨read, h⟩ := run_preserves (P := fun x => ∃ read, x.Accounted s held items read)
    evaluationRunStep_accounted run ⟨[], EvaluationRun.start_accounted items shutdown libraryBytes⟩
  obtain ⟨n, hwaiting, htally⟩ := h.tally
  have hread : countPending s held read ≤ countPending s held items := by
    rw [h.split]
    exact ((List.sublist_append_left _ _).filter _).length_le
  have hprocessed := htally.unprocessed
  have hundecided := htally.undecided
  have hcached := htally.scrapeCached
  have hopen : x.pool.left isUndecided ≤ x.pool.left isUnanswered + x.pool.workers.length := by
    refine WorkerPool.total_le_add_workers x.pool _ fun w => ?_
    simp only [EvaluationWorker.worth]
    split <;> omega
  refine ⟨by omega, htally.metadataCached, by omega, fun hphase hrunning => ?_⟩
  have hrunning' : ¬x.shutdown = true := by simp [hrunning]
  obtain ⟨hpending, hunread⟩ := h.stopped (by rw [hphase]; decide)
  obtain ⟨hundispatched, hidle⟩ := (h.joined hphase).resolve_right hrunning'
  have hall : items = read := by rw [h.split, hunread.resolve_right hrunning', List.append_nil]
  have hleft : ∀ open_, x.pool.left open_ = 0 := fun open_ => WorkerPool.total_of_idle hidle _ _
  have hfetching := htally.fetching
  have hundelivered := htally.undelivered
  simp only [hleft, hpending, hundispatched, List.flatten_nil, List.length_nil, Nat.zero_add] at *
  rw [if_pos hphase, h.prefilter] at htally
  subst hall
  exact ⟨by omega, htally.skippedHeld, htally.skippedBlocked, htally.skippedTooBig, by omega, by omega, by omega,
    by omega⟩

namespace Reference

def walkScrapes : ScrapeShared := ⟨fun _ => none, id, 0, false⟩

def seededSwarm : SwarmCache := ⟨1, fun _ => some ⟨⟨7, 0, 0⟩, 0⟩⟩

def walkStart : EvaluationRun := .start [item hashA] false { libraryBytes := 0 }

/-- A pool with one item at some stage of its worker. -/
def walkPool (stage : WorkerStage) (shared : WalkShared) : EvaluationPool :=
  ⟨[[]], [⟨item hashA, stage⟩], evaluateConcurrency - 1, shared⟩

theorem walkPool_work {stage stage' : WorkerStage} {a a' : WalkShared}
    (does : WorkerStep settings walkScrapes ⟨item hashA, stage⟩ a ⟨item hashA, stage'⟩ a') :
    (walkPool stage a).Step EvaluationWorker.begin (WorkerStep settings walkScrapes) EvaluationWorker.Ended
      (walkPool stage' a') :=
  .work [] [] _ _ _ rfl does

/-- The one item of a catalog goes through its worker. -/
theorem walk_of_one : ∃ x, Relation.ReflTransGen (EvaluationRunStep settings walkScrapes []) walkStart x ∧
    x.phase = .merged ∧ x.shutdown = false ∧ x.pool.shared.sent.length = 1 := by
  have hreason : prefilterReason settings [] (item hashA) = .pending := by decide +kernel
  have hmd : (fetchMetadata settings (engine [] List.nodup_nil).torrentCache (hexEncode (item hashA).infoHash)
      ⟨none, true⟩).2 = some (metadata hashA "a") := by decide +kernel
  have hold : oldEnough settings (metadata hashA "a") scanTime = true := by decide +kernel
  let x₁ := walkStart.prefilterNext settings [] (item hashA) []
  have hx₁ : x₁ = { walkStart with unread := [], pending := [item hashA] } := by
    simp only [x₁, EvaluationRun.prefilterNext, hreason]
    rfl
  have hchunks : x₁.chunkPending.undispatched = [[item hashA]] := by
    simp [hx₁, EvaluationRun.chunkPending, chunks]
  have hrunning : x₁.shutdown = false := by rw [hx₁]; rfl
  have prefilters : EvaluationRunStep settings walkScrapes [] walkStart x₁ := .prefilter _ _ rfl rfl rfl
  have chunked : EvaluationRunStep settings walkScrapes [] x₁ x₁.chunkPending :=
    .chunk (by rw [hx₁]; rfl) (Or.inl (by rw [hx₁]))
  let y (pool : EvaluationPool) : EvaluationRun := { x₁.chunkPending with undispatched := [], pool }
  let pool : EvaluationPool := ⟨[[item hashA]], [], evaluateConcurrency, ⟨{ libraryBytes := 0 }, 0, []⟩⟩
  have dispatched : EvaluationRunStep settings walkScrapes [] x₁.chunkPending (y pool) := by
    have hpool : x₁.chunkPending.pool.dispatch [item hashA] = pool := by rw [hx₁]; rfl
    exact hpool ▸ .dispatch _ [] rfl (by rw [hx₁]; rfl) hchunks
  have spawned : pool.Step EvaluationWorker.begin (WorkerStep settings walkScrapes) EvaluationWorker.Ended
      (walkPool .fetching ⟨{ libraryBytes := 0 }, 0, []⟩) := .spawn [] [] _ [] rfl (by decide)
  have worked := ((((((Relation.ReflTransGen.single spawned).tail (walkPool_work (.fetched _ _ _ _ _ hmd))).tail
    (walkPool_work (.old _ _ _ _ hold))).tail (walkPool_work (.scraped _ _ _ seededSwarm 0 0
      [⟨"http://t/announce", none⟩] rfl))).tail (walkPool_work (.eligible _ _ _ ⟨7, 0, 0⟩))).tail
    (walkPool_work (.count _ _ _))).tail (walkPool_work (.send _ _ _))
  have emptied := worked.tail (.leave [] [] _ rfl rfl)
  have lifts : ∀ p p', WorkerPool.Step EvaluationWorker.begin (WorkerStep settings walkScrapes)
      EvaluationWorker.Ended p p' → EvaluationRunStep settings walkScrapes [] (y p) (y p') :=
    fun p p' step => .pool p' step
  have run := emptied.lift y lifts
  have whole := ((Relation.ReflTransGen.single prefilters).tail chunked).tail dispatched |>.trans run
  refine ⟨_, whole.tail (.merge rfl (Or.inl ⟨rfl, ?_, rfl⟩)), rfl, hrunning, rfl⟩
  intro queue hq
  exact List.mem_singleton.mp hq

end Reference

theorem evaluation_accounts_one :
    ∃ x : EvaluationRun, x.phase = .merged ∧ x.pool.shared.sent.length = 1 ∧
      x.pool.shared.processed = countPending Reference.settings [] [Reference.item Reference.hashA] ∧
      x.pool.shared.stats.eligible = 1 := by
  obtain ⟨x, run, hphase, hrunning, hsent⟩ := Reference.walk_of_one
  obtain ⟨-, -, -, hend⟩ := evaluation_accounts run
  obtain ⟨hprocessed, -, -, -, -, -, heligible, -⟩ := hend hphase hrunning
  exact ⟨x, hphase, hsent, hprocessed, heligible.symm.trans hsent⟩

end KeepAt
