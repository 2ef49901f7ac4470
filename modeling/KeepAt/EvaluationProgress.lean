import KeepAt.EvaluationAccounting

namespace KeepAt

variable {s : Settings} {shared : ScrapeShared} {held : List String} {items : List Item}
  {w w' : EvaluationWorker} {a a' : WalkShared} {x y : EvaluationRun}

/-- A scrape of the torrent's own trackers, with the cache before them, answered so. -/
def TorrentMeta.Answered (shared : ScrapeShared) (md : TorrentMeta) (answer : Except ErrorChain SwarmCounts) : Prop :=
  ∃ cache stats readAt insertedAt trackers, trackers.map ScrapeCall.tracker = md.trackers ∧
    (scrapeSwarmCached shared cache stats readAt insertedAt trackers md.infoHash).result = answer

/-- The entry is what `evaluateOneItem` makes of the metadata read for the item and of the swarm that a scrape of
that metadata's trackers found. -/
def Item.Makes (s : Settings) (shared : ScrapeShared) (item : Item) (ev : Evaluated) : Prop :=
  ∃ cache env md swarm, (fetchMetadata s cache (hexEncode item.infoHash) env.fetch).2 = some md ∧
    md.Answered shared (.ok swarm) ∧ env.scrape md.trackers md.infoHash = some swarm ∧
    (evaluateOneItem s cache item env).2 = some ev ∧ ev = evaluatedOf item md swarm

/-- What a worker has so far came out of the steps of `evaluateOneItem` on its item. -/
def EvaluationWorker.Faithful (s : Settings) (shared : ScrapeShared) (w : EvaluationWorker) : Prop :=
  match w.stage with
  | .fetching | .ended => True
  | .aging md => ∃ cache env, (fetchMetadata s cache (hexEncode w.item.infoHash) env).2 = some md
  | .scraping md => ∃ cache env now,
      (fetchMetadata s cache (hexEncode w.item.infoHash) env).2 = some md ∧ oldEnough s md now = true
  | .scraped md answer => md.Answered shared answer ∧ ∃ cache env now,
      (fetchMetadata s cache (hexEncode w.item.infoHash) env).2 = some md ∧ oldEnough s md now = true
  | .evaluated result | .counted result => ∀ ev ∈ result, w.item.Makes s shared ev

def WalkShared.Faithful (s : Settings) (shared : ScrapeShared) (a : WalkShared) : Prop :=
  ∀ p ∈ a.sent, p.1.Makes s shared p.2

theorem WorkerStep.faithful (step : WorkerStep s shared w a w' a') (h : w.Faithful s shared)
    (ha : a.Faithful s shared) : w'.Faithful s shared ∧ a'.Faithful s shared := by
  cases step with
  | fetched item x cache env md read => exact ⟨⟨_, _, read⟩, ha⟩
  | unfetched item x cache env failed => exact ⟨fun ev hev => absurd hev (by simp), ha⟩
  | old item x md now aged =>
    obtain ⟨cache, env, read⟩ := h
    exact ⟨⟨cache, env, now, read, aged⟩, ha⟩
  | young item x md now fresh => exact ⟨fun ev hev => absurd hev (by simp), ha⟩
  | scraped item x md cache readAt insertedAt trackers asks =>
    exact ⟨⟨⟨cache, _, readAt, insertedAt, trackers, asks, rfl⟩, h⟩, ha⟩
  | eligible item x md swarm =>
    obtain ⟨answered, cache, fetch, now, read, aged⟩ := h
    refine ⟨fun ev hev => ?_, ha⟩
    obtain rfl := Option.some.inj hev
    refine ⟨cache, ⟨fetch, now, fun _ _ => some swarm⟩, md, swarm, read, answered, rfl, ?_, rfl⟩
    simp only [evaluateOneItem, read, aged]
    rfl
  | unscraped item x md err => exact ⟨fun ev hev => absurd hev (by simp), ha⟩
  | count item x result => exact ⟨h, ha⟩
  | send item x ev =>
    refine ⟨trivial, fun p hp => ?_⟩
    rcases List.mem_append.mp hp with hp | hp
    · exact ha p hp
    · obtain rfl := List.mem_singleton.mp hp
      exact h ev rfl
  | skip item x => exact ⟨trivial, ha⟩

open WorkerStage

def EvaluationWorker.unsent (w : EvaluationWorker) : Multiset Item := if isUndelivered w.stage then {w.item} else 0

theorem WorkerStep.unsent_le (step : WorkerStep s shared w a w' a') :
    w'.unsent + ((a'.sent.map Prod.fst : List Item) : Multiset Item) ≤
      w.unsent + ((a.sent.map Prod.fst : List Item) : Multiset Item) := by
  cases step with
  | fetched | old | scraped | eligible => exact le_rfl
  | unfetched | young | unscraped | skip => exact (zero_add _).trans_le (Multiset.le_add_left _ _)
  | count item x result => cases result <;> exact le_rfl
  | send item x ev =>
    refine le_of_eq ?_
    rw [List.map_append, ← Multiset.coe_add]
    exact (zero_add _).trans (add_comm _ _)

/-- The items that are left of a run, with those whose entries are sent. -/
def EvaluationRun.onTheirWay (s : Settings) (held : List String) (x : EvaluationRun) : Multiset Item :=
  ((x.unread.filter fun item => prefilterReason s held item = .pending : List Item) : Multiset Item) + x.pending +
    x.undispatched.flatten +
    (x.pool.total (fun item => (EvaluationWorker.begin item).unsent) EvaluationWorker.unsent +
      ((x.pool.shared.sent.map Prod.fst : List Item) : Multiset Item))

theorem EvaluationWorker.unsent_ended (ended : w.Ended) : w.unsent = 0 := by
  rw [EvaluationWorker.Ended] at ended
  simp [EvaluationWorker.unsent, ended, isUndelivered]

theorem sum_unsent_begin (queue : List Item) :
    (queue.map fun item => (EvaluationWorker.begin item).unsent).sum = (queue : Multiset Item) := by
  induction queue with
  | nil => rfl
  | cons item queue ih =>
    rw [List.map_cons, List.sum_cons, ih, ← Multiset.cons_coe, ← Multiset.singleton_add]
    rfl

theorem evaluationRunStep_onTheirWay_le (step : EvaluationRunStep s shared held x y)
    (unchunked : x.phase = .prefiltering → x.undispatched = []) :
    y.onTheirWay s held ≤ x.onTheirWay s held := by
  cases step with
  | prefilter item rest phase running next =>
    simp only [EvaluationRun.onTheirWay, EvaluationRun.prefilterNext, next, List.filter_cons]
    cases prefilterReason s held item with
    | pending =>
      simp only [← Multiset.coe_add, ← Multiset.cons_coe, decide_true, if_true, ← Multiset.singleton_add,
        Multiset.coe_nil, add_zero]
      exact le_of_eq (by abel)
    | _ => exact le_rfl
  | chunk phase read =>
    simp only [EvaluationRun.onTheirWay, EvaluationRun.chunkPending, flatten_chunks, unchunked phase]
    simp
  | dispatch chunk rest phase running next =>
    simp only [EvaluationRun.onTheirWay, next, WorkerPool.total_dispatch, List.flatten_cons, sum_unsent_begin,
      WorkerPool.dispatch_shared, ← Multiset.coe_add]
    exact le_of_eq (by abel)
  | pool pool step =>
    exact add_le_add_right (step.total_le _ (fun a => ((a.sent.map Prod.fst : List Item) : Multiset Item))
      WorkerStep.unsent_le EvaluationWorker.unsent_ended) _
  | merge phase joined => exact le_rfl
  | signal running => exact le_rfl

/-- What holds of a run at any moment, besides its counters. -/
structure EvaluationRun.Sound (s : Settings) (shared : ScrapeShared) (held : List String) (items : List Item)
    (x : EvaluationRun) : Prop where
  unchunked : x.phase = .prefiltering → x.undispatched = []
  onTheirWay : x.onTheirWay s held ≤
    ((items.filter fun item => prefilterReason s held item = .pending : List Item) : Multiset Item)
  workers : ∀ w ∈ x.pool.workers, w.Faithful s shared
  shared : x.pool.shared.Faithful s shared
  permits : x.pool.permits + x.pool.workers.length = evaluateConcurrency

theorem evaluationRunStep_sound (step : EvaluationRunStep s shared held x y) (h : x.Sound s shared held items) :
    y.Sound s shared held items := by
  have hon := (evaluationRunStep_onTheirWay_le step h.unchunked).trans h.onTheirWay
  cases step with
  | prefilter item rest phase running next =>
    unfold EvaluationRun.prefilterNext at hon ⊢
    cases hr : prefilterReason s held item <;> rw [hr] at hon <;>
      exact ⟨h.unchunked, hon, h.workers, h.shared, h.permits⟩
  | chunk phase read => exact ⟨fun hp => EvaluationPhase.noConfusion hp, hon, h.workers, h.shared, h.permits⟩
  | dispatch chunk rest phase running next =>
    exact ⟨fun hp => absurd (hp.symm.trans phase) (by decide), hon, h.workers, h.shared, h.permits⟩
  | pool pool step =>
    obtain ⟨hworkers, hshared⟩ := step.preserves (fun _ => trivial) WorkerStep.faithful h.workers h.shared
    exact ⟨h.unchunked, hon, hworkers, hshared, step.permits_add_workers.trans h.permits⟩
  | merge phase joined => exact ⟨fun hp => EvaluationPhase.noConfusion hp, hon, h.workers, h.shared, h.permits⟩
  | signal running => exact ⟨h.unchunked, hon, h.workers, h.shared, h.permits⟩

theorem EvaluationRun.start_sound (items : List Item) (shutdown : Bool) (stats : ScanStats) :
    (EvaluationRun.start items shutdown stats).Sound s shared held items where
  unchunked _ := rfl
  onTheirWay := le_of_eq (by simp [EvaluationRun.onTheirWay, EvaluationRun.start, WorkerPool.total])
  workers w hw := absurd hw List.not_mem_nil
  shared p hp := absurd hp List.not_mem_nil
  permits := rfl

def WorkerStage.rank : WorkerStage → Nat
  | .fetching => 6
  | .aging _ => 5
  | .scraping _ => 4
  | .scraped .. => 3
  | .evaluated _ => 2
  | .counted _ => 1
  | .ended => 0

theorem WorkerStep.rank_lt (step : WorkerStep s shared w a w' a') : w'.stage.rank < w.stage.rank := by
  cases step <;> simp [WorkerStage.rank]

theorem WorkerStep.able (s : Settings) (shared : ScrapeShared) (w : EvaluationWorker) (a : WalkShared) :
    w.Ended ∨ ∃ w' a', WorkerStep s shared w a w' a' := by
  obtain ⟨item, stage⟩ := w
  cases stage with
  | fetching =>
    cases hmd : (fetchMetadata s .empty (hexEncode item.infoHash) ⟨none, false⟩).2 with
    | none => exact Or.inr ⟨_, _, .unfetched item a _ _ hmd⟩
    | some md => exact Or.inr ⟨_, _, .fetched item a _ _ md hmd⟩
  | aging md =>
    cases hold : oldEnough s md 0 with
    | true => exact Or.inr ⟨_, _, .old item a md 0 hold⟩
    | false => exact Or.inr ⟨_, _, .young item a md 0 hold⟩
  | scraping md =>
    have hcalls : (md.trackers.map (⟨·, none⟩ : String → ScrapeCall)).map ScrapeCall.tracker = md.trackers := by
      rw [List.map_map]
      exact List.map_id _
    exact Or.inr ⟨_, _, .scraped item a md ⟨0, fun _ => none⟩ 0 0 _ hcalls⟩
  | scraped md answer =>
    cases answer with
    | ok swarm => exact Or.inr ⟨_, _, .eligible item a md swarm⟩
    | error err => exact Or.inr ⟨_, _, .unscraped item a md err⟩
  | evaluated result => exact Or.inr ⟨_, _, .count item a result⟩
  | counted result =>
    cases result with
    | none => exact Or.inr ⟨_, _, .skip item a⟩
    | some ev => exact Or.inr ⟨_, _, .send item a ev⟩
  | ended => exact Or.inl rfl

def EvaluationPhase.rank : EvaluationPhase → Nat
  | .prefiltering => 2
  | .dispatching => 1
  | .merged => 0

/-- The steps that a run has left at most. -/
def EvaluationRun.potential (x : EvaluationRun) : Nat :=
  10 * x.unread.length + 9 * x.pending.length + (8 * x.undispatched.flatten.length + x.undispatched.length) +
    x.pool.potential EvaluationWorker.begin (fun w => w.stage.rank) + x.phase.rank + (!x.shutdown).toNat

theorem EvaluationRun.prefilterNext_eq (s : Settings) (held : List String) (x : EvaluationRun) (item : Item)
    (rest : List Item) : ∃ pending prefilter, x.prefilterNext s held item rest =
      { x with unread := rest, pending, prefilter } ∧ pending.length ≤ x.pending.length + 1 := by
  unfold EvaluationRun.prefilterNext
  cases prefilterReason s held item with
  | pending => exact ⟨_, _, rfl, by simp⟩
  | _ => exact ⟨_, _, rfl, Nat.le_succ _⟩

theorem evaluationRunStep_potential_lt (step : EvaluationRunStep s shared held x y) : y.potential < x.potential := by
  cases step with
  | prefilter item rest phase running next =>
    obtain ⟨pending, prefilter, he, hle⟩ := x.prefilterNext_eq s held item rest
    simp only [he, EvaluationRun.potential, next, List.length_cons]
    omega
  | chunk phase read =>
    have hle := chunks_length_le (evaluateConcurrency * 4 - 1) x.pending
    simp only [EvaluationRun.potential, EvaluationRun.chunkPending, flatten_chunks, phase, EvaluationPhase.rank,
      List.length_nil]
    omega
  | dispatch chunk rest phase running next =>
    have hchunk : (chunk.map fun item => (EvaluationWorker.begin item).stage.rank + 2).sum = 8 * chunk.length := by
      simp [EvaluationWorker.begin, WorkerStage.rank, Nat.mul_comm]
    simp only [EvaluationRun.potential, next, WorkerPool.potential, WorkerPool.total_dispatch, hchunk,
      List.flatten_cons, List.length_append, List.length_cons]
    omega
  | pool pool step =>
    have hlt := step.potential_lt (fun w => w.stage.rank) WorkerStep.rank_lt
    simp only [EvaluationRun.potential]
    omega
  | merge phase joined =>
    have hpool : x.merge.pool.potential EvaluationWorker.begin (fun w => w.stage.rank) =
        x.pool.potential EvaluationWorker.begin (fun w => w.stage.rank) := rfl
    simp only [EvaluationRun.potential, hpool]
    simp only [EvaluationRun.merge, phase, EvaluationPhase.rank]
    omega
  | signal running =>
    simp [EvaluationRun.potential, running]

/-- A walk never has more workers than permits, never gets stuck before it is merged and its workers are gone,
and ends after so many steps whatever their order. -/
theorem evaluation_never_stuck {shutdown : Bool} {stats : ScanStats}
    (run : Relation.ReflTransGen (EvaluationRunStep s shared held) (.start items shutdown stats) x) :
    x.pool.workers.length ≤ evaluateConcurrency ∧
      (x.phase = .merged ∧ x.pool.Idle ∨ ∃ y, EvaluationRunStep s shared held x y) ∧
      Acc (fun y x => EvaluationRunStep s shared held x y) x := by
  have h : x.Sound s shared held items := run_preserves (P := EvaluationRun.Sound s shared held items)
    evaluationRunStep_sound run (EvaluationRun.start_sound items shutdown stats)
  have hpermits := h.permits
  refine ⟨by omega, ?_, ?_⟩
  · by_cases hidle : x.pool.Idle
    · cases hphase : x.phase with
      | prefiltering =>
        cases hunread : x.unread with
        | nil => exact Or.inr ⟨_, .chunk hphase (Or.inl hunread)⟩
        | cons item rest =>
          cases hshutdown : x.shutdown with
          | true => exact Or.inr ⟨_, .chunk hphase (Or.inr hshutdown)⟩
          | false => exact Or.inr ⟨_, .prefilter item rest hphase hshutdown hunread⟩
      | dispatching =>
        cases hchunks : x.undispatched with
        | nil => exact Or.inr ⟨_, .merge hphase (Or.inl ⟨hchunks, hidle⟩)⟩
        | cons chunk rest =>
          cases hshutdown : x.shutdown with
          | true => exact Or.inr ⟨_, .merge hphase (Or.inr hshutdown)⟩
          | false => exact Or.inr ⟨_, .dispatch chunk rest hphase hshutdown hchunks⟩
      | merged => exact Or.inl ⟨rfl, hidle⟩
    · have howned : 0 < x.pool.permits + x.pool.workers.length := by rw [hpermits]; decide
      obtain ⟨pool, step⟩ := WorkerPool.moves howned (fun w _ => WorkerStep.able s shared w x.pool.shared) hidle
      exact Or.inr ⟨_, .pool pool step⟩
  · have hwf : WellFounded fun y x => EvaluationRunStep s shared held x y :=
      Subrelation.wf (fun step => evaluationRunStep_potential_lt step) (measure EvaluationRun.potential).wf
    exact hwf.apply x

theorem evaluation_never_stuck_one :
    ∃ x : EvaluationRun, x.pool.shared.sent.length = 1 ∧ x.pool.workers.length ≤ evaluateConcurrency := by
  obtain ⟨x, run, -, -, hsent⟩ := Reference.walk_of_one
  exact ⟨x, hsent, (evaluation_never_stuck run).1⟩

end KeepAt
