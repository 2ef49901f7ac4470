import KeepAt.Reference
import KeepAt.Scrape

namespace KeepAt

variable {shared : ScrapeShared} {infoHash : InfoHash} {insertedAt : Time} {cache : SwarmCache}

def ScrapeEvent.isTraffic : ScrapeEvent → Bool
  | .backoff _ => false
  | .grant _ | .send _ => true

theorem filter_isTraffic_granted (granted : Prop) [Decidable granted] (tracker : String) :
    (if granted then [ScrapeEvent.grant tracker] else []).filter ScrapeEvent.isTraffic
      = if granted then [.grant tracker] else [] := by
  split <;> rfl

theorem filter_isTraffic_asked (granted : Prop) [Decidable granted] (tracker : String)
    (requests : List HttpRequest) :
    ((if granted then [ScrapeEvent.grant tracker] else []) ++ requests.map ScrapeEvent.send).filter
        ScrapeEvent.isTraffic
      = (if granted then [ScrapeEvent.grant tracker] else []) ++ requests.map ScrapeEvent.send := by
  rw [List.filter_append, filter_isTraffic_granted]
  congr 1
  refine List.filter_eq_self.mpr fun e he => ?_
  obtain ⟨r, -, rfl⟩ := List.mem_map.mp he
  rfl

/-- A run of the daemon's loop sends and takes what the census's does, finds the same counts or none either,
and stores what it finds. -/
structure ScrapeRun.Agrees (infoHash : InfoHash) (insertedAt : Time) (cache : SwarmCache) (run : ScrapeRun)
    (census : List ScrapeEvent × Except ErrorChain SwarmCounts) : Prop where
  traffic : run.events.filter ScrapeEvent.isTraffic = census.1
  result : ∀ counts, run.result = .ok counts ↔ census.2 = .ok counts
  stored : ∀ counts, run.result = .ok counts → run.cache = cache.insert infoHash counts insertedAt
  kept : ∀ e, run.result = .error e → run.cache = cache

theorem ScrapeRun.Agrees.after {run : ScrapeRun} {census : List ScrapeEvent × Except ErrorChain SwarmCounts}
    {events : List ScrapeEvent} (h : run.Agrees infoHash insertedAt cache census)
    (traffic : events.filter ScrapeEvent.isTraffic = events) :
    (run.after events).Agrees infoHash insertedAt cache (events ++ census.1, census.2) := by
  refine ⟨?_, h.result, h.stored, h.kept⟩
  rw [ScrapeRun.after, List.filter_append, traffic, h.traffic]

theorem agrees_of_error {events traffic : List ScrapeEvent} {e e' : ErrorChain} {stats : ScrapeStats}
    (h : events.filter ScrapeEvent.isTraffic = traffic) :
    ScrapeRun.Agrees infoHash insertedAt cache ⟨events, .error e, cache, stats⟩ (traffic, .error e') where
  traffic := h
  result := fun _ => iff_of_false (by simp) (by simp)
  stored := fun _ hok => absurd hok (by simp)
  kept := fun _ _ => rfl

theorem agrees_of_ok {events traffic : List ScrapeEvent} {counts : SwarmCounts} {stats : ScrapeStats}
    (h : events.filter ScrapeEvent.isTraffic = traffic) :
    ScrapeRun.Agrees infoHash insertedAt cache
      ⟨events, .ok counts, cache.insert infoHash counts insertedAt, stats⟩ (traffic, .ok counts) where
  traffic := h
  result := fun _ => Iff.rfl
  stored := fun _ hok => by rw [Except.ok.inj hok]
  kept := fun _ hfailed => absurd hfailed (by simp)

/-- From any tracker on, the two loops stay in step. -/
theorem walk_agrees (trackers : List ScrapeCall) (lastErr : Option ErrorChain) (stats : ScrapeStats) :
    (shared.walk infoHash insertedAt cache lastErr stats trackers).Agrees infoHash insertedAt cache
      (scrapeOneFrom shared.parse shared.toLowercase infoHash lastErr trackers) := by
  induction trackers generalizing lastErr stats with
  | nil => exact agrees_of_error rfl
  | cons call rest ih =>
    have asked := filter_isTraffic_asked (isAtTrackerUrl shared.parse call.tracker = true) call.tracker
      (requestsTo call.tracker infoHash)
    unfold ScrapeShared.walk scrapeOneFrom
    dsimp only
    split
    next => exact (ih lastErr stats).after (filter_isTraffic_granted _ _)
    next =>
      rcases call.outcome with _ | e | counts
      · exact (ih _ _).after asked
      · dsimp only
        split
        next =>
          refine agrees_of_error ?_
          rw [List.filter_append, asked]
          exact List.append_nil _
        next => exact (ih _ _).after asked
      · exact agrees_of_ok asked

/-- An entry that the cache still answers with. -/
def SwarmCache.Fresh (cache : SwarmCache) (infoHash : InfoHash) (now : Time) (e : CachedSwarm) : Prop :=
  cache.entries infoHash = some e ∧ e.age now ≤ cache.ttl

theorem SwarmCache.Fresh.get {now : Time} {e : CachedSwarm} (h : cache.Fresh infoHash now e) :
    cache.get infoHash now = some e.counts := by
  unfold SwarmCache.get
  rw [h.1]
  exact if_neg (Nat.not_lt.mpr h.2)

theorem SwarmCache.get_of_stale {now : Time} (h : ∀ e, ¬cache.Fresh infoHash now e) :
    cache.get infoHash now = none := by
  unfold SwarmCache.get
  split
  next => rfl
  next e he => exact if_pos (Nat.lt_of_not_le fun hle => h e ⟨he, hle⟩)

/-- Without a fresh entry the daemon's scrape asks the trackers as the census does, and succeeds with the same
counts, which it stores, or fails as well and leaves the cache alone. A fresh entry answers for itself. -/
theorem scrape_policies_agree (shared : ScrapeShared) (cache : SwarmCache) (stats : ScrapeStats)
    (readAt insertedAt : Time) (trackers : List ScrapeCall) (infoHash : InfoHash) :
    let daemon := scrapeSwarmCached shared cache stats readAt insertedAt trackers infoHash
    let census := scrapeOne shared.parse shared.toLowercase trackers infoHash
    ((∀ e, ¬cache.Fresh infoHash readAt e) → daemon.events.filter ScrapeEvent.isTraffic = census.1 ∧
        (∀ counts, daemon.result = .ok counts ↔ census.2 = .ok counts) ∧
        (∀ counts, daemon.result = .ok counts → daemon.cache = cache.insert infoHash counts insertedAt) ∧
        ∀ e, daemon.result = .error e → daemon.cache = cache) ∧
      ∀ e, cache.Fresh infoHash readAt e →
        daemon.result = .ok e.counts ∧ daemon.events = [] ∧ daemon.cache = cache := by
  intro daemon census
  constructor
  · intro hstale
    have hdaemon : daemon = shared.walk infoHash insertedAt cache none stats trackers := by
      simp only [daemon, scrapeSwarmCached, SwarmCache.get_of_stale hstale]
    have hagrees : daemon.Agrees infoHash insertedAt cache census := hdaemon ▸ walk_agrees trackers none stats
    exact ⟨hagrees.traffic, hagrees.result, hagrees.stored, hagrees.kept⟩
  · intro e hfresh
    have hdaemon : daemon = ⟨[], .ok e.counts, cache, { stats with scrapeCached := stats.scrapeCached + 1 }⟩ := by
      simp only [daemon, scrapeSwarmCached, hfresh.get]
    rw [hdaemon]
    exact ⟨rfl, rfl, rfl⟩

namespace Reference

def scrapeShared : ScrapeShared where
  parse := fun _ => some ⟨"https", some atHost⟩
  toLowercase := settings.toLowercase
  scrapeBackoff := secs 60
  shutdown := false

def swarmCache : SwarmCache := ⟨secs 60, fun _ => none⟩

end Reference

open Reference in
theorem scrape_policies_agree_one :
    let trackers : List ScrapeCall := [⟨"udp://t/announce", none⟩, ⟨"http://t/announce", some (.error ["busy"])⟩,
      ⟨"http://u/announce", some (.ok ⟨3, 1, 0⟩)⟩]
    let daemon := scrapeSwarmCached scrapeShared swarmCache ⟨0, 0⟩ 5 9 trackers hashA
    daemon.events = (scrapeOne scrapeShared.parse scrapeShared.toLowercase trackers hashA).1 ∧
      daemon.events.length = 5 ∧ daemon.cache = swarmCache.insert hashA ⟨3, 1, 0⟩ 9 := by
  intro trackers daemon
  have hagree := (scrape_policies_agree scrapeShared swarmCache ⟨0, 0⟩ 5 9 trackers hashA).1
    fun e he => absurd he.1 (by simp [swarmCache])
  have hevents : daemon.events.filter ScrapeEvent.isTraffic = daemon.events := by decide +kernel
  exact ⟨hevents.symm.trans hagree.1, by decide +kernel, hagree.2.2.1 _ (by decide +kernel)⟩

end KeepAt
