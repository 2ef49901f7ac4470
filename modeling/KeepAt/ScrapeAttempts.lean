import KeepAt.RateLimitText

namespace KeepAt

/-- What the outcome of a scrape decides for the trackers after it. -/
def scrapeReply (toLowercase : String → String) : Option (Except ErrorChain SwarmCounts) → ScrapeReply
  | some (.ok counts) => .counts counts
  | some (.error e) => if isRateLimited toLowercase e then .rateLimited else .failed
  | none => .failed

/-- A grant, or a request, without the tracker it is for. -/
def ScrapeEvent.unnamed : ScrapeEvent → Option (Option HttpRequest)
  | .grant _ => some none
  | .send request => some (some request)
  | .backoff _ => none

def Attempt.unnamed (a : Attempt) : List (Option HttpRequest) :=
  (if a.limited then [none] else []) ++ a.request.toList.map some

variable {shared : ScrapeShared} {reason : Nat → String} {infoHash : InfoHash} {insertedAt : Time}
  {cache : SwarmCache}

theorem unnamed_granted (granted : Prop) [Decidable granted] (tracker : String) :
    (if granted then [ScrapeEvent.grant tracker] else []).filterMap ScrapeEvent.unnamed
      = if granted then [none] else [] := by
  split <;> rfl

theorem unnamed_asked (granted : Prop) [Decidable granted] (tracker : String) (requests : List HttpRequest) :
    ((if granted then [ScrapeEvent.grant tracker] else []) ++ requests.map ScrapeEvent.send).filterMap
        ScrapeEvent.unnamed
      = (if granted then [none] else []) ++ requests.map some := by
  have hsend : (requests.map ScrapeEvent.send).filterMap ScrapeEvent.unnamed = requests.map some := by
    rw [List.filterMap_map, ← List.filterMap_eq_map]
    rfl
  rw [List.filterMap_append, unnamed_granted, hsend]

/-- One turn of the walk: the grant and the request, and the rest of the list after a failure. -/
theorem walk_cons_unnamed (call : ScrapeCall) (http : isHttp call.tracker = true) (rest : List ScrapeCall)
    (later : List (Option HttpRequest)) (lastErr : Option ErrorChain) (stats : ScrapeStats)
    (ih : ∀ lastErr stats,
      (shared.walk infoHash insertedAt cache lastErr stats rest).events.filterMap ScrapeEvent.unnamed = later) :
    (shared.walk infoHash insertedAt cache lastErr stats (call :: rest)).events.filterMap ScrapeEvent.unnamed =
      (if isAtTrackerUrl shared.parse call.tracker then [none] else []) ++
        (requestsTo call.tracker infoHash).map some ++
          if scrapeReply shared.toLowercase call.outcome = .failed then later else [] := by
  have hasked := unnamed_asked (isAtTrackerUrl shared.parse call.tracker = true) call.tracker
    (requestsTo call.tracker infoHash)
  rw [ScrapeShared.walk]
  simp only [http, Bool.not_true, Bool.false_eq_true, if_false]
  rcases call.outcome with _ | e | counts
  · dsimp only [ScrapeRun.after]
    rw [List.filterMap_append, hasked, ih]
    rfl
  · dsimp only [scrapeReply]
    split
    next =>
      dsimp only
      rw [List.filterMap_append, hasked]
      rfl
    next =>
      dsimp only [ScrapeRun.after]
      rw [List.filterMap_append, hasked, ih, if_pos rfl]
  · have hanswered : scrapeReply shared.toLowercase (some (.ok counts)) ≠ .failed := by simp [scrapeReply]
    dsimp only
    rw [hasked, if_neg hanswered, List.append_nil]

/-- A tracker without a scrape URL does not end the walk. -/
theorem scrapeReply_unasked (lower : IsLowercase shared.toLowercase) {tracker : String}
    (url : deriveHttpScrapeUrl tracker = none) (reply : TrackerReply) :
    scrapeReply shared.toLowercase (scrapeHttp reason tracker infoHash reply) = .failed := by
  have herror : scrapeHttp reason tracker infoHash reply =
      some (.error ["tracker does not follow the announce/scrape URL convention"]) := by
    simp only [scrapeHttp, url]
  have hunlimited : ¬isRateLimited shared.toLowercase
      ["tracker does not follow the announce/scrape URL convention"] = true := by
    rw [isRateLimited_iff lower]
    decide
  rw [herror, scrapeReply, if_neg hunlimited]

/-- The walk makes the attempts of the list of trackers, in order, each with its grant. -/
theorem walk_attempts (lower : IsLowercase shared.toLowercase) (reply : String → TrackerReply)
    (trackers : List String) (lastErr : Option ErrorChain) (stats : ScrapeStats) :
    let outcome := fun t => scrapeHttp reason t infoHash (reply t)
    (shared.walk infoHash insertedAt cache lastErr stats
        (trackers.map fun t => ⟨t, outcome t⟩)).events.filterMap ScrapeEvent.unnamed =
      (trackerAttempts shared.parse infoHash (fun t => scrapeReply shared.toLowercase (outcome t))
        trackers).flatMap Attempt.unnamed := by
  intro outcome
  induction trackers generalizing lastErr stats with
  | nil => rfl
  | cons tracker rest ih =>
    rw [List.map_cons, trackerAttempts]
    split
    next hnot =>
      rw [ScrapeShared.walk]
      dsimp only
      rw [if_pos hnot, ScrapeRun.after, List.filterMap_append, unnamed_granted, ih, List.flatMap_cons]
      simp only [Attempt.unnamed, Option.toList_none, List.map_nil, List.append_nil]
    next hnot =>
      have http : isHttp tracker = true := by simpa using hnot
      rw [walk_cons_unnamed ⟨tracker, outcome tracker⟩ http _ _ _ _ ih]
      dsimp only
      cases hurl : deriveHttpScrapeUrl tracker with
      | none =>
        rw [if_pos (scrapeReply_unasked lower hurl (reply tracker))]
        simp only [requestsTo, hurl, Attempt.unnamed, List.flatMap_cons, Option.toList_none, List.map_nil]
      | some url =>
        simp only [requestsTo, hurl, List.flatMap_cons, Attempt.unnamed, Option.toList_some, List.map_cons,
          List.map_nil]
        cases scrapeReply shared.toLowercase (outcome tracker) <;> rfl

end KeepAt
