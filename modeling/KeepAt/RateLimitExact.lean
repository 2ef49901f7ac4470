import KeepAt.ScrapeErrorText
import KeepAt.ScrapePolicy

namespace KeepAt

/-- The grant and the request of a tracker's turn. -/
def askedOf (parse : String → Option ParsedUrl) (infoHash : InfoHash) (tracker : String) : List ScrapeEvent :=
  (if isAtTrackerUrl parse tracker then [.grant tracker] else []) ++ (requestsTo tracker infoHash).map .send

/-- The daemon's walk ends at the tracker with the wait for a rate limit, whatever trackers are left. -/
def BacksOffAt (shared : ScrapeShared) (infoHash : InfoHash) (call : ScrapeCall) : Prop :=
  ∀ insertedAt cache lastErr stats rest, ∃ e stats',
    shared.walk infoHash insertedAt cache lastErr stats (call :: rest) =
      ⟨askedOf shared.parse infoHash call.tracker ++ [.backoff shared.scrapeBackoff], .error e, cache, stats'⟩

/-- The daemon's walk goes on from the tracker to the rest of the list. -/
def MovesOnAt (shared : ScrapeShared) (infoHash : InfoHash) (call : ScrapeCall) : Prop :=
  ∀ insertedAt cache lastErr stats rest, ∃ e stats',
    shared.walk infoHash insertedAt cache lastErr stats (call :: rest) =
      (shared.walk infoHash insertedAt cache (some e) stats' rest).after
        (askedOf shared.parse infoHash call.tracker)

def CensusStopsAt (shared : ScrapeShared) (infoHash : InfoHash) (call : ScrapeCall) : Prop :=
  ∀ lastErr rest, ∃ e, scrapeOneFrom shared.parse shared.toLowercase infoHash lastErr (call :: rest) =
    (askedOf shared.parse infoHash call.tracker, .error ("tracker rate-limited during census" :: e))

def CensusMovesOnAt (shared : ScrapeShared) (infoHash : InfoHash) (call : ScrapeCall) : Prop :=
  ∀ lastErr rest, ∃ e,
    let (events, result) := scrapeOneFrom shared.parse shared.toLowercase infoHash (some e) rest
    scrapeOneFrom shared.parse shared.toLowercase infoHash lastErr (call :: rest) =
      (askedOf shared.parse infoHash call.tracker ++ events, result)

/-- The walks end at the tracker for a rate limit exactly when it answered 429, and go on from any other
failure. -/
structure ExactAt (shared : ScrapeShared) (reason : Nat → String) (infoHash : InfoHash) (tracker : String)
    (reply : TrackerReply) : Prop where
  backsOff : BacksOffAt shared infoHash ⟨tracker, scrapeHttp reason tracker infoHash reply⟩ ↔
    AnsweredTooMany tracker reply
  stops : CensusStopsAt shared infoHash ⟨tracker, scrapeHttp reason tracker infoHash reply⟩ ↔
    AnsweredTooMany tracker reply
  movesOn : isHttp tracker = true → (∀ counts, scrapeHttp reason tracker infoHash reply ≠ some (.ok counts)) →
    ¬AnsweredTooMany tracker reply →
      MovesOnAt shared infoHash ⟨tracker, scrapeHttp reason tracker infoHash reply⟩ ∧
        CensusMovesOnAt shared infoHash ⟨tracker, scrapeHttp reason tracker infoHash reply⟩

/-- The outcome is classified as a rate limit. -/
def LimitedAt (toLowercase : String → String) (call : ScrapeCall) : Prop :=
  isHttp call.tracker = true ∧ ∃ e, call.outcome = some (.error e) ∧ isRateLimited toLowercase e = true

variable {shared : ScrapeShared} {infoHash : InfoHash} {call : ScrapeCall}

theorem LimitedAt.backsOff (h : LimitedAt shared.toLowercase call) : BacksOffAt shared infoHash call := by
  obtain ⟨http, e, houtcome, hlimited⟩ := h
  intro insertedAt cache lastErr stats rest
  simp only [ScrapeShared.walk, http, houtcome, hlimited, Bool.not_true, Bool.false_eq_true, if_false, if_true]
  exact ⟨_, _, rfl⟩

theorem LimitedAt.stops (h : LimitedAt shared.toLowercase call) : CensusStopsAt shared infoHash call := by
  obtain ⟨http, e, houtcome, hlimited⟩ := h
  intro lastErr rest
  simp only [scrapeOneFrom, http, houtcome, hlimited, Bool.not_true, Bool.false_eq_true, if_false, if_true]
  exact ⟨_, rfl⟩

theorem movesOn_of_not_limited (http : isHttp call.tracker = true)
    (failed : ∀ counts, call.outcome ≠ some (.ok counts)) (h : ¬LimitedAt shared.toLowercase call) :
    MovesOnAt shared infoHash call ∧ CensusMovesOnAt shared infoHash call := by
  rcases houtcome : call.outcome with _ | e | counts
  · constructor
    · intro insertedAt cache lastErr stats rest
      simp only [ScrapeShared.walk, http, houtcome, Bool.not_true, Bool.false_eq_true, if_false]
      exact ⟨_, _, rfl⟩
    · intro lastErr rest
      simp only [scrapeOneFrom, http, houtcome, Bool.not_true, Bool.false_eq_true, if_false]
      exact ⟨_, rfl⟩
  · have hunlimited : isRateLimited shared.toLowercase e = false :=
      Bool.eq_false_iff.mpr fun hlimited => h ⟨http, e, houtcome, hlimited⟩
    constructor
    · intro insertedAt cache lastErr stats rest
      simp only [ScrapeShared.walk, http, houtcome, hunlimited, Bool.not_true, Bool.false_eq_true, if_false]
      exact ⟨_, _, rfl⟩
    · intro lastErr rest
      simp only [scrapeOneFrom, http, houtcome, hunlimited, Bool.not_true, Bool.false_eq_true, if_false]
      exact ⟨_, rfl⟩
  · exact absurd houtcome (failed counts)

/-- A tracker that answers with counts. -/
def answering : ScrapeCall := ⟨"http://t/announce", some (.ok ⟨0, 0, 0⟩)⟩

theorem walk_answering (shared : ScrapeShared) (infoHash : InfoHash) (insertedAt : Time) (cache : SwarmCache)
    (lastErr : Option ErrorChain) (stats : ScrapeStats) :
    (shared.walk infoHash insertedAt cache lastErr stats [answering]).result = .ok ⟨0, 0, 0⟩ := by
  have http : isHttp "http://t/announce" = true := by decide
  simp only [ScrapeShared.walk, answering, http, Bool.not_true, Bool.false_eq_true, if_false]

/-- A walk that is not limited at a tracker reaches one that answers, unless it has succeeded before. -/
theorem walk_reaches_answering (h : ¬LimitedAt shared.toLowercase call) (infoHash : InfoHash)
    (insertedAt : Time) (cache : SwarmCache) (lastErr : Option ErrorChain) (stats : ScrapeStats) :
    ∃ counts, (shared.walk infoHash insertedAt cache lastErr stats [call, answering]).result = .ok counts := by
  by_cases http : isHttp call.tracker = true
  · by_cases hok : ∃ counts, call.outcome = some (.ok counts)
    · obtain ⟨counts, houtcome⟩ := hok
      rw [ScrapeShared.walk]
      simp only [http, houtcome, Bool.not_true, Bool.false_eq_true, if_false]
      exact ⟨counts, rfl⟩
    · obtain ⟨hmoves, -⟩ := movesOn_of_not_limited http (fun counts hc => hok ⟨counts, hc⟩) h
      obtain ⟨e, stats', hwalk⟩ := hmoves insertedAt cache lastErr stats [answering]
      rw [hwalk]
      exact ⟨_, walk_answering shared infoHash insertedAt cache (some e) stats'⟩
  · rw [ScrapeShared.walk]
    simp only [Bool.eq_false_iff.mpr http, Bool.not_false, if_true]
    exact ⟨_, walk_answering shared infoHash insertedAt cache lastErr stats⟩

theorem backsOffAt_iff : BacksOffAt shared infoHash call ↔ LimitedAt shared.toLowercase call := by
  refine ⟨fun h => by_contra fun hlimited => ?_, LimitedAt.backsOff⟩
  obtain ⟨counts, hok⟩ := walk_reaches_answering hlimited infoHash 0 ⟨0, fun _ => none⟩ none ⟨0, 0⟩
  obtain ⟨e, stats', hwalk⟩ := h 0 ⟨0, fun _ => none⟩ none ⟨0, 0⟩ [answering]
  rw [hwalk] at hok
  cases hok

theorem censusStopsAt_iff : CensusStopsAt shared infoHash call ↔ LimitedAt shared.toLowercase call := by
  refine ⟨fun h => by_contra fun hlimited => ?_, LimitedAt.stops⟩
  obtain ⟨counts, hok⟩ := walk_reaches_answering hlimited infoHash 0 ⟨0, fun _ => none⟩ none ⟨0, 0⟩
  obtain ⟨e, hcensus⟩ := h none [answering]
  have hfound := ((walk_agrees [call, answering] none ⟨0, 0⟩).result counts).mp hok
  rw [hcensus] at hfound
  cases hfound

theorem limitedAt_iff {reason : Nat → String} (lower : IsLowercase shared.toLowercase)
    (reasons : ∀ code, code ≠ 429 → ¬Marked (reason code).toList) (infoHash : InfoHash) (tracker : String)
    (reply : TrackerReply) :
    LimitedAt shared.toLowercase ⟨tracker, scrapeHttp reason tracker infoHash reply⟩ ↔
      AnsweredTooMany tracker reply ∨ ¬UnmarkedScrape tracker reply := by
  have hmarked : LimitedAt shared.toLowercase ⟨tracker, scrapeHttp reason tracker infoHash reply⟩ ↔
      isHttp tracker = true ∧ MarkedScrape reason tracker infoHash reply :=
    and_congr_right fun _ => exists_congr fun e => and_congr_right fun _ => isRateLimited_iff lower e
  rw [hmarked]
  by_cases http : isHttp tracker = true
  · rw [markedScrape_iff http reasons]
    exact and_iff_right http
  · refine iff_of_false (fun h => http h.1) ?_
    rintro (h | h)
    · exact http h.1
    · exact h fun h' => absurd h' http

theorem isLowercase_toLower : IsLowercase fun t => t.map Char.toLower := by
  intro t
  refine ⟨t.toList.map fun c => [c.toLower], ?_, ?_⟩
  · rw [List.forall₂_map_right_iff]
    refine List.forall₂_same.mpr fun c _ => ⟨List.cons_ne_nil _ _, fun _ => rfl, fun hother d hd hascii => ?_⟩
    rw [List.mem_singleton.mp hd, toLower_of_nonAscii hother] at hascii
    exact absurd hascii (Nat.not_lt.mpr hother)
  · rw [String.toList_map, ← List.flatMap_def, List.map_eq_flatMap]

/-- The classification is exact as long as nothing that an error of the scrape shows, the URL or the text of
another error, reads as one about a rate limit, unless the tracker answered 429. -/
theorem rate_limit_exact_iff (shared : ScrapeShared) (reason : Nat → String) (infoHash : InfoHash)
    (tracker : String) (reply : TrackerReply) (lower : IsLowercase shared.toLowercase)
    (reasons : ∀ code, code ≠ 429 → ¬Marked (reason code).toList) :
    ExactAt shared reason infoHash tracker reply ↔ UnmarkedScrape tracker reply := by
  have hlimited := limitedAt_iff lower reasons infoHash tracker reply
  constructor
  · intro h
    by_contra hunmarked
    have hanswered := h.backsOff.mp (backsOffAt_iff.mpr (hlimited.mpr (Or.inr hunmarked)))
    exact hunmarked hanswered.unmarked
  · intro h
    rw [or_iff_left (not_not.mpr h)] at hlimited
    exact ⟨backsOffAt_iff.trans hlimited, censusStopsAt_iff.trans hlimited, fun http failed hnot =>
      movesOn_of_not_limited http failed fun hl => hnot (hlimited.mp hl)⟩

namespace Reference

def notFound : StatusCode where
  code := 404
  threeDigits := by decide

/-- The phrases of two statuses, and the one for any that has none. -/
def reasonPhrase (code : Nat) : String :=
  if code = 404 then "Not Found" else if code = 429 then "Too Many Requests" else "<unknown status code>"

theorem reasonPhrase_unmarked {code : Nat} (h : code ≠ 429) : ¬Marked (reasonPhrase code).toList := by
  unfold reasonPhrase
  rw [if_neg h]
  split <;> decide

end Reference

open Reference in
theorem rate_limit_exact_iff_one :
    ExactAt scrapeShared reasonPhrase hashA "http://t/announce" (.answered notFound (.ok (.error ""))) := by
  refine (rate_limit_exact_iff scrapeShared reasonPhrase hashA _ _ isLowercase_toLower
    fun _ => reasonPhrase_unmarked).mpr fun _ scrapeUrl hurl => Or.inr ?_
  rw [← Option.some.inj hurl]
  decide

open Reference in
/-- On a port that holds the number, a page not found passes for a rate limit. -/
theorem port_passes_for_limit : ¬ExactAt scrapeShared reasonPhrase hashA "http://tracker:4290/announce"
    (.answered notFound (.ok (.error ""))) := by
  intro h
  have hlimited : LimitedAt scrapeShared.toLowercase ⟨"http://tracker:4290/announce",
      scrapeHttp reasonPhrase "http://tracker:4290/announce" hashA (.answered notFound (.ok (.error "")))⟩ :=
    ⟨by decide, ["scrape http://tracker:4290/scrape returned 404 Not Found"], by decide,
      by decide⟩
  obtain ⟨-, -, status, body, hreply, hcode⟩ := h.backsOff.mp hlimited.backsOff
  cases hreply
  exact absurd hcode (by decide)

end KeepAt
