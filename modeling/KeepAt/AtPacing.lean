import KeepAt.AtTraffic

namespace KeepAt

variable {parse : String → Option ParsedUrl} {s : Settings}

/-- Every catalog load of the job finds its cache fresh. -/
def Job.CatalogCached (s : Settings) : Job → Prop
  | .loadCatalog cache => cache.fresh s.scan.interval = true
  | .reprobe (some cache) _ => cache.fresh s.scan.interval = true
  | _ => True

/-- What is asked of Academic Torrents without the limiter: the catalog, and whatever an answer redirects to them. -/
def HttpRequest.Ungranted (parse : String → Option ParsedUrl) : HttpRequest → Prop
  | .catalog => True
  | .redirected url => isAtTrackerUrl parse url = true
  | _ => False

theorem HttpRequest.Ungranted.toAt {request : HttpRequest} (h : request.Ungranted parse) :
    request.toAt parse = true := by
  cases request with
  | catalog => rfl
  | redirected url => exact h
  | torrent hex => rfl
  | scrape tracker scrapeUrl infoHash => exact False.elim h

/-- Whatever the attempt asks of Academic Torrents waits for the limiter. -/
structure Attempt.Paced (parse : String → Option ParsedUrl) (a : Attempt) : Prop where
  limited : ∀ request, a.request = some request → request.toAt parse = true → a.limited = true
  other : ∀ request, a.request = some request → ¬request.Ungranted parse

theorem Attempt.Paced.of_none {a : Attempt} (h : a.request = none) : a.Paced parse := by
  constructor <;> rw [h] <;> exact nofun

theorem Attempt.Paced.of_some {request : HttpRequest} {limited : Bool}
    (paced : request.toAt parse = true → limited = true) (other : ¬request.Ungranted parse) :
    Attempt.Paced parse ⟨limited, some request⟩ := by
  constructor
  · rintro _ ⟨⟩
    exact paced
  · rintro _ ⟨⟩
    exact other

theorem fetchAttempts_paced {cache : TorrentCache} {hex : String} :
    ∀ a ∈ fetchAttempts s cache hex, a.Paced parse := by
  intro a ha
  unfold fetchAttempts at ha
  split at ha
  next => cases ha
  next =>
    obtain rfl := List.mem_singleton.mp ha
    exact .of_some (fun _ => rfl) id

theorem trackerAttempts_paced {infoHash : InfoHash} {reply : String → ScrapeReply} {trackers : List String} :
    ∀ a ∈ trackerAttempts parse infoHash reply trackers, a.Paced parse := by
  induction trackers with
  | nil => exact nofun
  | cons tracker rest ih =>
    have hnone : ∀ a ∈ ⟨isAtTrackerUrl parse tracker, none⟩ :: trackerAttempts parse infoHash reply rest,
        a.Paced parse := by
      intro a ha
      rcases List.mem_cons.mp ha with rfl | ha
      · exact .of_none rfl
      · exact ih a ha
    unfold trackerAttempts
    dsimp only
    split
    next => exact hnone
    next =>
      split
      next => exact hnone
      next url _ =>
        intro a ha
        rcases List.mem_cons.mp ha with rfl | ha
        · exact .of_some id id
        · split at ha
          next => exact ih a ha
          next => cases ha
          next => cases ha

theorem scrapeAttempts_paced {swarm : SwarmReads} {trackers : List String} {infoHash : InfoHash} :
    ∀ a ∈ scrapeAttempts parse swarm trackers infoHash, a.Paced parse := by
  unfold scrapeAttempts
  split
  next => exact nofun
  next => exact trackerAttempts_paced

theorem evaluateAttempts_paced {item : Item} {cache : TorrentCache} {fetch : FetchEnv} {now : Time}
    {swarm : SwarmReads} : ∀ a ∈ evaluateAttempts parse s item cache fetch now swarm, a.Paced parse := by
  intro a ha
  rcases List.mem_append.mp ha with ha | ha
  · exact fetchAttempts_paced a ha
  · split at ha
    next => cases ha
    next =>
      split at ha
      next => cases ha
      next => exact scrapeAttempts_paced a ha

theorem lookupAttempts_paced {l : Lookup} : ∀ a ∈ lookupAttempts parse s l, a.Paced parse := by
  intro a ha
  rcases List.mem_append.mp ha with ha | ha
  · exact fetchAttempts_paced a ha
  · split at ha
    next => cases ha
    next => exact scrapeAttempts_paced a ha

theorem reprobeAttempts_paced {p : Reprobe} : ∀ a ∈ reprobeAttempts parse s p, a.Paced parse := by
  intro a ha
  rcases List.mem_append.mp ha with ha | ha
  · exact lookupAttempts_paced a ha
  · split at ha
    next => cases ha
    next => exact fetchAttempts_paced a ha

def catalogAttempt : Attempt := ⟨false, some .catalog⟩

/-- What the client does to follow a redirect, as an attempt: one that never waits. -/
def followAttempt (url : String) : Attempt := ⟨false, some (.redirected url)⟩

theorem followAttempt_paced {url : String} (elsewhere : isAtTrackerUrl parse url = false) :
    (followAttempt url).Paced parse :=
  .of_some (fun hat => absurd hat (Bool.eq_false_iff.mp elsewhere)) (Bool.eq_false_iff.mp elsewhere)

theorem mem_loadAttempts {cache : CatalogCache} {a : Attempt} (h : a ∈ loadAttempts s cache) :
    a = catalogAttempt ∧ cache.fresh s.scan.interval = false := by
  unfold loadAttempts at h
  split at h
  next => cases h
  next hstale => exact ⟨List.mem_singleton.mp h, Bool.eq_false_iff.mpr hstale⟩

/-- The catalog is the one thing that a job asks for without waiting. -/
theorem job_paced {job : Job} {a : Attempt} (ha : a ∈ job.attempts parse s) :
    a.Paced parse ∨ a = catalogAttempt ∧ ¬job.CatalogCached s := by
  cases job with
  | loadCatalog cache =>
    obtain ⟨rfl, hstale⟩ := mem_loadAttempts ha
    exact Or.inr ⟨rfl, Bool.eq_false_iff.mp hstale⟩
  | evaluate item cache fetch now swarm => exact Or.inl (evaluateAttempts_paced a ha)
  | refreshHeld held =>
    obtain ⟨l, -, hl⟩ := List.mem_flatMap.mp ha
    exact Or.inl (lookupAttempts_paced a hl)
  | rereadCandidate hex cache => exact Or.inl (fetchAttempts_paced a ha)
  | reprobe catalog lapsed =>
    rcases List.mem_append.mp ha with ha | ha
    · cases catalog with
      | none => cases ha
      | some cache =>
        obtain ⟨rfl, hstale⟩ := mem_loadAttempts ha
        exact Or.inr ⟨rfl, Bool.eq_false_iff.mp hstale⟩
    · obtain ⟨p, -, hp⟩ := List.mem_flatMap.mp ha
      exact Or.inl (reprobeAttempts_paced a hp)

end KeepAt
