import KeepAt.AtTraffic

namespace KeepAt

/-- The texts of an error and of its causes, from the outermost in. -/
abbrev ErrorChain := List String

/-- An error on one line, as `{e:#}` writes it. -/
def errorText (e : ErrorChain) : String := String.ofList (List.intercalate ": ".toList (e.map String.toList))

def isRateLimited (toLowercase : String → String) (e : ErrorChain) : Bool :=
  containsText (errorText e) "429" || containsText (toLowercase (errorText e)) "too many requests"

structure StatusCode where
  code : Nat
  threeDigits : 100 ≤ code ∧ code < 1000
  deriving DecidableEq

def StatusCode.isSuccess (status : StatusCode) : Bool := decide (200 ≤ status.code ∧ status.code < 300)

/-- The number of a status and its reason phrase, which the HTTP library has. -/
def StatusCode.text (reason : Nat → String) (status : StatusCode) : String :=
  toString status.code ++ " " ++ reason status.code

inductive Bencode where
  | bytes (b : List UInt8)
  | integer (i : Int)
  | list (xs : List Bencode)
  | dict (entries : List (List UInt8 × Bencode))

def bencodeKey (name : String) : List UInt8 := name.toList.map fun c => UInt8.ofNat c.toNat

def bencodeGet (entries : List (List UInt8 × Bencode)) (name : String) : Option Bencode :=
  (entries.find? fun e => decide (e.1 = bencodeKey name)).map Prod.snd

/-- A count that is missing, or out of range, is zero. -/
def scrapeCount (entry : List (List UInt8 × Bencode)) (name : String) : Nat :=
  match bencodeGet entry name with
  | some (.integer i) => if 0 ≤ i ∧ i ≤ u32Max then i.toNat else 0
  | _ => 0

/-- The body is given as the bencode parser reads it, or as the error that it reports. -/
def decodeScrapeResponse (body : Except String Bencode) (infoHash : InfoHash) :
    Except ErrorChain SwarmCounts :=
  match body with
  | .error text => .error ["decoding scrape response: " ++ text]
  | .ok (.dict top) =>
    match bencodeGet top "files" with
    | some (.dict files) =>
      let counts := files.findSome? fun f =>
        if f.1 ≠ infoHash.bytes then none
        else
          match f.2 with
          | .dict entry =>
            some { seeders := scrapeCount entry "complete", completed := scrapeCount entry "downloaded",
                   leechers := scrapeCount entry "incomplete" }
          | _ => none
      match counts with
      | some counts => .ok counts
      | none => .error ["scrape response had no entry for the requested hash"]
    | _ => .error ["scrape response has no files dict"]
  | .ok _ => .error ["scrape response is not a dict"]

/-- What becomes of a request to a tracker: the timeout, an error on the way, or an answer whose body may
fail to arrive. -/
inductive TrackerReply where
  | timedOut
  | unsent (causes : ErrorChain)
  | answered (status : StatusCode) (body : Except ErrorChain (Except String Bencode))

/-- The scrape of one tracker under its timeout, `none` when that expires. -/
def scrapeHttp (reason : Nat → String) (announceUrl : String) (infoHash : InfoHash) (reply : TrackerReply) :
    Option (Except ErrorChain SwarmCounts) :=
  match deriveHttpScrapeUrl announceUrl with
  | none => some (.error ["tracker does not follow the announce/scrape URL convention"])
  | some scrapeUrl =>
    match reply with
    | .timedOut => none
    | .unsent causes => some (.error (("scrape request to " ++ scrapeUrl) :: causes))
    | .answered status body =>
      if !status.isSuccess then
        some (.error ["scrape " ++ scrapeUrl ++ " returned " ++ status.text reason])
      else
        match body with
        | .error causes => some (.error ("reading scrape response" :: causes))
        | .ok body => some (decodeScrapeResponse body infoHash)

def requestsTo (announceUrl : String) (infoHash : InfoHash) : List HttpRequest :=
  (deriveHttpScrapeUrl announceUrl).toList.map fun scrapeUrl => .scrape announceUrl scrapeUrl infoHash

structure CachedSwarm where
  counts : SwarmCounts
  cachedAt : Time
  deriving DecidableEq

structure SwarmCache where
  ttl : Duration
  entries : InfoHash → Option CachedSwarm

def durationMax : Duration := 2 ^ 64 * 10 ^ 9 - 1

/-- An entry from the future is as old as can be. -/
def CachedSwarm.age (e : CachedSwarm) (now : Time) : Duration :=
  if now - e.cachedAt < 0 then durationMax else (now - e.cachedAt).toNat

namespace SwarmCache

variable (cache : SwarmCache) (infoHash : InfoHash)

def get (now : Time) : Option SwarmCounts :=
  match cache.entries infoHash with
  | none => none
  | some e => if e.age now > cache.ttl then none else some e.counts

def insert (counts : SwarmCounts) (now : Time) : SwarmCache :=
  { cache with entries := Function.update cache.entries infoHash (some ⟨counts, now⟩) }

end SwarmCache

/-- A tracker of a list, and what its scrape comes to. -/
structure ScrapeCall where
  tracker : String
  outcome : Option (Except ErrorChain SwarmCounts)

/-- What a walk over trackers does that others see: grants that it takes of the limiter, requests, and the
wait after a rate limit. -/
inductive ScrapeEvent where
  | grant (tracker : String)
  | send (request : HttpRequest)
  | backoff (wait : Duration)
  deriving DecidableEq

structure ScrapeStats where
  scrapeCached : Nat
  scrapeRequests : Nat
  deriving DecidableEq

/-- What the daemon's scrapes share. `shutdown` is whether a shutdown ends the wait after a rate limit. -/
structure ScrapeShared where
  parse : String → Option ParsedUrl
  toLowercase : String → String
  scrapeBackoff : Duration
  shutdown : Bool

structure ScrapeRun where
  events : List ScrapeEvent
  result : Except ErrorChain SwarmCounts
  cache : SwarmCache
  stats : ScrapeStats

def ScrapeRun.after (run : ScrapeRun) (events : List ScrapeEvent) : ScrapeRun :=
  { run with events := events ++ run.events }

/-- The loop of `scrapeSwarmCached` from some tracker on. -/
def ScrapeShared.walk (shared : ScrapeShared) (infoHash : InfoHash) (insertedAt : Time) (cache : SwarmCache)
    (lastErr : Option ErrorChain) (stats : ScrapeStats) : List ScrapeCall → ScrapeRun
  | [] => ⟨[], .error (lastErr.getD ["no tracker returned scrape data"]), cache, stats⟩
  | call :: rest =>
    let granted := if isAtTrackerUrl shared.parse call.tracker then [.grant call.tracker] else []
    if !isHttp call.tracker then (walk shared infoHash insertedAt cache lastErr stats rest).after granted
    else
      let stats := { stats with scrapeRequests := stats.scrapeRequests + 1 }
      let asked := granted ++ (requestsTo call.tracker infoHash).map .send
      match call.outcome with
      | some (.ok counts) => ⟨asked, .ok counts, cache.insert infoHash counts insertedAt, stats⟩
      | some (.error e) =>
        if isRateLimited shared.toLowercase e then
          let err := if shared.shutdown then "scan interrupted by shutdown" else "tracker rate-limited"
          ⟨asked ++ [.backoff shared.scrapeBackoff], .error [err], cache, stats⟩
        else (walk shared infoHash insertedAt cache (some e) stats rest).after asked
      | none => (walk shared infoHash insertedAt cache (some ["scrape timed out"]) stats rest).after asked

/-- The daemon's scrape, with the clock as it is read for the cache and for what it stores there. -/
def scrapeSwarmCached (shared : ScrapeShared) (cache : SwarmCache) (stats : ScrapeStats)
    (readAt insertedAt : Time) (trackers : List ScrapeCall) (infoHash : InfoHash) : ScrapeRun :=
  match cache.get infoHash readAt with
  | some hit => ⟨[], .ok hit, cache, { stats with scrapeCached := stats.scrapeCached + 1 }⟩
  | none => shared.walk infoHash insertedAt cache none stats trackers

/-- The loop of the census's `scrape_one` from some tracker on. -/
def scrapeOneFrom (parse : String → Option ParsedUrl) (toLowercase : String → String) (infoHash : InfoHash)
    (lastErr : Option ErrorChain) : List ScrapeCall → List ScrapeEvent × Except ErrorChain SwarmCounts
  | [] => ([], .error (lastErr.getD ["no tracker returned scrape data"]))
  | call :: rest =>
    let granted := if isAtTrackerUrl parse call.tracker then [.grant call.tracker] else []
    if !isHttp call.tracker then
      let (events, result) := scrapeOneFrom parse toLowercase infoHash lastErr rest
      (granted ++ events, result)
    else
      let asked := granted ++ (requestsTo call.tracker infoHash).map .send
      match call.outcome with
      | some (.ok counts) => (asked, .ok counts)
      | some (.error e) =>
        if isRateLimited toLowercase e then (asked, .error ("tracker rate-limited during census" :: e))
        else
          let (events, result) := scrapeOneFrom parse toLowercase infoHash (some e) rest
          (asked ++ events, result)
      | none =>
        let (events, result) := scrapeOneFrom parse toLowercase infoHash (some ["scrape timed out"]) rest
        (asked ++ events, result)

def scrapeOne (parse : String → Option ParsedUrl) (toLowercase : String → String)
    (trackers : List ScrapeCall) (infoHash : InfoHash) : List ScrapeEvent × Except ErrorChain SwarmCounts :=
  scrapeOneFrom parse toLowercase infoHash none trackers

end KeepAt
