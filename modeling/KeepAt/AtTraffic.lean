import KeepAt.PacedGate
import KeepAt.Scan
import KeepAt.TrackerKeys

namespace KeepAt

/-- `Duration::try_from_secs_f64`: to the nearest nanosecond, unless negative or out of range. -/
def tryFromSecsF64 : F64 → Option Duration
  | .fin q _ =>
    let nanos := roundHalfEven (q * 10 ^ 9)
    if q < 0 ∨ nanos ≥ 2 ^ 64 * 10 ^ 9 then none else some nanos.toNat
  | _ => none

/-- The limiter lets everything through unless the rate is a positive number. -/
def limits (perSecond : F64) : Bool := decide (perSecond ≠ .nan) && !decide (perSecond ≤ ((0 : Nat) : F64))

def limiterGap (perSecond : F64) : Duration :=
  (tryFromSecsF64 (((1 : Nat) : F64) / perSecond)).getD (secs (365 * 24 * 3600))

def replaceFirst (old new : List Char) : List Char → List Char
  | [] => []
  | c :: cs =>
    if old.isPrefixOf (c :: cs) then new ++ (c :: cs).drop old.length else c :: replaceFirst old new cs

/-- In the last path segment, `announce` becomes `scrape`. -/
def deriveHttpScrapeUrl (announceUrl : String) : Option String :=
  let chars := announceUrl.toList
  let segment := (chars.reverse.takeWhile (· ≠ '/')).reverse
  if '/' ∉ chars ∨ !containsText (String.ofList segment) "announce" then none
  else
    some (String.ofList (chars.take (chars.length - segment.length) ++
      replaceFirst "announce".toList "scrape".toList segment))

/-- What the HTTP client asks for: what it is told to, or the target that a redirecting answer names. -/
inductive HttpRequest where
  | catalog
  | torrent (hex : String)
  | scrape (tracker scrapeUrl : String) (infoHash : InfoHash)
  | redirected (url : String)
  deriving DecidableEq

/-- One place where the client may be told to send a request: whether it waits for the limiter, and what is then
asked for. Whatever the client sends after it, to follow redirects, is no attempt of its own. -/
structure Attempt where
  limited : Bool
  request : Option HttpRequest
  deriving DecidableEq

/-- The catalog cache: its age, unless its modification time is unknown or ahead of the clock, and what it
parses to. -/
structure CatalogCache where
  age : Option Duration
  catalog : Option (List Item)

def CatalogCache.fresh (c : CatalogCache) (maxAge : Duration) : Bool :=
  !(c.age.map fun a => decide (a > maxAge)).getD true && c.catalog.isSome

inductive ScrapeReply where
  | counts (swarm : SwarmCounts)
  | rateLimited
  | failed
  deriving DecidableEq

/-- What the swarm cache holds of a torrent, and what each tracker would answer. -/
structure SwarmReads where
  cached : Option SwarmCounts
  reply : String → ScrapeReply

/-- The metadata of one torrent, and its swarm. -/
structure Lookup where
  hex : String
  cache : TorrentCache
  fetch : FetchEnv
  swarm : SwarmReads

/-- `rereads` is the cache that the candidate is read from, if it gets as far as being acted on. -/
structure Reprobe where
  lookup : Lookup
  rereads : Option TorrentCache

/-- What a task of the daemon may do that can reach Academic Torrents. -/
inductive Job where
  | loadCatalog (cache : CatalogCache)
  | evaluate (item : Item) (cache : TorrentCache) (fetch : FetchEnv) (now : Time) (swarm : SwarmReads)
  | refreshHeld (held : List Lookup)
  | rereadCandidate (hex : String) (cache : TorrentCache)
  | reprobe (catalog : Option CatalogCache) (lapsed : List Reprobe)

section Attempts

variable (parse : String → Option ParsedUrl) (s : Settings)

/-- `Fetcher::load`, which is not given the limiter. -/
def loadAttempts (cache : CatalogCache) : List Attempt :=
  if cache.fresh s.scan.interval then [] else [⟨false, some .catalog⟩]

def fetchAttempts (cache : TorrentCache) (hex : String) : List Attempt :=
  if ((cache.find hex).bind fun b => s.parseTorrentBytes b.2).isSome then [] else [⟨true, some (.torrent hex)⟩]

def isHttp (tracker : String) : Bool :=
  "http://".toList.isPrefixOf tracker.toList || "https://".toList.isPrefixOf tracker.toList

/-- Trackers in order, until one answers or limits the rate. -/
def trackerAttempts (infoHash : InfoHash) (reply : String → ScrapeReply) : List String → List Attempt
  | [] => []
  | tracker :: rest =>
    let limited := isAtTrackerUrl parse tracker
    if !isHttp tracker then ⟨limited, none⟩ :: trackerAttempts infoHash reply rest
    else
      match deriveHttpScrapeUrl tracker with
      | none => ⟨limited, none⟩ :: trackerAttempts infoHash reply rest
      | some url =>
        ⟨limited, some (.scrape tracker url infoHash)⟩ ::
          match reply tracker with
          | .failed => trackerAttempts infoHash reply rest
          | .counts _ | .rateLimited => []

def scrapeAttempts (swarm : SwarmReads) (trackers : List String) (infoHash : InfoHash) : List Attempt :=
  if swarm.cached.isSome then [] else trackerAttempts parse infoHash swarm.reply trackers

def evaluateAttempts (item : Item) (cache : TorrentCache) (fetch : FetchEnv) (now : Time)
    (swarm : SwarmReads) : List Attempt :=
  fetchAttempts s cache (hexEncode item.infoHash) ++
    match (fetchMetadata s cache (hexEncode item.infoHash) fetch).2 with
    | none => []
    | some md => if !oldEnough s md now then [] else scrapeAttempts parse swarm md.trackers md.infoHash

def lookupAttempts (l : Lookup) : List Attempt :=
  fetchAttempts s l.cache l.hex ++
    match (fetchMetadata s l.cache l.hex l.fetch).2 with
    | none => []
    | some md => scrapeAttempts parse l.swarm md.trackers ((decodeHash l.hex).getD zeroHash)

def reprobeAttempts (p : Reprobe) : List Attempt :=
  lookupAttempts parse s p.lookup ++
    match p.rereads with
    | none => []
    | some cache => fetchAttempts s cache p.lookup.hex

def Job.attempts : Job → List Attempt
  | .loadCatalog cache => loadAttempts s cache
  | .evaluate item cache fetch now swarm => evaluateAttempts parse s item cache fetch now swarm
  | .refreshHeld held => held.flatMap (lookupAttempts parse s)
  | .rereadCandidate hex cache => fetchAttempts s cache hex
  | .reprobe catalog lapsed =>
    (match catalog with
      | none => []
      | some cache => loadAttempts s cache) ++ lapsed.flatMap (reprobeAttempts parse s)

end Attempts

/-- Requests to Academic Torrents. A scrape is one when its tracker is on their hosts, and so is a redirect. -/
def HttpRequest.toAt (parse : String → Option ParsedUrl) : HttpRequest → Bool
  | .catalog => true
  | .torrent _ => true
  | .scrape tracker _ _ => isAtTrackerUrl parse tracker
  | .redirected url => isAtTrackerUrl parse url

/-- How many redirects the HTTP client follows of one request: its default, as the daemon sets no policy. -/
def maxRedirects : Nat := 10

/-- A task in the middle of a job: what it may still send, whether it is through with the limiter for the
first of it, by the grant given, and how many redirects may still be followed of the request that it awaits the
answer of. -/
structure Caller where
  attempts : List Attempt
  waited : Bool
  grant : Option Nat
  awaits : Option Nat

def Caller.idle : Caller := ⟨[], false, none, none⟩

def Caller.begin (attempts : List Attempt) : Caller := ⟨attempts, false, none, none⟩

def Caller.rest (c : Caller) : Caller := .begin c.attempts.tail

structure SentRequest where
  caller : Nat
  request : HttpRequest
  grant : Option Nat
  sentAt : Time

/-- The tasks of one daemon, the limiter they share and every request they have sent. A grant is its position
in the grants of the limiter. -/
structure Traffic where
  limiter : Gate Nat Time
  callers : Nat → Caller
  sent : List SentRequest

namespace Traffic

variable (x : Traffic)

def update (i : Nat) (c : Caller) : Traffic := { x with callers := Function.update x.callers i c }

theorem forall_update {P : Nat → Caller → Prop} {i : Nat} {c : Caller} (hc : P i c)
    (h : ∀ j, j ≠ i → P j (x.callers j)) (j : Nat) : P j ((x.update i c).callers j) := by
  unfold update
  dsimp only
  by_cases hj : j = i
  · subst hj
    rw [Function.update_self]
    exact hc
  · rw [Function.update_of_ne hj]
    exact h j hj

def granted (i : Nat) (limiter : Gate Nat Time) : Traffic :=
  let x' : Traffic := { x with limiter }
  x'.update i { x.callers i with waited := true, grant := some x.limiter.grants.length }

def send (i : Nat) (request : HttpRequest) : Traffic :=
  let x' : Traffic := { x with sent := x.sent ++ [⟨i, request, (x.callers i).grant, x.limiter.clock⟩] }
  x'.update i { (x.callers i).rest with awaits := some maxRedirects }

/-- The client follows a redirect on its own: no code of the daemon runs in between. -/
def follow (i : Nat) (url : String) (left : Nat) : Traffic :=
  let x' : Traffic := { x with sent := x.sent ++ [⟨i, .redirected url, none, x.limiter.clock⟩] }
  x'.update i { x.callers i with awaits := some left }

end Traffic

/-- `Redirects` says which targets the answers of servers may name. -/
inductive TrafficStep (parse : String → Option ParsedUrl) (s : Settings) (Permits : Job → Prop)
    (Redirects : String → Prop) (x : Traffic) : Traffic → Prop
  | start (i : Nat) (job : Job) (free : (x.callers i).attempts = []) (answered : (x.callers i).awaits = none)
      (permitted : Permits job) :
      TrafficStep parse s Permits Redirects x (x.update i (.begin (job.attempts parse s)))
  | pace (limiter : Gate Nat Time)
      (step : GateStep (limiterGap s.scan.rateLimitPerSecond : Time) x.limiter .silent limiter) :
      TrafficStep parse s Permits Redirects x { x with limiter }
  | enter (i : Nat) (a : Attempt) (limiter : Gate Nat Time) (next : (x.callers i).attempts.head? = some a)
      (limited : a.limited = true) (waiting : (x.callers i).waited = false)
      (answered : (x.callers i).awaits = none)
      (step : GateStep (limiterGap s.scan.rateLimitPerSecond : Time) x.limiter (.enter i) limiter) :
      TrafficStep parse s Permits Redirects x { x with limiter }
  | grant (i : Nat) (limiter : Gate Nat Time) (on : limits s.scan.rateLimitPerSecond = true)
      (step : GateStep (limiterGap s.scan.rateLimitPerSecond : Time) x.limiter (.grant i) limiter) :
      TrafficStep parse s Permits Redirects x (x.granted i limiter)
  | unlimited (i : Nat) (limiter : Gate Nat Time) (off : limits s.scan.rateLimitPerSecond = false)
      (step : GateStep (limiterGap s.scan.rateLimitPerSecond : Time) x.limiter (.leave i) limiter) :
      TrafficStep parse s Permits Redirects x
        (Traffic.update { x with limiter } i { x.callers i with waited := true })
  | send (i : Nat) (a : Attempt) (request : HttpRequest) (next : (x.callers i).attempts.head? = some a)
      (asked : a.request = some request) (through : a.limited = true → (x.callers i).waited = true)
      (answered : (x.callers i).awaits = none) :
      TrafficStep parse s Permits Redirects x (x.send i request)
  | follow (i : Nat) (url : String) (left : Nat) (awaits : (x.callers i).awaits = some (left + 1))
      (redirects : Redirects url) : TrafficStep parse s Permits Redirects x (x.follow i url left)
  | answered (i : Nat) : TrafficStep parse s Permits Redirects x (x.update i { x.callers i with awaits := none })
  | skip (i : Nat) (a : Attempt) (next : (x.callers i).attempts.head? = some a) (nothing : a.request = none)
      (through : a.limited = true → (x.callers i).waited = true) (answered : (x.callers i).awaits = none) :
      TrafficStep parse s Permits Redirects x (x.update i (x.callers i).rest)
  | cancel (i : Nat) (outside : x.limiter.holder ≠ some i) :
      TrafficStep parse s Permits Redirects x (x.update i .idle)
  | cancelInside (i : Nat) (limiter : Gate Nat Time)
      (step : GateStep (limiterGap s.scan.rateLimitPerSecond : Time) x.limiter (.leave i) limiter) :
      TrafficStep parse s Permits Redirects x (Traffic.update { x with limiter } i .idle)

/-- A daemon that has sent nothing. -/
structure Traffic.Booted (x : Traffic) : Prop where
  free : x.limiter.turn = none
  ungranted : x.limiter.grants = []
  idle : ∀ i, x.callers i = .idle
  quiet : x.sent = []

end KeepAt
