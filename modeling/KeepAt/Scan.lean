import KeepAt.Process

namespace KeepAt

structure Item where
  title : String
  infoHash : InfoHash
  description : String
  sizeBytes : Nat
  deriving DecidableEq

structure KeywordBlocklist where
  keywords : List String
  deriving DecidableEq

def KeywordBlocklist.new (toLowercase : String → String) (keywords : List String) : KeywordBlocklist :=
  ⟨(keywords.map toLowercase).filter fun k => decide (k ≠ "")⟩

def containsText (text needle : String) : Bool := decide (needle.toList <:+: text.toList)

/-- The first keyword that occurs in the title or the description. -/
def KeywordBlocklist.blocks (b : KeywordBlocklist) (toLowercase : String → String)
    (title description : String) : Option String :=
  if b.keywords.isEmpty then none
  else b.keywords.find? fun k =>
    containsText (toLowercase title) k || containsText (toLowercase description) k

def Settings.blocklist (s : Settings) : KeywordBlocklist :=
  .new s.toLowercase s.cfg.config.keywordBlocklist

/-- Why a catalog item is not a pending candidate. -/
inductive Prefilter where
  | held
  | blocked
  | tooBig
  | pending
  deriving DecidableEq

def prefilterReason (s : Settings) (held : List String) (item : Item) : Prefilter :=
  if hexEncode item.infoHash ∈ held then .held
  else if (s.blocklist.blocks s.toLowercase item.title item.description).isSome then .blocked
  else if maxFittableSize s > 0 ∧ item.sizeBytes > maxFittableSize s then .tooBig
  else .pending

structure Evaluated where
  title : String
  infoHash : InfoHash
  sizeBytes : Nat
  pieceCount : Nat
  seeders : Nat
  leechers : Nat
  deriving DecidableEq

structure EvaluateEnv where
  fetch : FetchEnv
  now : Time
  scrape : List String → InfoHash → Option SwarmCounts

/-- A torrent of unknown age is not old enough. -/
def oldEnough (s : Settings) (md : TorrentMeta) (now : Time) : Bool :=
  match md.createdAt with
  | none => false
  | some created => decide ((toStd (now - created)).getD 0 ≥ s.scan.moderationDelay)

/-- Metadata by the listed hash, then age and swarm. The result carries the hash of the metadata. -/
def evaluateOneItem (s : Settings) (cache : TorrentCache) (item : Item) (env : EvaluateEnv) :
    TorrentCache × Option Evaluated :=
  let (cache, metadata) := fetchMetadata s cache (hexEncode item.infoHash) env.fetch
  match metadata with
  | none => (cache, none)
  | some md =>
    if !oldEnough s md env.now then (cache, none)
    else
      (cache, (env.scrape md.trackers md.infoHash).map fun swarm =>
        { title := item.title, infoHash := md.infoHash, sizeBytes := md.totalLength,
          pieceCount := md.pieceCount, seeders := swarm.seeders, leechers := swarm.leechers })

def Evaluated.candidate (ev : Evaluated) (seederFloor : Nat) : Candidate :=
  { infoHash := ev.infoHash, title := ev.title, sizeBytes := ev.sizeBytes, pieceCount := ev.pieceCount,
    seeders := ev.seeders, leechers := ev.leechers, seederFloor }

def evaluateConcurrency : Nat := 16

/-- The most urgent of everything evaluated so far, as many as the node may hold. -/
def actWindow (s : Settings) (batch : List Evaluated) (seederFloor : Nat) : List Candidate :=
  let ranked := rankCandidates s.powf (batch.map (Evaluated.candidate · seederFloor)) s.sizeBias s.peerLimit
  ranked.take (min s.maxTorrents ranked.length)

/-- A scan after its maintenance. `window` is what is left of the window being acted on. `admitted`
lists every add so far: the hash it is booked under, and that of the bytes the session was given. -/
structure ScanState where
  engine : Engine
  unevaluated : List Item
  channel : List Evaluated
  batch : List Evaluated
  window : List Candidate
  acted : List String
  heldCount : Nat
  finishing : Bool
  admitted : List (String × Option InfoHash)

structure ScanEnv where
  reconcile : ReconcileEnv
  refresh : RefreshEnv
  interrupted : Bool
  stall : StallEnv

def catalogHashes (items : List Item) : List String := items.map fun item => hexEncode item.infoHash

def heldHashes (e : Engine) : List String := e.state.all.map Torrent.infoHash

/-- The maintenance of a scan over its catalog, and the items then left to evaluate: those pending
against what was held before. An interrupted scan stops after the refresh. -/
def beginScan (s : Settings) (e : Engine) (items : List Item) (env : ScanEnv) : ScanState :=
  let catalog := catalogHashes items
  let refreshed := refreshHeldSeederCounts s (reconcile s e catalog env.reconcile) env.refresh
  if env.interrupted then ⟨refreshed, [], [], [], [], [], refreshed.state.torrents.size, true, []⟩
  else
    let evicted := evictStalledTorrents s refreshed catalog env.stall
    let pending := items.filter fun item => prefilterReason s (heldHashes e) item = .pending
    ⟨evicted, pending, [], [], [], [], evicted.state.torrents.size, false, []⟩

def bytesHash (s : Settings) (cache : TorrentCache) (hex : String) : Option InfoHash :=
  ((cache.find hex).bind fun b => s.parseTorrentBytes b.2).map TorrentMeta.infoHash

def Event.addedHash : Event → Option String
  | .add _ hash _ _ _ _ _ _ _ _ _ _ => some hash
  | .remove _ _ _ _ _ _ _ _ => none

namespace ScanState

def evaluate (s : Settings) (x : ScanState) (item : Item) (env : EvaluateEnv) : ScanState :=
  let (torrentCache, result) := evaluateOneItem s x.engine.torrentCache item env
  { x with
    engine := { x.engine with torrentCache }
    unevaluated := x.unevaluated.erase item
    channel := x.channel ++ result.toList }

/-- Every sixteenth arrival opens a window over everything evaluated so far. -/
def receive (s : Settings) (seederFloor : Nat) (x : ScanState) (ev : Evaluated) (rest : List Evaluated) :
    ScanState :=
  let batch := x.batch ++ [ev]
  { x with
    channel := rest
    batch
    window := if batch.length % evaluateConcurrency = 0 then actWindow s batch seederFloor else [] }

def act (s : Settings) (seederFloor : Nat) (x : ScanState) (c : Candidate) (rest : List Candidate)
    (env : ActEnv) : ScanState :=
  if hexEncode c.infoHash ∈ x.acted then { x with window := rest }
  else
    let r := actOnCandidate s x.engine c x.heldCount seederFloor env
    let added := (r.1.history.drop x.engine.history.length).filterMap Event.addedHash
    { x with
      engine := r.1
      heldCount := r.2
      window := rest
      acted := hexEncode c.infoHash :: x.acted
      admitted := x.admitted ++ added.map fun hex =>
        (hex, bytesHash s (fetched s x.engine c env).torrentCache hex) }

/-- The walk is over: a last window, unless the last arrival just opened one. -/
def finish (s : Settings) (seederFloor : Nat) (x : ScanState) : ScanState :=
  { x with
    finishing := true
    window := if x.batch.length % evaluateConcurrency = 0 then [] else actWindow s x.batch seederFloor }

end ScanState

/-- A step of a scan: one evaluation, in whatever order the workers get to it, or the acting side
taking its next turn. A scan may be interrupted after any of them. `Reads` says which metadata a read
for a hash may find. -/
inductive ScanStep (s : Settings) (seederFloor : Nat) (Reads : String → TorrentMeta → Prop) :
    ScanState → ScanState → Prop
  | evaluate (x : ScanState) (item : Item) (env : EvaluateEnv) (pending : item ∈ x.unevaluated)
      (reads : ∀ md, (fetchMetadata s x.engine.torrentCache (hexEncode item.infoHash) env.fetch).2 =
        some md → Reads (hexEncode item.infoHash) md) :
      ScanStep s seederFloor Reads x (x.evaluate s item env)
  | receive (x : ScanState) (ev : Evaluated) (rest : List Evaluated) (idle : x.window = [])
      (open_ : x.finishing = false) (arrived : x.channel = ev :: rest) :
      ScanStep s seederFloor Reads x (x.receive s seederFloor ev rest)
  | act (x : ScanState) (c : Candidate) (rest : List Candidate) (env : ActEnv)
      (next : x.window = c :: rest)
      (reads : ∀ md, (fetchMetadata s x.engine.torrentCache (hexEncode c.infoHash) env.fetch).2 =
        some md → Reads (hexEncode c.infoHash) md) :
      ScanStep s seederFloor Reads x (x.act s seederFloor c rest env)
  | rehash (x : ScanState) (ts : List Torrent) (h : ts.Perm x.engine.state.torrents.values) :
      ScanStep s seederFloor Reads x
        { x with engine := { x.engine with state := x.engine.state.rehash ts h } }
  | finish (x : ScanState) (idle : x.window = []) (open_ : x.finishing = false)
      (walked : x.unevaluated = []) (drained : x.channel = []) :
      ScanStep s seederFloor Reads x (x.finish s seederFloor)

def AnyRead (_ : String) (_ : TorrentMeta) : Prop := True

theorem mem_actWindow {s : Settings} {seederFloor : Nat} {batch : List Evaluated} {c : Candidate}
    (h : c ∈ actWindow s batch seederFloor) : ∃ ev ∈ batch, ev.candidate seederFloor = c := by
  have hranked := List.mem_of_mem_take h
  rw [rankCandidates, List.mem_insertionSort] at hranked
  exact List.mem_map.mp (List.mem_of_mem_filter hranked)

/-- A received entry opens a window of candidates evaluated so far. -/
theorem ScanState.mem_receive_window {s : Settings} {seederFloor : Nat} {x : ScanState} {ev : Evaluated}
    {rest : List Evaluated} {c : Candidate} (h : c ∈ (x.receive s seederFloor ev rest).window) :
    ∃ w ∈ x.batch ++ [ev], w.candidate seederFloor = c := by
  simp only [ScanState.receive] at h
  split at h
  next => exact mem_actWindow h
  next => cases h

theorem ScanState.mem_finish_window {s : Settings} {seederFloor : Nat} {x : ScanState} {c : Candidate}
    (h : c ∈ (x.finish s seederFloor).window) : ∃ w ∈ x.batch, w.candidate seederFloor = c := by
  simp only [ScanState.finish] at h
  split at h
  next => cases h
  next => exact mem_actWindow h

theorem actWindow_nil (s : Settings) (seederFloor : Nat) : actWindow s [] seederFloor = [] := by
  refine List.eq_nil_iff_forall_not_mem.mpr fun c hc => ?_
  obtain ⟨ev, hev, -⟩ := mem_actWindow hc
  cases hev

theorem evaluateOneItem_cache (s : Settings) (cache : TorrentCache) (item : Item) (env : EvaluateEnv) :
    (evaluateOneItem s cache item env).1 = (fetchMetadata s cache (hexEncode item.infoHash) env.fetch).1 := by
  simp only [evaluateOneItem]
  split
  next => rfl
  next =>
    split
    next => rfl
    next => rfl

variable {s : Settings} {seederFloor : Nat} {Reads : String → TorrentMeta → Prop}

/-- The actions that scans are put together from. -/
def Action.InScan : Action → Prop
  | .reconcile _ _ | .refresh _ _ | .evictStalled _ _ | .readMetadata _ _ | .act _ _ _ _ => True
  | _ => False

section Within

variable {R : Engine → Engine → Prop} (action : ∀ e a, Action.InScan a → R e (a.apply s e))
  (rehash : ∀ (e : Engine) (ts : List Torrent) (h : ts.Perm e.state.torrents.values),
    R e { e with state := e.state.rehash ts h })
include action rehash

theorem scanStep_within {x y : ScanState} (step : ScanStep s seederFloor Reads x y) :
    Relation.ReflTransGen R x.engine y.engine := by
  cases step with
  | evaluate item env pending reads =>
    have read := action x.engine (.readMetadata (hexEncode item.infoHash) env.fetch) trivial
    simp only [ScanState.evaluate, evaluateOneItem_cache]
    exact .single read
  | receive ev rest idle open_ arrived => exact .refl
  | act c rest env next reads =>
    simp only [ScanState.act]
    split
    next => exact .refl
    next => exact .single (action x.engine (.act c x.heldCount seederFloor env) trivial)
  | rehash ts h => exact .single (rehash x.engine ts h)
  | finish idle open_ walked drained => exact .refl

/-- A scan, up to wherever it gets, is a run of its actions. -/
theorem scanRun_within {e : Engine} {items : List Item} {env : ScanEnv} {y : ScanState}
    (run : Relation.ReflTransGen (ScanStep s seederFloor Reads) (beginScan s e items env) y) :
    Relation.ReflTransGen R e y.engine := by
  induction run with
  | refl =>
    have reconciled := action e (.reconcile (catalogHashes items) env.reconcile) trivial
    have refreshed := (Relation.ReflTransGen.single reconciled).tail
      (action _ (.refresh env.refresh fun _ => 0) trivial)
    simp only [beginScan]
    split
    next => exact refreshed
    next => exact refreshed.tail (action _ (.evictStalled (catalogHashes items) env.stall) trivial)
  | tail _ step ih => exact ih.trans (scanStep_within action rehash step)

end Within

theorem scanRun_steps {e : Engine} {items : List Item} {env : ScanEnv} {y : ScanState}
    (run : Relation.ReflTransGen (ScanStep s seederFloor Reads) (beginScan s e items env) y) :
    Relation.ReflTransGen (EngineStep s) e y.engine :=
  scanRun_within (fun e a _ => .action e a) .rehash run

end KeepAt
