import KeepAt.Ledger
import KeepAt.NetStats
import KeepAt.Scrape
import Mathlib.Data.Finset.Card

namespace KeepAt

def wrappingAdd (a b : Nat) : Nat := (a + b) % 2 ^ 64

/-- What has been seen of other nodes: their keys, and the bytes that they seed and fetch. -/
structure Netstats.Tracker where
  nodes : Finset String := ∅
  seedingBytes : Nat := 0
  leechingBytes : Nat := 0

def Netstats.Tracker.observe (t : Netstats.Tracker) (nodeKey : String) (torrentSize : Nat) (complete : Bool) :
    Netstats.Tracker :=
  { nodes := insert nodeKey t.nodes
    seedingBytes := if complete then wrappingAdd t.seedingBytes torrentSize else t.seedingBytes
    leechingBytes := if complete then t.leechingBytes else wrappingAdd t.leechingBytes torrentSize }

def isKeepAtSeeder (clientName : String) : Bool :=
  "keep-at".toList.isPrefixOf clientName.toList && !containsText clientName "(scraper)"

def trimBrackets (s : List Char) : List Char :=
  let bracket := fun c : Char => decide (c = '[' ∨ c = ']')
  ((s.dropWhile bracket).reverse.dropWhile bracket).reverse

/-- The IP of a socket address, as the standard library parses and prints it, or else what stands before the
last colon. -/
def peerHostKey (socketIp : String → Option String) (addr : String) : String :=
  match socketIp addr with
  | some ip => ip
  | none =>
    let chars := addr.toList
    let port := (chars.reverse.takeWhile (· ≠ ':')).length
    if ':' ∈ chars then String.ofList (trimBrackets (chars.take (chars.length - port - 1))) else addr

/-- One look at the swarm: the peers as far as their statistics can be read, whether we have the torrent
complete, how many peers there are, and whether it is past the deadline. -/
structure PeerPoll where
  peers : Option (List (String × Option String))
  finished : Bool
  connected : Nat
  late : Bool

def probeMaxPeers : Nat := 8

def keepAtPeers (socketIp : String → Option String) (poll : PeerPoll) : List (String × Bool) :=
  (poll.peers.getD []).filterMap fun peer =>
    peer.2.bind fun name =>
      if isKeepAtSeeder name then some (peerHostKey socketIp peer.1, poll.finished) else none

/-- The loop of `probe_swarm` over the looks that there is time for. -/
def pollSwarm (socketIp : String → Option String) : List PeerPoll → List (String × Bool)
  | [] => []
  | poll :: rest =>
    let out := keepAtPeers socketIp poll
    if out ≠ [] ∨ poll.connected ≥ probeMaxPeers ∨ poll.late then out else pollSwarm socketIp rest

/-- What becomes of a torrent: its metadata fetched or not, the reply of each tracker by its place, whether a session
can be had and the torrent added to it, and the looks at the swarm. -/
structure CensusEnv where
  fetch : FetchEnv
  reply : Nat → TrackerReply
  session : Bool
  added : Bool
  polls : List PeerPoll

/-- The libraries of a census: the URL parser, lower case, the reason phrases, the `.torrent` decoder and the socket
addresses. -/
structure CensusLib where
  parse : String → Option ParsedUrl
  toLowercase : String → String
  reason : Nat → String
  parseTorrentBytes : Bytes → Option TorrentMeta
  socketIp : String → Option String

structure CensusState where
  cache : TorrentCache
  tracker : Netstats.Tracker
  seederCounts : List Nat
  scraped : Nat
  probed : Nat
  failed : Nat

structure CensusResult where
  catalogSize : Nat
  scraped : Nat
  probed : Nat
  failed : Nat
  nodeCount : Nat
  seedingBytes : Nat
  leechingBytes : Nat
  seederFloor : Nat
  deriving DecidableEq

section Walk

variable (lib : CensusLib)

def cachedOrFetch (cache : TorrentCache) (hex : String) (env : FetchEnv) : TorrentCache × Option TorrentMeta :=
  match (cache.find hex).bind fun b => lib.parseTorrentBytes b.2 with
  | some md => (cache, some md)
  | none =>
    match env.body.bind fun body => (lib.parseTorrentBytes body).map (body, ·) with
    | none => (cache, none)
    | some (body, md) => (if env.cacheSaved then cache.insert (hex, body) else cache, some md)

/-- The torrent is added by its cached bytes. -/
def probeSwarm (cache : TorrentCache) (hex : String) (env : CensusEnv) : Option (List (String × Bool)) :=
  if env.session && (cache.find hex).isSome && env.added then some (pollSwarm lib.socketIp env.polls) else none

/-- The scrape of a torrent over the trackers of its metadata. -/
def censusScrape (md : TorrentMeta) (env : CensusEnv) : Except ErrorChain SwarmCounts :=
  let calls := md.trackers.zipIdx.map fun t => ⟨t.1, scrapeHttp lib.reason t.1 md.infoHash (env.reply t.2)⟩
  (scrapeOne lib.parse lib.toLowercase calls md.infoHash).2

/-- One torrent of the walk. -/
def CensusState.visit (st : CensusState) (item : Item × CensusEnv) : CensusState :=
  let hex := hexEncode item.1.infoHash
  let env := item.2
  match cachedOrFetch lib st.cache hex env.fetch with
  | (cache, none) => { st with cache, failed := st.failed + 1 }
  | (cache, some md) =>
    match censusScrape lib md env with
    | .error _ => { st with cache, failed := st.failed + 1 }
    | .ok swarm =>
      let st := { st with cache, scraped := st.scraped + 1, seederCounts := st.seederCounts ++ [swarm.seeders] }
      match probeSwarm lib cache hex env with
      | some obs =>
        { st with
          probed := st.probed + 1
          tracker := obs.foldl (fun t o => t.observe o.1 md.totalLength o.2) st.tracker }
      | none => { st with failed := st.failed + 1 }

def CensusState.result (st : CensusState) (catalogSize : Nat) : CensusResult :=
  { catalogSize, scraped := st.scraped, probed := st.probed, failed := st.failed, nodeCount := st.tracker.nodes.card
    seedingBytes := st.tracker.seedingBytes, leechingBytes := st.tracker.leechingBytes
    seederFloor := seederFloor st.seederCounts }

/-- `network-status` over the shuffled items of the catalog. -/
def census (cache : TorrentCache) (items : List (Item × CensusEnv)) : CensusResult :=
  (items.foldl (CensusState.visit lib) ⟨cache, {}, [], 0, 0, 0⟩).result items.length

end Walk

/-- A socket address: an IP, in brackets if it is an IPv6 one, and a port. -/
def hostPort (host : String) (port : Nat) : String := host ++ ":" ++ toString port

def keepAtAddrs (poll : PeerPoll) : List String :=
  (poll.peers.getD []).filterMap fun peer => peer.2.bind fun name => if isKeepAtSeeder name then some peer.1 else none

/-- The addresses of the nodes that a probe counts, and whether it counts them as seeding. -/
def seenAddrs : List PeerPoll → List (String × Bool)
  | [] => []
  | poll :: rest =>
    if keepAtAddrs poll ≠ [] ∨ poll.connected ≥ probeMaxPeers ∨ poll.late then
      (keepAtAddrs poll).map (·, poll.finished)
    else seenAddrs rest

/-- What the census takes of a torrent. -/
inductive CensusSight where
  | unscraped
  | unprobed (seeders : Nat)
  | probed (seeders size : Nat) (seen : List (String × Bool))

namespace CensusSight

def seeders : CensusSight → Option Nat
  | unscraped => none
  | unprobed seeders | probed seeders _ _ => some seeders

def isProbed : CensusSight → Bool
  | probed _ _ _ => true
  | unscraped | unprobed _ => false

def isUnprobed : CensusSight → Bool
  | unprobed _ => true
  | unscraped | probed _ _ _ => false

/-- The addresses under which its nodes were seen. -/
def addrs : CensusSight → List String
  | probed _ _ seen => seen.map Prod.fst
  | unscraped | unprobed _ => []

/-- The bytes that the nodes of a swarm seed, or fetch. -/
def bytes (complete : Bool) : CensusSight → List Nat
  | probed _ size seen => (seen.filter fun o => o.2 = complete).map fun _ => size
  | unscraped | unprobed _ => []

/-- The result for a list of torrents: each number told from what was seen of them. -/
def summary (socketIp : String → Option String) (sights : List CensusSight) : CensusResult :=
  { catalogSize := sights.length
    scraped := (sights.filterMap seeders).length
    probed := sights.countP isProbed
    failed := sights.length - sights.countP isProbed
    nodeCount := ((sights.flatMap addrs).map (peerHostKey socketIp)).toFinset.card
    seedingBytes := wrappingSum (sights.flatMap (bytes true))
    leechingBytes := wrappingSum (sights.flatMap (bytes false))
    seederFloor := seederFloor (sights.filterMap seeders) }

/-- The numbers of a summary do not depend on the order of the torrents. -/
theorem summary_perm (socketIp : String → Option String) {sights sights' : List CensusSight}
    (h : sights.Perm sights') : summary socketIp sights = summary socketIp sights' := by
  have hkeys : ((sights.flatMap addrs).map (peerHostKey socketIp)).toFinset =
      ((sights'.flatMap addrs).map (peerHostKey socketIp)).toFinset :=
    List.toFinset_eq_of_perm _ _ ((h.flatMap_right addrs).map _)
  simp only [summary, wrappingSum, h.length_eq, (h.filterMap seeders).length_eq, h.countP_eq, hkeys,
    (h.flatMap_right (bytes true)).sum_eq, (h.flatMap_right (bytes false)).sum_eq,
    seederFloor_perm (h.filterMap seeders)]

theorem length_seeders (sights : List CensusSight) :
    (sights.filterMap seeders).length = sights.countP isProbed + sights.countP isUnprobed := by
  induction sights with
  | nil => rfl
  | cons sight rest ih =>
    cases sight with
    | unscraped => simpa [isProbed, isUnprobed, seeders, List.filterMap_cons] using ih
    | unprobed n =>
      have hn : seeders (unprobed n) = some n := rfl
      rw [List.countP_cons_of_neg (by simp [isProbed]), List.countP_cons_of_pos rfl,
        List.filterMap_cons_some hn, List.length_cons, ih, Nat.add_assoc]
    | probed n size obs =>
      have hn : seeders (probed n size obs) = some n := rfl
      rw [List.countP_cons_of_pos rfl, List.countP_cons_of_neg (by simp [isUnprobed]),
        List.filterMap_cons_some hn, List.length_cons, ih, Nat.add_right_comm]

end CensusSight

variable {lib : CensusLib} {cache cache' : TorrentCache} {st : CensusState} {sights : List CensusSight}

/-- What the census takes of a torrent, with the cache as it is when its turn comes. -/
def sightOf (lib : CensusLib) (cache : TorrentCache) (item : Item × CensusEnv) : CensusSight :=
  let hex := hexEncode item.1.infoHash
  let env := item.2
  match cachedOrFetch lib cache hex env.fetch with
  | (_, none) => .unscraped
  | (cache, some md) =>
    match censusScrape lib md env with
    | .error _ => .unscraped
    | .ok swarm =>
      match probeSwarm lib cache hex env with
      | some _ => .probed swarm.seeders md.totalLength (seenAddrs env.polls)
      | none => .unprobed swarm.seeders

def cacheAfter (lib : CensusLib) (cache : TorrentCache) (item : Item × CensusEnv) : TorrentCache :=
  (cachedOrFetch lib cache (hexEncode item.1.infoHash) item.2.fetch).1

theorem keepAtPeers_eq (socketIp : String → Option String) (poll : PeerPoll) :
    keepAtPeers socketIp poll = (keepAtAddrs poll).map fun addr => (peerHostKey socketIp addr, poll.finished) := by
  rw [keepAtPeers, keepAtAddrs, List.map_filterMap]
  congr 1
  funext peer
  cases peer.2 with
  | none => rfl
  | some name => by_cases h : isKeepAtSeeder name = true <;> simp [h]

theorem pollSwarm_eq (socketIp : String → Option String) (polls : List PeerPoll) :
    pollSwarm socketIp polls = (seenAddrs polls).map fun o => (peerHostKey socketIp o.1, o.2) := by
  induction polls with
  | nil => rfl
  | cons poll rest ih =>
    have hout : keepAtPeers socketIp poll ≠ [] ↔ keepAtAddrs poll ≠ [] := by
      rw [keepAtPeers_eq, Ne, List.map_eq_nil_iff]
    simp only [pollSwarm, seenAddrs, hout]
    split
    next =>
      rw [keepAtPeers_eq, List.map_map]
      rfl
    next => exact ih

/-- What it takes of each torrent of a walk, whose metadata may be in the cache since an earlier one. -/
def sightsAlong (lib : CensusLib) (cache : TorrentCache) : List (Item × CensusEnv) → List CensusSight
  | [] => []
  | item :: rest => sightOf lib cache item :: sightsAlong lib (cacheAfter lib cache item) rest

/-- The numbers of a walk so far. -/
structure CensusState.Tells (lib : CensusLib) (st : CensusState) (sights : List CensusSight) : Prop where
  scraped : st.scraped = (sights.filterMap CensusSight.seeders).length
  probed : st.probed = sights.countP CensusSight.isProbed
  failed : st.probed + st.failed = sights.length
  nodes : st.tracker.nodes = ((sights.flatMap CensusSight.addrs).map (peerHostKey lib.socketIp)).toFinset
  seeding : st.tracker.seedingBytes = wrappingSum (sights.flatMap (CensusSight.bytes true))
  leeching : st.tracker.leechingBytes = wrappingSum (sights.flatMap (CensusSight.bytes false))
  counts : st.seederCounts = sights.filterMap CensusSight.seeders

theorem wrappingAdd_wrappingSum (xs : List Nat) (n : Nat) : wrappingAdd (wrappingSum xs) n = wrappingSum (xs ++ [n]) := by
  simp [wrappingAdd, wrappingSum, Nat.add_mod]

/-- The observations of a swarm, one after the other. -/
theorem foldl_observe (t : Netstats.Tracker) (size : Nat) (hostKey : String → String) {keys : List String}
    {seeding leeching : List Nat}
    (hnodes : t.nodes = keys.toFinset) (hseeding : t.seedingBytes = wrappingSum seeding)
    (hleeching : t.leechingBytes = wrappingSum leeching) (seen : List (String × Bool)) :
    let after := (seen.map fun o => (hostKey o.1, o.2)).foldl (fun t o => t.observe o.1 size o.2) t
    after.nodes = (keys ++ (seen.map Prod.fst).map hostKey).toFinset ∧
      after.seedingBytes = wrappingSum (seeding ++ (seen.filter fun o => o.2 = true).map fun _ => size) ∧
      after.leechingBytes = wrappingSum (leeching ++ (seen.filter fun o => o.2 = false).map fun _ => size) := by
  induction seen generalizing t keys seeding leeching with
  | nil => simpa using ⟨hnodes, hseeding, hleeching⟩
  | cons o rest ih =>
    obtain ⟨addr, complete⟩ := o
    have hkeys : (t.observe (hostKey addr) size complete).nodes = (keys ++ [hostKey addr]).toFinset := by
      ext k
      simp [Netstats.Tracker.observe, hnodes]
    rw [List.map_cons, List.foldl_cons]
    cases complete with
    | true =>
      have hbytes : (t.observe (hostKey addr) size true).seedingBytes = wrappingSum (seeding ++ [size]) := by
        rw [← wrappingAdd_wrappingSum, ← hseeding]
        rfl
      have h := ih (t.observe (hostKey addr) size true) hkeys hbytes hleeching
      simpa [List.append_assoc] using h
    | false =>
      have hbytes : (t.observe (hostKey addr) size false).leechingBytes = wrappingSum (leeching ++ [size]) := by
        rw [← wrappingAdd_wrappingSum, ← hleeching]
        rfl
      have h := ih (t.observe (hostKey addr) size false) hkeys hseeding hbytes
      simpa [List.append_assoc] using h

namespace CensusState.Tells

/-- A torrent without metadata or without an answer of its trackers. -/
theorem unscraped (h : st.Tells lib sights) (cache : TorrentCache) :
    CensusState.Tells lib { st with cache, failed := st.failed + 1 } (sights ++ [.unscraped]) := by
  refine ⟨?_, ?_, ?_, ?_, ?_, ?_, ?_⟩
  · simpa [CensusSight.seeders, List.filterMap_cons] using h.scraped
  · simpa [CensusSight.isProbed] using h.probed
  · have := h.failed
    simp only [List.length_append, List.length_singleton]
    omega
  · simpa [CensusSight.addrs] using h.nodes
  · simpa [CensusSight.bytes] using h.seeding
  · simpa [CensusSight.bytes] using h.leeching
  · simpa [CensusSight.seeders, List.filterMap_cons] using h.counts

/-- A torrent whose swarm could not be probed: it counts as scraped and as failed. -/
theorem unprobed (h : st.Tells lib sights) (cache : TorrentCache) (seeders : Nat) :
    CensusState.Tells lib
      { st with
        cache, scraped := st.scraped + 1, seederCounts := st.seederCounts ++ [seeders], failed := st.failed + 1 }
      (sights ++ [.unprobed seeders]) := by
  refine ⟨?_, ?_, ?_, ?_, ?_, ?_, ?_⟩
  · simpa [CensusSight.seeders, List.filterMap_cons] using h.scraped
  · simpa [CensusSight.isProbed] using h.probed
  · have := h.failed
    simp only [List.length_append, List.length_singleton]
    omega
  · simpa [CensusSight.addrs] using h.nodes
  · simpa [CensusSight.bytes] using h.seeding
  · simpa [CensusSight.bytes] using h.leeching
  · simpa [CensusSight.seeders, List.filterMap_cons] using h.counts

theorem observed (h : st.Tells lib sights) (cache : TorrentCache) (seeders size : Nat) (seen : List (String × Bool)) :
    CensusState.Tells lib
      { st with
        cache, scraped := st.scraped + 1, seederCounts := st.seederCounts ++ [seeders], probed := st.probed + 1
        tracker := (seen.map fun o => (peerHostKey lib.socketIp o.1, o.2)).foldl
          (fun t o => t.observe o.1 size o.2) st.tracker }
      (sights ++ [.probed seeders size seen]) := by
  obtain ⟨hnodes, hseeding, hleeching⟩ :=
    foldl_observe st.tracker size (peerHostKey lib.socketIp) h.nodes h.seeding h.leeching seen
  refine ⟨?_, ?_, ?_, ?_, ?_, ?_, ?_⟩
  · simpa [CensusSight.seeders, List.filterMap_cons] using h.scraped
  · simpa [CensusSight.isProbed] using h.probed
  · have := h.failed
    simp only [List.length_append, List.length_singleton]
    omega
  · simpa [CensusSight.addrs] using hnodes
  · simpa [CensusSight.bytes] using hseeding
  · simpa [CensusSight.bytes] using hleeching
  · simpa [CensusSight.seeders, List.filterMap_cons] using h.counts

theorem visit (h : st.Tells lib sights) (item : Item × CensusEnv) :
    (st.visit lib item).Tells lib (sights ++ [sightOf lib st.cache item]) ∧
      (st.visit lib item).cache = cacheAfter lib st.cache item := by
  unfold CensusState.visit sightOf cacheAfter
  dsimp only
  cases hfetch : cachedOrFetch lib st.cache (hexEncode item.1.infoHash) item.2.fetch with
  | mk cache md =>
    cases md with
    | none => exact ⟨h.unscraped cache, rfl⟩
    | some md =>
      dsimp only
      cases hscrape : censusScrape lib md item.2 with
      | error err => exact ⟨h.unscraped cache, rfl⟩
      | ok swarm =>
        dsimp only
        cases hprobe : probeSwarm lib cache (hexEncode item.1.infoHash) item.2 with
        | none => exact ⟨h.unprobed cache swarm.seeders, rfl⟩
        | some obs =>
          have hobs : obs = pollSwarm lib.socketIp item.2.polls := by
            unfold probeSwarm at hprobe
            split at hprobe
            next => exact (Option.some.inj hprobe).symm
            next => cases hprobe
          rw [hobs, pollSwarm_eq]
          exact ⟨h.observed cache swarm.seeders md.totalLength (seenAddrs item.2.polls), rfl⟩

theorem walk (h : st.Tells lib sights) (items : List (Item × CensusEnv)) :
    (items.foldl (CensusState.visit lib) st).Tells lib (sights ++ sightsAlong lib st.cache items) := by
  induction items generalizing st sights with
  | nil => simpa [sightsAlong] using h
  | cons item rest ih =>
    obtain ⟨hnext, hcache⟩ := h.visit item
    have hrest := ih hnext
    rw [hcache, List.append_assoc] at hrest
    exact hrest

theorem result (h : st.Tells lib sights) : st.result sights.length = CensusSight.summary lib.socketIp sights := by
  have hfailed : st.failed = sights.length - sights.countP CensusSight.isProbed := by
    have := h.failed
    rw [h.probed] at this
    omega
  simp only [CensusState.result, CensusSight.summary, h.scraped, h.probed, hfailed, h.nodes, h.seeding, h.leeching,
    h.counts]

end CensusState.Tells

theorem sightsAlong_length (lib : CensusLib) (cache : TorrentCache) (items : List (Item × CensusEnv)) :
    (sightsAlong lib cache items).length = items.length := by
  induction items generalizing cache with
  | nil => rfl
  | cons item rest ih => rw [sightsAlong, List.length_cons, ih, List.length_cons]

theorem census_eq_summary (lib : CensusLib) (cache : TorrentCache) (items : List (Item × CensusEnv)) :
    census lib cache items = CensusSight.summary lib.socketIp (sightsAlong lib cache items) := by
  have hstart : CensusState.Tells lib ⟨cache, {}, [], 0, 0, 0⟩ [] := ⟨rfl, rfl, rfl, rfl, rfl, rfl, rfl⟩
  have hwalk := hstart.walk items
  rw [census, ← sightsAlong_length lib cache items]
  exact hwalk.result

/-- How a node is known: by the IP that its host stands for, or else by the host. -/
def hostKey (ipOf : String → Option String) (host : String) : String :=
  (ipOf host).getD (String.ofList (trimBrackets host.toList))

/-- The port has no part in it. -/
theorem peerHostKey_hostPort {socketIp ipOf : String → Option String} {host : String} {port : Nat}
    (parses : socketIp (hostPort host port) = ipOf host) :
    peerHostKey socketIp (hostPort host port) = hostKey ipOf host := by
  rw [peerHostKey, hostKey, parses]
  cases ipOf host with
  | some ip => rfl
  | none =>
    have hport : ∀ c ∈ (toString port).toList, c ≠ ':' := by
      rw [Nat.toString_eq_ofList_toDigits, String.toList_ofList]
      rintro c hc rfl
      exact absurd (isDigit_of_mem_toDigits hc) (by decide)
    have hchars : (hostPort host port).toList = host.toList ++ ':' :: (toString port).toList := by
      simp [hostPort]
    have hlast : (((hostPort host port).toList).reverse.takeWhile (· ≠ ':')).length =
        (toString port).toList.length := by
      rw [hchars, List.reverse_append, List.reverse_cons, List.append_assoc, List.takeWhile_append_of_pos]
      · simp
      · intro c hc
        simpa using hport c (List.mem_reverse.mp hc)
    have hhost : (hostPort host port).toList.length - (toString port).toList.length - 1 = host.toList.length := by
      rw [hchars, List.length_append, List.length_cons]
      omega
    dsimp only [Option.getD_none]
    rw [hlast, hhost, if_pos (by rw [hchars]; simp), hchars, List.take_left]

/-- The numbers of a census, over any catalog, with any answers and any peers: every torrent is probed or failed, and
never both; one whose probe failed counts as scraped all the same; a node counts once in whatever swarms and under
whatever ports it was seen, and the floor is that of the scraped torrents. That a parsed address tells its host's IP,
whatever the port, is the standard library's. -/
theorem census_counts (lib : CensusLib) (cache : TorrentCache) (items : List (Item × CensusEnv)) :
    let sights := sightsAlong lib cache items
    let result := census lib cache items
    result.probed + result.failed = items.length ∧
      result.scraped = result.probed + sights.countP CensusSight.isUnprobed ∧ result.scraped ≤ items.length ∧
      result.nodeCount = ((sights.flatMap CensusSight.addrs).map (peerHostKey lib.socketIp)).toFinset.card ∧
      (∀ (ipOf : String → Option String) (seen : List (String × Nat)),
        (∀ host port, port < 2 ^ 16 → lib.socketIp (hostPort host port) = ipOf host) →
        sights.flatMap CensusSight.addrs = seen.map (fun h => hostPort h.1 h.2) → (∀ h ∈ seen, h.2 < 2 ^ 16) →
        result.nodeCount = (seen.map fun h => hostKey ipOf h.1).toFinset.card) ∧
      result.seedingBytes = wrappingSum (sights.flatMap (CensusSight.bytes true)) ∧
      result.leechingBytes = wrappingSum (sights.flatMap (CensusSight.bytes false)) ∧
      IsP10 (sights.filterMap CensusSight.seeders) result.seederFloor := by
  intro sights result
  have hresult : result = CensusSight.summary lib.socketIp sights := census_eq_summary lib cache items
  have hlength : sights.length = items.length := sightsAlong_length lib cache items
  have hprobed : sights.countP CensusSight.isProbed ≤ sights.length := List.countP_le_length
  have hscraped : (sights.filterMap CensusSight.seeders).length ≤ sights.length := List.length_filterMap_le _ _
  rw [hresult, ← hlength]
  refine ⟨?_, CensusSight.length_seeders sights, hscraped, rfl, fun ipOf seen parses hseen hports => ?_, rfl, rfl,
    isP10_seederFloor _⟩
  · exact Nat.add_sub_cancel' hprobed
  · have hkeys : (sights.flatMap CensusSight.addrs).map (peerHostKey lib.socketIp) =
        seen.map fun h => hostKey ipOf h.1 := by
      rw [hseen, List.map_map]
      exact List.map_congr_left fun h hmem => peerHostKey_hostPort (parses h.1 h.2 (hports h hmem))
    rw [CensusSight.summary, hkeys]

def repeatedHash (n : UInt8) : InfoHash := ⟨List.replicate 20 n, List.length_replicate⟩

/-- Two torrents, of which a node of the first swarm is also in the second, under another port. -/
def twoTorrents : List (Item × CensusEnv) :=
  let entry := Bencode.dict [(bencodeKey "complete", .integer 3)]
  let body := fun hash : InfoHash => Bencode.dict [(bencodeKey "files", .dict [(hash.bytes, entry)])]
  let env := fun (n : UInt8) (hash : InfoHash) (peers : List (String × Option String)) =>
    (⟨⟨some [n], true⟩, fun _ => .answered ⟨200, by decide⟩ (.ok (.ok (body hash))), true, true,
      [⟨some peers, true, 2, false⟩]⟩ : CensusEnv)
  [(⟨"a", repeatedHash 1, "", 5⟩, env 1 (repeatedHash 1) [("h:1", some "keep-at/1")]),
    (⟨"b", repeatedHash 2, "", 7⟩, env 2 (repeatedHash 2) [("h:2", some "keep-at/1"), ("g:1", some "keep-at/1")])]

def exampleLib : CensusLib where
  parse _ := none
  toLowercase := id
  reason _ := ""
  parseTorrentBytes b := b.head?.map fun n => ⟨repeatedHash n, ["http://t/announce"], none, 5, 1, 1, ""⟩
  socketIp _ := none

theorem census_counts_ports : (census exampleLib .empty twoTorrents).nodeCount = 2 := by
  have hseen : (sightsAlong exampleLib .empty twoTorrents).flatMap CensusSight.addrs =
      [("h", 1), ("h", 2), ("g", 1)].map fun h => hostPort h.1 h.2 := by decide +kernel
  obtain ⟨-, -, -, -, ports, -⟩ := census_counts exampleLib .empty twoTorrents
  rw [ports (fun _ => none) _ (fun _ _ _ => rfl) hseen (by decide)]
  decide

theorem cachedOrFetch_find_of_ne {hex key : String} (h : key ≠ hex) (env : FetchEnv) :
    (cachedOrFetch lib cache hex env).1.find key = cache.find key := by
  unfold cachedOrFetch
  split
  next => rfl
  next =>
    split
    next => rfl
    next body md _ =>
      dsimp only
      split
      next => rw [KeyedList.find_insert, if_neg h]
      next => rfl

variable (lib) in
/-- The metadata of a torrent, and what the cache has of it then, depend on what the cache had of it. -/
theorem cachedOrFetch_congr {hex : String} (h : cache.find hex = cache'.find hex) (env : FetchEnv) :
    (cachedOrFetch lib cache hex env).2 = (cachedOrFetch lib cache' hex env).2 ∧
      (cachedOrFetch lib cache hex env).1.find hex = (cachedOrFetch lib cache' hex env).1.find hex := by
  unfold cachedOrFetch
  rw [h]
  split
  next => exact ⟨rfl, h⟩
  next =>
    split
    next => exact ⟨rfl, h⟩
    next body md _ =>
      refine ⟨rfl, ?_⟩
      dsimp only
      split
      next => rw [KeyedList.find_insert, KeyedList.find_insert, if_pos rfl, if_pos rfl]
      next => exact h

theorem sightOf_congr {item : Item × CensusEnv}
    (h : cache.find (hexEncode item.1.infoHash) = cache'.find (hexEncode item.1.infoHash)) :
    sightOf lib cache item = sightOf lib cache' item := by
  obtain ⟨hmd, hfind⟩ := cachedOrFetch_congr lib h item.2.fetch
  unfold sightOf
  dsimp only
  cases hfetch : cachedOrFetch lib cache (hexEncode item.1.infoHash) item.2.fetch with
  | mk after md =>
    cases hfetch' : cachedOrFetch lib cache' (hexEncode item.1.infoHash) item.2.fetch with
    | mk after' md' =>
      rw [hfetch, hfetch'] at hmd hfind
      obtain rfl : md = md' := hmd
      cases md with
      | none => rfl
      | some md =>
        dsimp only at hfind ⊢
        rw [probeSwarm, probeSwarm, hfind]

theorem sightsAlong_eq_map (items : List (Item × CensusEnv))
    (once : (items.map fun item => hexEncode item.1.infoHash).Nodup)
    (same : ∀ item ∈ items, cache.find (hexEncode item.1.infoHash) = cache'.find (hexEncode item.1.infoHash)) :
    sightsAlong lib cache items = items.map (sightOf lib cache') := by
  induction items generalizing cache with
  | nil => rfl
  | cons item rest ih =>
    obtain ⟨hitem, hrest⟩ := List.forall_mem_cons.mp same
    obtain ⟨hother, honce⟩ := List.nodup_cons.mp once
    rw [sightsAlong, List.map_cons, sightOf_congr hitem, ih honce]
    intro next hnext
    have hne : hexEncode next.1.infoHash ≠ hexEncode item.1.infoHash :=
      fun he => hother (List.mem_map.mpr ⟨next, hnext, he⟩)
    exact (cachedOrFetch_find_of_ne hne _).trans (hrest next hnext)

/-- The shuffle of the catalog has no influence: in whatever order the torrents are visited, each with its own
answers and peers, the census comes to the same numbers. -/
theorem census_ignores_the_shuffle {items items' : List (Item × CensusEnv)} (shuffled : items.Perm items')
    (once : (items.map fun item => item.1.infoHash).Nodup) :
    census lib cache items = census lib cache items' := by
  have hhex : (items.map fun item => hexEncode item.1.infoHash).Nodup := by
    have := once.map hexEncode_injective
    rwa [List.map_map] at this
  have hhex' : (items'.map fun item => hexEncode item.1.infoHash).Nodup := ((shuffled.map _).nodup_iff).mp hhex
  rw [census_eq_summary, census_eq_summary, sightsAlong_eq_map items hhex fun _ _ => rfl,
    sightsAlong_eq_map items' hhex' fun _ _ => rfl]
  exact CensusSight.summary_perm lib.socketIp (shuffled.map _)

theorem census_ignores_the_shuffle_two :
    census exampleLib .empty twoTorrents = census exampleLib .empty twoTorrents.reverse :=
  census_ignores_the_shuffle (List.reverse_perm _).symm (by decide)

end KeepAt
