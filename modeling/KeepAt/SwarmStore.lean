import KeepAt.DurableNotes
import KeepAt.Ledger
import KeepAt.Scrape
import KeepAt.StateFile

namespace KeepAt

structure StoredEntry where
  seeders : Nat
  leechers : Nat
  cachedAt : Time
  deriving DecidableEq

section Codec

variable (time : TimeText) (text : JsonText)

def StoredEntry.members (e : StoredEntry) : JsonMembers :=
  [("seeders", .int e.seeders), ("leechers", .int e.leechers), ("at", timeJson time e.cachedAt)]

def StoredEntry.toJson (e : StoredEntry) : Json := .obj (e.members time)

def StoredEntry.fromJson : Json → Option StoredEntry
  | .obj members => do
    let seeders ← jsonField members "seeders" none (jsonNat u32Max)
    let leechers ← jsonField members "leechers" none (jsonNat u32Max)
    let cachedAt ← jsonField members "at" none (jsonTime time)
    return { seeders, leechers, cachedAt }
  | _ => none

abbrev StoredCache := KeyedList (Prod.fst : String × StoredEntry → String)

def StoredCache.fromJson : Json → Option StoredCache
  | .obj members => jsonField members "entries" (some .empty) (jsonMap (StoredEntry.fromJson time))
  | _ => none

/-- What is saved of an entry: the number of completed downloads is not. -/
def CachedSwarm.stored (e : CachedSwarm) : StoredEntry := ⟨e.counts.seeders, e.counts.leechers, e.cachedAt⟩

def StoredEntry.cached (e : StoredEntry) : CachedSwarm := ⟨⟨e.seeders, e.leechers, 0⟩, e.cachedAt⟩

/-- The entries under their hashes in hex, in the order in which the map gives them. -/
def SwarmCache.stored (cache : SwarmCache) (order : List InfoHash) : List (String × StoredEntry) :=
  order.filterMap fun h => (cache.entries h).map fun e => (hexEncode h, e.stored)

def storedCacheJson (entries : List (String × StoredEntry)) : Json :=
  .obj [("entries", .obj (entries.map fun e => (e.1, e.2.toJson time)))]

def SwarmCache.saved (cache : SwarmCache) (order : List InfoHash) : Bytes :=
  text.emit (storedCacheJson time (cache.stored order))

/-- Entries are taken in one after the other, and a name that is no hash is skipped. -/
def SwarmCache.fromStored (ttl : Duration) (entries : List (String × StoredEntry)) : SwarmCache :=
  entries.foldl (fun cache e =>
    match decodeHash e.1 with
    | some h => { cache with entries := Function.update cache.entries h (some e.2.cached) }
    | none => cache) ⟨ttl, fun _ => none⟩

/-- A file that is missing, cannot be read or does not parse is an empty cache. -/
def SwarmCache.load (file : Option Bytes) (ttl : Duration) : SwarmCache :=
  .fromStored ttl (((file.bind text.parse).bind (StoredCache.fromJson time)).map KeyedList.values |>.getD [])

end Codec

/-- The daemon's swarm cache and its file, whoever runs the daemon and however often. -/
structure SwarmStore where
  now : Time
  cache : SwarmCache
  file : Option Bytes

/-- What the scans use of an answer: its seeders and leechers. -/
abbrev SwarmEvent := NotebookEvent InfoHash (Nat × Nat) Time

def SwarmCounts.figures (counts : SwarmCounts) : Nat × Nat := (counts.seeders, counts.leechers)

/-- A step of the cache: the clock is set, a tracker answers, the cache is asked or saved, the daemon starts
anew, at any moment, or its file is deleted. A save that fails leaves the file alone. -/
inductive SwarmStoreStep (time : TimeText) (text : JsonText) (x : SwarmStore) : SwarmEvent → SwarmStore → Prop
  | clock (now : Time) : SwarmStoreStep time text x .silent { x with now }
  | scraped (infoHash : InfoHash) (body : Except String Bencode) (counts : SwarmCounts)
      (answered : decodeScrapeResponse body infoHash = .ok counts) (dated : time.Reads x.now) :
      SwarmStoreStep time text x (.noted ⟨infoHash, counts.figures, x.now⟩)
        { x with cache := x.cache.insert infoHash counts x.now }
  | save (order : List InfoHash) (once : order.Nodup) (all : ∀ h, (x.cache.entries h).isSome → h ∈ order)
      (reads : text.parse (x.cache.saved time text order) = some (storedCacheJson time (x.cache.stored order))) :
      SwarmStoreStep time text x .silent { x with file := some (x.cache.saved time text order) }
  | restart (ttl : Duration) :
      SwarmStoreStep time text x .silent { x with cache := SwarmCache.load time text x.file ttl }
  | unread (ttl : Duration) :
      SwarmStoreStep time text x .forgot { x with cache := SwarmCache.load time text none ttl }
  | deleted : SwarmStoreStep time text x .forgot { x with file := none }
  | get (infoHash : InfoHash) :
      SwarmStoreStep time text x
        (.answered infoHash x.now x.cache.ttl ((x.cache.get infoHash x.now).map SwarmCounts.figures)) x

/-- A time ahead of the clock is as old as can be. -/
def ageAt (stamp now : Time) : Duration := if now - stamp < 0 then durationMax else (now - stamp).toNat

/-- The last note of each hash is what the cache has of it. -/
def SwarmCache.Remembers (cache : SwarmCache) (notes : List (Note InfoHash (Nat × Nat) Time)) : Prop :=
  ∀ h, (cache.entries h).map (fun e => (e.counts.figures, e.cachedAt)) =
    (lastNote notes h).map fun n => (n.value, n.stamp)

/-- A note whose figures and time the file can hold. -/
structure Note.Storable (time : TimeText) (n : Note InfoHash (Nat × Nat) Time) : Prop where
  seeders : n.value.1 ≤ u32Max
  leechers : n.value.2 ≤ u32Max
  dated : time.Reads n.stamp

/-- The cache has the notes in memory, and its file those that are kept. -/
structure SwarmStore.Holds (time : TimeText) (text : JsonText) (x : SwarmStore)
    (b : Notebook InfoHash (Nat × Nat) Time) : Prop where
  now : b.now = x.now
  ttl : b.ttl = x.cache.ttl
  memory : x.cache.Remembers b.notes
  file : ∀ ttl, (SwarmCache.load time text x.file ttl).Remembers b.kept
  notes : ∀ n ∈ b.notes, n.Storable time
  kept : ∀ n ∈ b.kept, n.Storable time

variable {time : TimeText} {text : JsonText} {cache : SwarmCache} {x y : SwarmStore}
  {b : Notebook InfoHash (Nat × Nat) Time} {notes : List (Note InfoHash (Nat × Nat) Time)}
  {order : List InfoHash} {o : SwarmEvent} {obs : List SwarmEvent}

theorem StoredEntry.fromJson_toJson {e : StoredEntry} (seeders : e.seeders ≤ u32Max)
    (leechers : e.leechers ≤ u32Max) (dated : time.Reads e.cachedAt) :
    StoredEntry.fromJson time (e.toJson time) = some e := by
  have hholds : KeepAt.Holds (e.members time) (fun _ => false) (e.members time) :=
    .self (by simp [StoredEntry.members])
  have hseeders : jsonField (e.members time) "seeders" none (jsonNat u32Max) = some e.seeders :=
    hholds.required (by simp [StoredEntry.members]) rfl (jsonNat_int seeders)
  have hleechers : jsonField (e.members time) "leechers" none (jsonNat u32Max) = some e.leechers :=
    hholds.required (by simp [StoredEntry.members]) rfl (jsonNat_int leechers)
  have hdated : jsonField (e.members time) "at" none (jsonTime time) = some e.cachedAt :=
    hholds.required (by simp [StoredEntry.members]) rfl (jsonTime_timeJson dated)
  simp only [StoredEntry.fromJson, StoredEntry.toJson, hseeders, hleechers, hdated, Option.bind_eq_bind,
    Option.bind_some]
  rfl

theorem storedCacheFromJson {entries : List (String × StoredEntry)}
    (h : ∀ e ∈ entries, StoredEntry.fromJson time (e.2.toJson time) = some e.2)
    (once : (entries.map Prod.fst).Nodup) :
    ∃ stored, StoredCache.fromJson time (storedCacheJson time entries) = some stored ∧
      ∀ e, e ∈ stored.values ↔ e ∈ entries := by
  have hmapM : (entries.map fun e => (e.1, e.2.toJson time)).mapM
      (fun m => (StoredEntry.fromJson time m.2).map (m.1, ·)) = some entries := by
    rw [List.mapM_map]
    refine (mapM_eq_some_map (g := id) fun e he => ?_).trans (by rw [List.map_id])
    simp [h e he]
  obtain ⟨stored, hstored, hvalues⟩ := jsonMap_obj hmapM once
  refine ⟨stored, ?_, hvalues⟩
  simpa [StoredCache.fromJson, storedCacheJson, jsonField] using hstored

/-- Entries under the hex of their hashes, each hash once, are found again under their hashes. -/
theorem fromStored_entries (ttl : Duration) {entries : List (String × StoredEntry)}
    (named : ∀ e ∈ entries, ∃ h, e.1 = hexEncode h) (once : (entries.map Prod.fst).Nodup) (h : InfoHash) :
    ∀ e, (SwarmCache.fromStored ttl entries).entries h = some e ↔
      ∃ stored, (hexEncode h, stored) ∈ entries ∧ e = stored.cached := by
  induction entries using List.reverseRecOn with
  | nil => simp [SwarmCache.fromStored]
  | append_singleton front last ih =>
    rw [List.map_append, List.nodup_append] at once
    obtain ⟨hfront, -, hapart⟩ := once
    have hfound := ih (fun e he => named e (List.mem_append_left _ he)) hfront
    obtain ⟨g, hg⟩ := named last (List.mem_append_right _ (List.mem_singleton_self _))
    have hdecode : decodeHash last.1 = some g := by rw [hg, decodeHash_hexEncode]
    have hstep : SwarmCache.fromStored ttl (front ++ [last]) =
        ⟨(SwarmCache.fromStored ttl front).ttl,
          Function.update (SwarmCache.fromStored ttl front).entries g (some last.2.cached)⟩ := by
      simp [SwarmCache.fromStored, hdecode]
    rw [hstep]
    intro e
    dsimp only
    by_cases hh : h = g
    · subst hh
      rw [Function.update_self]
      constructor
      · intro he
        exact ⟨last.2, by simp [← hg], (Option.some.inj he).symm⟩
      · rintro ⟨stored, hmem, rfl⟩
        rcases List.mem_append.mp hmem with hmem | hmem
        · exact absurd hg.symm (hapart _ (List.mem_map_of_mem hmem) _ (by simp))
        · rw [← List.mem_singleton.mp hmem]
    · rw [Function.update_of_ne hh]
      refine (hfound e).trans (exists_congr fun stored => and_congr_left fun _ => ?_)
      have hne : (hexEncode h, stored) ≠ last := fun he => hh (hexEncode_injective ((congrArg Prod.fst he).trans hg))
      simp [hne]

theorem stored_names (cache : SwarmCache) (order : List InfoHash) :
    (cache.stored order).map Prod.fst = (order.filter fun h => (cache.entries h).isSome).map hexEncode := by
  induction order with
  | nil => rfl
  | cons h rest ih =>
    cases hentry : cache.entries h with
    | none =>
      rw [List.filter_cons_of_neg (by simp [hentry]), ← ih]
      simp [SwarmCache.stored, hentry]
    | some e =>
      rw [List.filter_cons_of_pos (by simp [hentry]), List.map_cons, ← ih]
      simp [SwarmCache.stored, hentry]

theorem stored_nodup (once : order.Nodup) : ((cache.stored order).map Prod.fst).Nodup := by
  rw [stored_names]
  exact (once.filter _).map hexEncode_injective

theorem mem_stored {e : String × StoredEntry} :
    e ∈ cache.stored order ↔ ∃ h ∈ order, ∃ entry, cache.entries h = some entry ∧ (hexEncode h, entry.stored) = e := by
  simp only [SwarmCache.stored, List.mem_filterMap, Option.map_eq_some_iff]

/-- What a save writes, a later start loads: the entries of the cache without their completed downloads. -/
theorem load_saved (ttl : Duration) (once : order.Nodup) (all : ∀ h, (cache.entries h).isSome → h ∈ order)
    (storable : ∀ h e, cache.entries h = some e → StoredEntry.fromJson time (e.stored.toJson time) = some e.stored)
    (reads : text.parse (cache.saved time text order) = some (storedCacheJson time (cache.stored order)))
    (h : InfoHash) :
    (SwarmCache.load time text (some (cache.saved time text order)) ttl).entries h =
      (cache.entries h).map fun e => e.stored.cached := by
  have hread : ∀ e ∈ cache.stored order, StoredEntry.fromJson time (e.2.toJson time) = some e.2 := by
    intro e he
    obtain ⟨g, -, entry, hentry, rfl⟩ := mem_stored.mp he
    exact storable g entry hentry
  obtain ⟨stored, hstored, hvalues⟩ := storedCacheFromJson hread (stored_nodup once)
  have hload : SwarmCache.load time text (some (cache.saved time text order)) ttl =
      SwarmCache.fromStored ttl stored.values := by
    simp only [SwarmCache.load, Option.bind_some, reads, hstored, Option.map_some, Option.getD_some]
  have hnamed : ∀ e ∈ stored.values, ∃ g, e.1 = hexEncode g := by
    intro e he
    obtain ⟨g, -, entry, -, rfl⟩ := mem_stored.mp ((hvalues e).mp he)
    exact ⟨g, rfl⟩
  rw [hload]
  refine Option.ext fun e => (fromStored_entries ttl hnamed stored.distinct h e).trans ?_
  rw [Option.map_eq_some_iff]
  constructor
  · rintro ⟨kept, hkept, rfl⟩
    obtain ⟨g, -, entry, hentry, he⟩ := mem_stored.mp ((hvalues _).mp hkept)
    obtain ⟨hg, rfl⟩ := Prod.mk.inj he
    rw [hexEncode_injective hg] at hentry
    exact ⟨entry, hentry, rfl⟩
  · rintro ⟨entry, hentry, rfl⟩
    have hmem : (hexEncode h, entry.stored) ∈ cache.stored order :=
      mem_stored.mpr ⟨h, all h (by rw [hentry]; rfl), entry, hentry, rfl⟩
    exact ⟨entry.stored, (hvalues _).mpr hmem, rfl⟩

theorem fromStored_ttl (ttl : Duration) (entries : List (String × StoredEntry)) :
    (SwarmCache.fromStored ttl entries).ttl = ttl := by
  induction entries using List.reverseRecOn with
  | nil => rfl
  | append_singleton front last ih =>
    rw [SwarmCache.fromStored, List.foldl_concat]
    split
    next => exact ih
    next => exact ih

theorem load_ttl (file : Option Bytes) (ttl : Duration) : (SwarmCache.load time text file ttl).ttl = ttl :=
  fromStored_ttl ttl _

theorem remembers_nil {ttl : Duration} : SwarmCache.Remembers ⟨ttl, fun _ => none⟩ [] := fun _ => rfl

theorem SwarmCache.Remembers.insert (h : cache.Remembers notes) (infoHash : InfoHash) (counts : SwarmCounts)
    (now : Time) : (cache.insert infoHash counts now).Remembers (notes ++ [⟨infoHash, counts.figures, now⟩]) := by
  intro g
  rw [lastNote_concat]
  by_cases hg : infoHash = g
  · subst hg
    rw [if_pos rfl]
    simp [SwarmCache.insert]
  · rw [if_neg hg, ← h g]
    simp [SwarmCache.insert, Function.update_of_ne (Ne.symm hg)]

/-- The cache answers as its notes do. -/
theorem SwarmCache.Remembers.get (h : cache.Remembers notes) {b : Notebook InfoHash (Nat × Nat) Time}
    (hnotes : b.notes = notes) (httl : b.ttl = cache.ttl) (infoHash : InfoHash) :
    (cache.get infoHash b.now).map SwarmCounts.figures = b.answer ageAt infoHash := by
  have hentry := h infoHash
  unfold SwarmCache.get Notebook.answer
  rw [hnotes, httl]
  cases hlast : lastNote notes infoHash with
  | none =>
    rw [hlast] at hentry
    rw [Option.map_eq_none_iff.mp hentry]
    rfl
  | some n =>
    rw [hlast] at hentry
    obtain ⟨e, he, hn⟩ := Option.map_eq_some_iff.mp hentry
    obtain ⟨hvalue, hstamp⟩ := Prod.mk.inj hn
    have hage : e.age b.now = ageAt n.stamp b.now := by rw [← hstamp]; rfl
    rw [he]
    dsimp only [Option.bind_some]
    rw [hage]
    split
    next => rfl
    next => exact congrArg some hvalue

theorem scrapeCount_le (entry : List (List UInt8 × Bencode)) (name : String) : scrapeCount entry name ≤ u32Max := by
  unfold scrapeCount
  split
  next i _ =>
    split
    next hrange => omega
    next => exact Nat.zero_le _
  next => exact Nat.zero_le _

/-- The figures of a tracker's answer are those that the file can hold. -/
theorem decodeScrapeResponse_le {body : Except String Bencode} {infoHash : InfoHash} {counts : SwarmCounts}
    (h : decodeScrapeResponse body infoHash = .ok counts) : counts.seeders ≤ u32Max ∧ counts.leechers ≤ u32Max := by
  unfold decodeScrapeResponse at h
  split at h
  next => cases h
  next =>
    split at h
    next files _ =>
      dsimp only at h
      split at h
      next counts' hfound =>
        obtain rfl := Except.ok.inj h
        obtain ⟨f, -, hf⟩ := List.exists_of_findSome?_eq_some hfound
        split at hf
        next => cases hf
        next =>
          split at hf
          next =>
            obtain rfl := Option.some.inj hf
            exact ⟨scrapeCount_le _ _, scrapeCount_le _ _⟩
          next => cases hf
      next => cases h
    next => cases h
  next => cases h

theorem SwarmStore.Holds.storable (h : x.Holds time text b) {infoHash : InfoHash} {e : CachedSwarm}
    (hentry : x.cache.entries infoHash = some e) :
    StoredEntry.fromJson time (e.stored.toJson time) = some e.stored := by
  have hmemory := h.memory infoHash
  rw [hentry, Option.map_some] at hmemory
  obtain ⟨n, hlast, hn⟩ := Option.map_eq_some_iff.mp hmemory.symm
  obtain ⟨hseeders, hleechers, hdated⟩ := h.notes n (mem_of_lastNote hlast)
  obtain ⟨hvalue, hstamp⟩ := Prod.mk.inj hn
  rw [hvalue] at hseeders hleechers
  rw [hstamp] at hdated
  exact StoredEntry.fromJson_toJson hseeders hleechers hdated

theorem SwarmStore.Holds.save (h : x.Holds time text b) (once : order.Nodup)
    (all : ∀ g, (x.cache.entries g).isSome → g ∈ order)
    (reads : text.parse (x.cache.saved time text order) = some (storedCacheJson time (x.cache.stored order))) :
    SwarmStore.Holds time text { x with file := some (x.cache.saved time text order) }
      { b with kept := b.notes } := by
  refine ⟨h.now, h.ttl, h.memory, fun ttl infoHash => ?_, h.notes, h.notes⟩
  rw [load_saved ttl once all (fun _ _ => h.storable) reads, ← h.memory infoHash, Option.map_map]
  rfl

/-- A step of the cache and its file is a step of the notes. -/
theorem swarmStore_simulates : Simulation (SwarmStoreStep time text) (NotebookStep ageAt)
    (SwarmStore.Holds time text) where
  step {x o y b} step h := by
    cases step with
    | clock now => exact ⟨_, .clock now, rfl, h.ttl, h.memory, h.file, h.notes, h.kept⟩
    | scraped infoHash body counts answered dated =>
      obtain ⟨hseeders, hleechers⟩ := decodeScrapeResponse_le answered
      refine ⟨{ b with notes := b.notes ++ [⟨infoHash, counts.figures, b.now⟩] }, ?_, h.now, h.ttl, ?_, h.file, ?_,
        h.kept⟩
      · rw [← h.now]
        exact .note infoHash counts.figures
      · rw [h.now]
        exact h.memory.insert infoHash counts x.now
      · refine List.forall_mem_append.mpr ⟨h.notes, List.forall_mem_singleton.mpr ⟨hseeders, hleechers, ?_⟩⟩
        rw [h.now]
        exact dated
    | save order once all reads => exact ⟨_, .save, h.save once all reads⟩
    | restart ttl =>
      exact ⟨_, .restart ttl, h.now, (load_ttl x.file ttl).symm, h.file ttl, h.file, h.kept, h.kept⟩
    | unread ttl =>
      exact ⟨_, .blank ttl, h.now, rfl, remembers_nil, h.file,
        fun _ hn => absurd hn List.not_mem_nil, h.kept⟩
    | deleted =>
      exact ⟨_, .lose, h.now, h.ttl, h.memory, fun _ => remembers_nil, h.notes,
        fun _ hn => absurd hn List.not_mem_nil⟩
    | get infoHash =>
      refine ⟨b, ?_, h⟩
      rw [← h.now, h.memory.get rfl h.ttl, ← h.ttl]
      exact .answer infoHash

/-- Nothing cached, and no file yet. -/
structure SwarmStore.Fresh (x : SwarmStore) : Prop where
  cache : x.cache.entries = fun _ => none
  file : x.file = none

def SwarmStore.notebook (x : SwarmStore) : Notebook InfoHash (Nat × Nat) Time := ⟨x.now, x.cache.ttl, [], []⟩

theorem SwarmStore.Fresh.holds (h : x.Fresh) : x.Holds time text x.notebook := by
  refine ⟨rfl, rfl, fun infoHash => ?_, fun ttl => ?_, fun _ hn => absurd hn List.not_mem_nil,
    fun _ hn => absurd hn List.not_mem_nil⟩
  · rw [h.cache]
    rfl
  · rw [h.file]
    exact remembers_nil

def scrapeBody : Bencode :=
  .dict [(bencodeKey "files", .dict [(zeroHash.bytes, .dict [(bencodeKey "complete", .integer 3)])])]

def scrapedOnce : List (String × StoredEntry) := [(hexEncode zeroHash, ⟨3, 0, 0⟩)]

/-- The library on a cache with one torrent in it. -/
def onceText : JsonText where
  emit _ := [1]
  parse _ := some (storedCacheJson epochText scrapedOnce)

def emptyStore : SwarmStore := ⟨0, ⟨60, fun _ => none⟩, none⟩

theorem emptyStore_fresh : emptyStore.Fresh := ⟨rfl, rfl⟩

theorem scrapedOnce_stored (cache : SwarmCache) :
    (cache.insert zeroHash ⟨3, 0, 0⟩ 0).stored [zeroHash] = scrapedOnce := by
  simp [SwarmCache.stored, SwarmCache.insert, scrapedOnce, CachedSwarm.stored]

theorem scrapeBody_decodes : decodeScrapeResponse (.ok scrapeBody) zeroHash = .ok ⟨3, 0, 0⟩ := by
  simp [decodeScrapeResponse, scrapeBody, scrapeCount, bencodeGet]
  decide

/-- The first scrape of an install. -/
theorem emptyStore_scraped :
    SwarmStoreStep epochText onceText emptyStore (.noted ⟨zeroHash, (3, 0), 0⟩)
      { emptyStore with cache := emptyStore.cache.insert zeroHash ⟨3, 0, 0⟩ 0 } :=
  .scraped zeroHash (.ok scrapeBody) ⟨3, 0, 0⟩ scrapeBody_decodes rfl

theorem emptyStore_scraped_all : ∀ h, ((emptyStore.cache.insert zeroHash ⟨3, 0, 0⟩ 0).entries h).isSome →
    h ∈ [zeroHash] := by
  intro h hsome
  by_contra hne
  have hother : h ≠ zeroHash := fun he => hne (List.mem_singleton.mpr he)
  simp [SwarmCache.insert, emptyStore, Function.update_of_ne hother] at hsome

/-- The cache with its file, over any number of starts of the daemon, answers as notes do of which a restart
brings back those that were saved last. -/
theorem swarm_cache_refines_notes (fresh : x.Fresh) (run : Trace (SwarmStoreStep time text) x obs y) :
    ∃ b, Trace (NotebookStep ageAt) x.notebook obs b ∧ y.Holds time text b :=
  swarmStore_simulates.run run fresh.holds

/-- A scrape, its save, a restart and a lookup. -/
theorem swarm_cache_refines_notes_scraped :
    ∃ y b answer, Trace (NotebookStep ageAt) emptyStore.notebook
        [.noted ⟨zeroHash, (3, 0), 0⟩, .silent, .silent, .answered zeroHash 0 60 answer] b ∧
      SwarmStore.Holds epochText onceText y b := by
  let x₁ : SwarmStore := { emptyStore with cache := emptyStore.cache.insert zeroHash ⟨3, 0, 0⟩ 0 }
  have reads : onceText.parse (x₁.cache.saved epochText onceText [zeroHash]) =
      some (storedCacheJson epochText (x₁.cache.stored [zeroHash])) := by
    rw [show x₁.cache.stored [zeroHash] = scrapedOnce from scrapedOnce_stored _]
    rfl
  have saved : SwarmStoreStep epochText onceText x₁ .silent _ :=
    .save [zeroHash] (List.nodup_singleton _) emptyStore_scraped_all reads
  have run := (((Trace.single emptyStore_scraped).tail saved).tail (.restart 60)).tail (.get zeroHash)
  obtain ⟨b, hrun, hb⟩ := swarm_cache_refines_notes emptyStore_fresh run
  exact ⟨_, b, _, hrun, hb⟩

/-- Whatever the cache answers, a tracker has said of that torrent, no longer ago than the cache keeps it. -/
theorem cached_figures_were_scraped (fresh : x.Fresh) (run : Trace (SwarmStoreStep time text) x obs y)
    {infoHash : InfoHash} {now : Time} {ttl : Duration} {figures : Nat × Nat}
    (answered : .answered infoHash now ttl (some figures) ∈ obs) :
    ∃ stamp, .noted ⟨infoHash, figures, stamp⟩ ∈ obs ∧ ageAt stamp now ≤ ttl := by
  have hstart : x.Holds time text x.notebook := fresh.holds
  obtain ⟨b, hrun, -⟩ := swarmStore_simulates.run run hstart
  have hfresh : Notebook.FromNotes ageAt [] x.notebook :=
    ⟨fun _ h => absurd h List.not_mem_nil, fun _ h => absurd h List.not_mem_nil,
      fun _ _ _ _ h => absurd h List.not_mem_nil⟩
  exact (Notebook.fromNotes_of_run hrun hfresh).answers infoHash now ttl figures answered

theorem cached_figures_were_scraped_once :
    ∃ stamp, .noted ⟨zeroHash, (3, 0), stamp⟩ ∈
        [.noted ⟨zeroHash, (3, 0), 0⟩, NotebookEvent.answered zeroHash (0 : Time) 60 (some (3, 0))] ∧
      ageAt stamp 0 ≤ 60 := by
  have asked : SwarmStoreStep epochText onceText
      { emptyStore with cache := emptyStore.cache.insert zeroHash ⟨3, 0, 0⟩ 0 }
      (.answered zeroHash 0 60 (some (3, 0))) _ := .get zeroHash
  exact cached_figures_were_scraped emptyStore_fresh ((Trace.single emptyStore_scraped).tail asked) (by simp)

/-- The cache has that entry of the torrent, or the figures of a later scrape. -/
def SwarmCache.NoOlderThan (cache : SwarmCache) (infoHash : InfoHash) (e : CachedSwarm)
    (later : List SwarmEvent) : Prop :=
  ∃ e', cache.entries infoHash = some e' ∧
    ((e'.counts.figures, e'.cachedAt) = (e.counts.figures, e.cachedAt) ∨
      .noted ⟨infoHash, e'.counts.figures, e'.cachedAt⟩ ∈ later)

theorem SwarmCache.Remembers.noOlderThan (h : cache.Remembers notes) {infoHash : InfoHash} {e : CachedSwarm}
    (noOlder : Notebook.NoOlder ⟨infoHash, e.counts.figures, e.cachedAt⟩ obs notes) :
    cache.NoOlderThan infoHash e obs := by
  obtain ⟨n, hlast, hlater⟩ := noOlder
  have hentry := h infoHash
  rw [hlast] at hentry
  obtain ⟨e', he', hn⟩ := Option.map_eq_some_iff.mp hentry
  obtain ⟨hvalue, hstamp⟩ := Prod.mk.inj hn
  refine ⟨e', he', hlater.imp (fun heq => ?_) fun hmem => ?_⟩
  · rw [hvalue, hstamp, heq]
  · obtain ⟨key, value, stamp⟩ := n
    obtain rfl : key = infoHash := key_of_lastNote hlast
    rwa [hvalue, hstamp]

/-- What the cache has of a torrent when it is saved is not gone back behind: as long as the file is there to be
read, what the cache has of it from then on, and what any start would load, is that or a later scrape. -/
theorem saved_scrapes_survive {z : SwarmStore} {later : List SwarmEvent} {infoHash : InfoHash} {e : CachedSwarm}
    (fresh : x.Fresh) (run : Trace (SwarmStoreStep time text) x obs y) (had : y.cache.entries infoHash = some e)
    (once : order.Nodup) (all : ∀ h, (y.cache.entries h).isSome → h ∈ order)
    (reads : text.parse (y.cache.saved time text order) = some (storedCacheJson time (y.cache.stored order)))
    (rest : Trace (SwarmStoreStep time text) { y with file := some (y.cache.saved time text order) } later z)
    (whole : .forgot ∉ later) :
    z.cache.NoOlderThan infoHash e later ∧
      ∀ ttl, (SwarmCache.load time text z.file ttl).NoOlderThan infoHash e later := by
  have hstart : x.Holds time text x.notebook := fresh.holds
  obtain ⟨b, -, hb⟩ := swarmStore_simulates.run run hstart
  obtain ⟨b', hrest, hb'⟩ := swarmStore_simulates.run rest (hb.save once all reads)
  have hentry := hb.memory infoHash
  rw [had] at hentry
  obtain ⟨n, hlast, hn⟩ := Option.map_eq_some_iff.mp hentry.symm
  have hnote : n = ⟨infoHash, e.counts.figures, e.cachedAt⟩ := by
    obtain ⟨key, value, stamp⟩ := n
    obtain rfl : key = infoHash := key_of_lastNote hlast
    obtain ⟨rfl, rfl⟩ := Prod.mk.inj hn
    rfl
  obtain ⟨hnotes, hkept⟩ := Notebook.kept_survives hrest (n := ⟨infoHash, e.counts.figures, e.cachedAt⟩)
    (hlast.trans (congrArg some hnote)) rfl whole
  exact ⟨hb'.memory.noOlderThan hnotes, fun ttl => (hb'.file ttl).noOlderThan hkept⟩

/-- A restart after the first save. -/
theorem saved_scrapes_survive_restart :
    ∃ z : SwarmStore, z.cache.NoOlderThan zeroHash ⟨⟨3, 0, 0⟩, 0⟩ [.silent] := by
  let y : SwarmStore := { emptyStore with cache := emptyStore.cache.insert zeroHash ⟨3, 0, 0⟩ 0 }
  have reads : onceText.parse (y.cache.saved epochText onceText [zeroHash]) =
      some (storedCacheJson epochText (y.cache.stored [zeroHash])) := by
    rw [show y.cache.stored [zeroHash] = scrapedOnce from scrapedOnce_stored _]
    rfl
  have restarted : SwarmStoreStep epochText onceText
      { y with file := some (y.cache.saved epochText onceText [zeroHash]) } .silent _ := .restart 60
  exact ⟨_, (saved_scrapes_survive emptyStore_fresh (.single emptyStore_scraped) (by simp [SwarmCache.insert])
    (List.nodup_singleton _) emptyStore_scraped_all reads (.single restarted) (by simp)).1⟩

end KeepAt
