import KeepAt.Json
import KeepAt.PathText
import KeepAt.StateOps

namespace KeepAt

/-- What the state file uses of the libraries: the text of a time and the time of a text. -/
structure TimeText where
  emit : Time → String
  parse : String → Option Time

def TimeText.Reads (lib : TimeText) (t : Time) : Prop := lib.parse (lib.emit t) = some t

section Codec

variable (lib : TimeText)

def timeJson (t : Time) : Json := .str (lib.emit t)

def jsonTime (j : Json) : Option Time := (jsonString j).bind lib.parse

def jsonPath (j : Json) : Option PathBuf := (jsonString j).map pathOf

def Torrent.members (t : Torrent) : JsonMembers :=
  [("info_hash", .str t.infoHash),
   ("title", .str t.title),
   ("size_bytes", .int t.sizeBytes),
   ("storage_location", .str (pathText t.storageLocation)),
   ("added_at", timeJson lib t.addedAt),
   ("piece_count", .int t.pieceCount),
   ("last_known_seeders", .int t.lastKnownSeeders),
   ("completed_pieces", .int t.completedPieces),
   ("last_progress_at", (t.lastProgressAt.map (timeJson lib)).getD .null),
   ("last_confirmed_in_catalog_at", (t.lastConfirmedInCatalogAt.map (timeJson lib)).getD .null)]

def Torrent.toJson (t : Torrent) : Json := .obj (t.members lib)

def Torrent.fromJson : Json → Option Torrent
  | .obj members => do
    let infoHash ← jsonField members "info_hash" none jsonString
    let title ← jsonField members "title" (some "") jsonString
    let sizeBytes ← jsonField members "size_bytes" none (jsonNat u64Max)
    let storageLocation ← jsonField members "storage_location" none jsonPath
    let addedAt ← jsonField members "added_at" none (jsonTime lib)
    let pieceCount ← jsonField members "piece_count" (some 0) (jsonNat u32Max)
    let lastKnownSeeders ← jsonField members "last_known_seeders" (some 0) (jsonNat u32Max)
    let completedPieces ← jsonField members "completed_pieces" (some 0) (jsonNat u64Max)
    let lastProgressAt ← jsonField members "last_progress_at" (some none) (jsonOption (jsonTime lib))
    let lastConfirmedInCatalogAt ←
      jsonField members "last_confirmed_in_catalog_at" (some none) (jsonOption (jsonTime lib))
    return {
      infoHash, title, sizeBytes, storageLocation, addedAt, pieceCount, lastKnownSeeders, completedPieces,
      lastProgressAt, lastConfirmedInCatalogAt }
  | _ => none

def Quarantine.members (q : Quarantine) : JsonMembers :=
  [("title", .str q.title),
   ("reason", .str q.reason),
   ("quarantined_at", timeJson lib q.quarantinedAt),
   ("cooldown_until", timeJson lib q.cooldownUntil),
   ("attempts", .int q.attempts),
   ("wasted_bytes", .int q.wastedBytes)]

def Quarantine.toJson (q : Quarantine) : Json := .obj (q.members lib)

def Quarantine.fromJson : Json → Option Quarantine
  | .obj members => do
    let title ← jsonField members "title" none jsonString
    let reason ← jsonField members "reason" none jsonString
    let quarantinedAt ← jsonField members "quarantined_at" none (jsonTime lib)
    let cooldownUntil ← jsonField members "cooldown_until" none (jsonTime lib)
    let attempts ← jsonField members "attempts" none (jsonNat u32Max)
    let wastedBytes ← jsonField members "wasted_bytes" none (jsonNat u64Max)
    return { title, reason, quarantinedAt, cooldownUntil, attempts, wastedBytes }
  | _ => none

/-- The maps as they are read, under the names that the file gives. -/
structure StoredMaps where
  torrents : KeyedList (Prod.fst : String × Torrent → String)
  quarantined : Registry

/-- The file with each torrent and each quarantine entry written as the given object. -/
def Stored.membersOf (s : Stored) (torrent : Torrent → JsonMembers) (entry : Quarantine → JsonMembers) :
    JsonMembers :=
  [("torrents", .obj (s.torrents.values.map fun t => (t.infoHash, .obj (torrent t)))),
   ("quarantined", .obj (s.quarantined.values.map fun q => (q.1, .obj (entry q.2))))]

def Stored.toJson (s : Stored) : Json := .obj (s.membersOf (Torrent.members lib) (Quarantine.members lib))

def StoredMaps.fromJson : Json → Option StoredMaps
  | .obj members => do
    let torrents ← jsonField members "torrents" (some .empty) (jsonMap (Torrent.fromJson lib))
    let quarantined ← jsonField members "quarantined" (some .empty) (jsonMap (Quarantine.fromJson lib))
    return { torrents, quarantined }
  | _ => none

end Codec

/-- The fields that a record may lack. -/
def Torrent.optionalFields : List String :=
  ["title", "piece_count", "last_known_seeders", "completed_pieces", "last_progress_at",
   "last_confirmed_in_catalog_at"]

/-- The torrent as a reader sees it that finds some fields missing. -/
def Torrent.without (t : Torrent) (dropped : String → Bool) : Torrent :=
  { t with
    title := if dropped "title" then "" else t.title
    pieceCount := if dropped "piece_count" then 0 else t.pieceCount
    lastKnownSeeders := if dropped "last_known_seeders" then 0 else t.lastKnownSeeders
    completedPieces := if dropped "completed_pieces" then 0 else t.completedPieces
    lastProgressAt := if dropped "last_progress_at" then none else t.lastProgressAt
    lastConfirmedInCatalogAt :=
      if dropped "last_confirmed_in_catalog_at" then none else t.lastConfirmedInCatalogAt }

/-- Values of the field types, with a location that is a path and times that the library reads back. -/
structure Torrent.Writable (lib : TimeText) (t : Torrent) : Prop where
  size : t.sizeBytes ≤ u64Max
  pieces : t.pieceCount ≤ u32Max
  seeders : t.lastKnownSeeders ≤ u32Max
  completed : t.completedPieces ≤ u64Max
  location : NormalPath t.storageLocation
  added : lib.Reads t.addedAt
  progress : ∀ time, t.lastProgressAt = some time → lib.Reads time
  confirmed : ∀ time, t.lastConfirmedInCatalogAt = some time → lib.Reads time

structure Quarantine.Writable (lib : TimeText) (q : Quarantine) : Prop where
  since : lib.Reads q.quarantinedAt
  cooldown : lib.Reads q.cooldownUntil
  attempts : q.attempts ≤ u32Max
  wasted : q.wastedBytes ≤ u64Max

structure Stored.Writable (lib : TimeText) (s : Stored) : Prop where
  torrents : ∀ t ∈ s.torrents.values, t.Writable lib
  quarantined : ∀ q ∈ s.quarantined.values, q.2.Writable lib

variable {lib : TimeText}

theorem jsonTime_timeJson {t : Time} (h : lib.Reads t) : jsonTime lib (timeJson lib t) = some t := h

theorem jsonOption_time {x : Option Time} (h : ∀ t, x = some t → lib.Reads t) :
    jsonOption (jsonTime lib) ((x.map (timeJson lib)).getD .null) = some x :=
  jsonOption_eq (fun t => by simp [timeJson]) fun t ht => jsonTime_timeJson (h t ht)

theorem jsonPath_pathText {p : PathBuf} (h : NormalPath p) : jsonPath (.str (pathText p)) = some p :=
  congrArg some (pathOf_pathText h)

theorem Torrent.members_nodup (t : Torrent) : ((t.members lib).map Prod.fst).Nodup := by
  simp [Torrent.members]

/-- A torrent reads back from any object that holds its fields, and from one of an older version, which
lacks some, with their defaults. -/
theorem Torrent.fromJson_of_holds {t : Torrent} {members : JsonMembers} (dropped : String → Bool)
    (h : t.Writable lib) (hdropped : ∀ name, dropped name = true → name ∈ Torrent.optionalFields)
    (hholds : Holds (t.members lib) dropped members) :
    Torrent.fromJson lib (.obj members) = some (t.without dropped) := by
  have kept : ∀ name, name ∉ Torrent.optionalFields → dropped name = false := fun name hname => by
    cases hd : dropped name with
    | false => rfl
    | true => exact absurd (hdropped name hd) hname
  have infoHash : jsonField members "info_hash" none jsonString = some t.infoHash :=
    hholds.required (j := .str t.infoHash) (by simp [Torrent.members]) (kept _ (by decide)) rfl
  have title : jsonField members "title" (some "") jsonString =
      some (if dropped "title" then "" else t.title) :=
    hholds.defaulted (j := .str t.title) (by simp [Torrent.members]) rfl
  have size : jsonField members "size_bytes" none (jsonNat u64Max) = some t.sizeBytes :=
    hholds.required (by simp [Torrent.members]) (kept _ (by decide)) (jsonNat_int h.size)
  have location : jsonField members "storage_location" none jsonPath = some t.storageLocation :=
    hholds.required (by simp [Torrent.members]) (kept _ (by decide)) (jsonPath_pathText h.location)
  have added : jsonField members "added_at" none (jsonTime lib) = some t.addedAt :=
    hholds.required (by simp [Torrent.members]) (kept _ (by decide)) (jsonTime_timeJson h.added)
  have pieces : jsonField members "piece_count" (some 0) (jsonNat u32Max) =
      some (if dropped "piece_count" then 0 else t.pieceCount) :=
    hholds.defaulted (by simp [Torrent.members]) (jsonNat_int h.pieces)
  have seeders : jsonField members "last_known_seeders" (some 0) (jsonNat u32Max) =
      some (if dropped "last_known_seeders" then 0 else t.lastKnownSeeders) :=
    hholds.defaulted (by simp [Torrent.members]) (jsonNat_int h.seeders)
  have completed : jsonField members "completed_pieces" (some 0) (jsonNat u64Max) =
      some (if dropped "completed_pieces" then 0 else t.completedPieces) :=
    hholds.defaulted (by simp [Torrent.members]) (jsonNat_int h.completed)
  have progress : jsonField members "last_progress_at" (some none) (jsonOption (jsonTime lib)) =
      some (if dropped "last_progress_at" then none else t.lastProgressAt) :=
    hholds.defaulted (by simp [Torrent.members]) (jsonOption_time h.progress)
  have confirmed : jsonField members "last_confirmed_in_catalog_at" (some none) (jsonOption (jsonTime lib)) =
      some (if dropped "last_confirmed_in_catalog_at" then none else t.lastConfirmedInCatalogAt) :=
    hholds.defaulted (by simp [Torrent.members]) (jsonOption_time h.confirmed)
  simp only [Torrent.fromJson, infoHash, title, size, location, added, pieces, seeders, completed, progress,
    confirmed, Option.bind_eq_bind, Option.bind_some]
  rfl

theorem Torrent.fromJson_toJson {t : Torrent} (h : t.Writable lib) :
    Torrent.fromJson lib (t.toJson lib) = some t :=
  fromJson_of_holds (fun _ => false) h (fun _ hd => absurd hd Bool.false_ne_true)
    (Holds.self t.members_nodup)

theorem Quarantine.fromJson_of_holds {q : Quarantine} {members : JsonMembers} (h : q.Writable lib)
    (hholds : Holds (q.members lib) (fun _ => false) members) :
    Quarantine.fromJson lib (.obj members) = some q := by
  have title : jsonField members "title" none jsonString = some q.title :=
    hholds.required (j := .str q.title) (by simp [Quarantine.members]) rfl rfl
  have reason : jsonField members "reason" none jsonString = some q.reason :=
    hholds.required (j := .str q.reason) (by simp [Quarantine.members]) rfl rfl
  have since : jsonField members "quarantined_at" none (jsonTime lib) = some q.quarantinedAt :=
    hholds.required (by simp [Quarantine.members]) rfl (jsonTime_timeJson h.since)
  have cooldown : jsonField members "cooldown_until" none (jsonTime lib) = some q.cooldownUntil :=
    hholds.required (by simp [Quarantine.members]) rfl (jsonTime_timeJson h.cooldown)
  have attempts : jsonField members "attempts" none (jsonNat u32Max) = some q.attempts :=
    hholds.required (by simp [Quarantine.members]) rfl (jsonNat_int h.attempts)
  have wasted : jsonField members "wasted_bytes" none (jsonNat u64Max) = some q.wastedBytes :=
    hholds.required (by simp [Quarantine.members]) rfl (jsonNat_int h.wasted)
  simp only [Quarantine.fromJson, title, reason, since, cooldown, attempts, wasted, Option.bind_eq_bind,
    Option.bind_some]
  rfl

theorem Quarantine.members_nodup (q : Quarantine) : ((q.members lib).map Prod.fst).Nodup := by
  simp [Quarantine.members]

theorem Quarantine.fromJson_toJson {q : Quarantine} (h : q.Writable lib) :
    Quarantine.fromJson lib (q.toJson lib) = some q :=
  fromJson_of_holds h (Holds.self q.members_nodup)

theorem Stored.read_torrents {s : Stored} (dropped : Torrent → String → Bool) {torrent : Torrent → JsonMembers}
    (h : s.Writable lib) (hdropped : ∀ t name, dropped t name = true → name ∈ Torrent.optionalFields)
    (htorrent : ∀ t ∈ s.torrents.values, Holds (t.members lib) (dropped t) (torrent t)) :
    ∃ m, jsonMap (Torrent.fromJson lib)
        (.obj (s.torrents.values.map fun t => (t.infoHash, .obj (torrent t)))) = some m ∧
      ∀ hex, m.find hex = (s.torrents.find hex).map fun t => (hex, t.without (dropped t)) := by
  have hmapM : (s.torrents.values.map fun t => (t.infoHash, Json.obj (torrent t))).mapM
      (fun m => (Torrent.fromJson lib m.2).map (m.1, ·)) =
        some (s.torrents.values.map fun t => (t.infoHash, t.without (dropped t))) := by
    rw [List.mapM_map]
    refine mapM_eq_some_map fun t ht => ?_
    simp [Torrent.fromJson_of_holds (dropped t) (h.torrents t ht) (hdropped t) (htorrent t ht)]
  obtain ⟨m, hm, hvalues⟩ := jsonMap_obj hmapM (by simpa [Function.comp_def] using s.torrents.distinct)
  refine ⟨m, hm, fun hex => ?_⟩
  rw [find_of_values (x := (s.torrents.find hex).map fun t => t.without (dropped t)), Option.map_map]
  · rfl
  · intro t
    rw [hvalues, List.mem_map, Option.map_eq_some_iff]
    constructor
    · rintro ⟨u, hu, he⟩
      obtain ⟨rfl, rfl⟩ := Prod.mk.inj he
      exact ⟨u, KeyedList.find_eq_some.mpr ⟨hu, rfl⟩, rfl⟩
    · rintro ⟨u, hu, rfl⟩
      obtain ⟨hmem, rfl⟩ := KeyedList.find_eq_some.mp hu
      exact ⟨u, hmem, rfl⟩

theorem Stored.read_quarantined {s : Stored} {entry : Quarantine → JsonMembers} (h : s.Writable lib)
    (hentry : ∀ q ∈ s.quarantined.values, Holds (q.2.members lib) (fun _ => false) (entry q.2)) :
    ∃ m, jsonMap (Quarantine.fromJson lib)
        (.obj (s.quarantined.values.map fun q => (q.1, .obj (entry q.2)))) = some m ∧
      ∀ hex, m.find hex = s.quarantined.find hex := by
  have hmapM : (s.quarantined.values.map fun q => (q.1, Json.obj (entry q.2))).mapM
      (fun m => (Quarantine.fromJson lib m.2).map (m.1, ·)) = some s.quarantined.values := by
    rw [List.mapM_map]
    refine (mapM_eq_some_map (g := id) fun q hq => ?_).trans (by rw [List.map_id])
    simp [Quarantine.fromJson_of_holds (h.quarantined q hq) (hentry q hq)]
  obtain ⟨m, hm, hvalues⟩ := jsonMap_obj hmapM s.quarantined.distinct
  refine ⟨m, hm, fun hex => ?_⟩
  have hfind : s.quarantined.find hex = ((s.quarantined.find hex).map Prod.snd).map (hex, ·) := by
    cases hq : s.quarantined.find hex with
    | none => rfl
    | some q => rw [← (KeyedList.find_eq_some.mp hq).2]; rfl
  rw [hfind]
  refine find_of_values fun q => ?_
  rw [hvalues, Option.map_eq_some_iff]
  constructor
  · exact fun hq => ⟨_, KeyedList.find_eq_some.mpr ⟨hq, rfl⟩, rfl⟩
  · rintro ⟨⟨k, q'⟩, hq, rfl⟩
    obtain ⟨hmem, rfl⟩ := KeyedList.find_eq_some.mp hq
    exact hmem

/-- A state file, also of an older version that lacks whole maps or fields of some torrents, reads as the
state it was written for, with defaults for what is missing. -/
theorem StoredMaps.fromJson_of_holds {s : Stored} {members : JsonMembers} (dropped : Torrent → String → Bool)
    (lacks : String → Bool) (torrent : Torrent → JsonMembers) (entry : Quarantine → JsonMembers) (h : s.Writable lib)
    (hdropped : ∀ t name, dropped t name = true → name ∈ Torrent.optionalFields)
    (htorrent : ∀ t ∈ s.torrents.values, Holds (t.members lib) (dropped t) (torrent t))
    (hentry : ∀ q ∈ s.quarantined.values, Holds (q.2.members lib) (fun _ => false) (entry q.2))
    (hholds : Holds (s.membersOf torrent entry) lacks members) :
    ∃ maps, StoredMaps.fromJson lib (.obj members) = some maps ∧
      (∀ hex, maps.torrents.find hex =
        if lacks "torrents" then none
        else (s.torrents.find hex).map fun t => (hex, t.without (dropped t))) ∧
      ∀ hex, maps.quarantined.find hex = if lacks "quarantined" then none else s.quarantined.find hex := by
  obtain ⟨torrents, htorrents, htfind⟩ := s.read_torrents dropped h hdropped htorrent
  obtain ⟨quarantined, hquarantined, hqfind⟩ := s.read_quarantined h hentry
  have torrentsField : jsonField members "torrents" (some .empty) (jsonMap (Torrent.fromJson lib)) =
      some (if lacks "torrents" then .empty else torrents) :=
    hholds.defaulted (by simp [Stored.membersOf]) htorrents
  have quarantinedField : jsonField members "quarantined" (some .empty) (jsonMap (Quarantine.fromJson lib)) =
      some (if lacks "quarantined" then .empty else quarantined) :=
    hholds.defaulted (by simp [Stored.membersOf]) hquarantined
  refine ⟨⟨if lacks "torrents" then .empty else torrents, if lacks "quarantined" then .empty else quarantined⟩,
    ?_, fun hex => ?_, fun hex => ?_⟩
  · simp only [StoredMaps.fromJson, torrentsField, quarantinedField, Option.bind_eq_bind, Option.bind_some]
    rfl
  · cases lacks "torrents" with
    | true => rfl
    | false => exact htfind hex
  · cases lacks "quarantined" with
    | true => rfl
    | false => exact hqfind hex

end KeepAt
