import KeepAt.Placement

namespace KeepAt

namespace Reference

def mib : Nat := 1024 * 1024

/-- The bytes of a single-file torrent of 100 MiB, created in 2020, whose name is one letter: a
dictionary of `announce`, `creation date` and `info`, the last of `length`, `name`, `piece length`
and two piece hashes. -/
def file (name : UInt8) : Bytes :=
  [100, 56, 58, 97, 110, 110, 111, 117, 110, 99, 101, 49, 55, 58, 104, 116, 116, 112, 58,
   47, 47, 116, 47, 97, 110, 110, 111, 117, 110, 99, 101, 49, 51, 58, 99, 114, 101, 97, 116,
   105, 111, 110, 32, 100, 97, 116, 101, 105, 49, 54, 48, 48, 48, 48, 48, 48, 48, 48, 101,
   52, 58, 105, 110, 102, 111, 100, 54, 58, 108, 101, 110, 103, 116, 104, 105, 49, 48, 52,
   56, 53, 55, 54, 48, 48, 101, 52, 58, 110, 97, 109, 101, 49, 58] ++
    name ::
  [49, 50, 58, 112, 105, 101, 99, 101, 32, 108, 101, 110, 103, 116, 104, 105, 54, 55, 49,
   48, 56, 56, 54, 52, 101, 54, 58, 112, 105, 101, 99, 101, 115, 52, 48, 58] ++
    List.replicate 40 97 ++ [101, 101]

def hashA : InfoHash :=
  ⟨[5, 75, 196, 236, 231, 146, 229, 35, 115, 177, 198, 229, 91, 105, 6, 143, 91, 20, 207, 216], rfl⟩

def hashB : InfoHash :=
  ⟨[15, 55, 216, 135, 120, 42, 183, 202, 207, 8, 250, 61, 24, 85, 247, 200, 111, 94, 20, 164], rfl⟩

def metadata (hash : InfoHash) (name : String) : TorrentMeta :=
  { infoHash := hash, trackers := ["http://t/announce"],
    createdAt := some (1600000000 * 10 ^ 9), totalLength := 100 * mib, pieceCount := 2, fileCount := 1,
    name }

def metainfo (hash : InfoHash) (name : String) : Metainfo :=
  { infoHash := hash, announces := ["http://t/announce".toList.map fun c => UInt8.ofNat c.toNat],
    creationDate := some 1600000000,
    validated := some
      { totalLength := 100 * mib, totalPieces := 2, padding := [false], name := some name } }

/-- The decoder on the two files in use here. -/
def torrentFromBytes (body : Bytes) : Option Metainfo :=
  if body = file 97 then some (metainfo hashA "a")
  else if body = file 98 then some (metainfo hashB "b")
  else none

def location : PathBuf := ["/", "mnt", "a"]

def otherLocation : PathBuf := ["/", "mnt", "b"]

def settings : Settings where
  cfg :=
    { config :=
        { dataDir := ["/", "var"]
          storage := [⟨location, .bytes (200 * mib)⟩, ⟨otherLocation, .bytes (200 * mib)⟩] }
      distinct := by decide
      bounded := by decide }
  maxTorrents := 4
  ramBudget := 256 * mib
  ramBudget_le := by decide
  sizeBias := .ofRat 0
  powf := fun x _ => x
  torrentFromBytes
  toLowercase := fun t => t.map Char.toLower

def engine (ts : List Torrent) (h : (ts.map Torrent.infoHash).Nodup) : Engine where
  state := ⟨⟨ts, h⟩, .empty, ⟨⟨ts, h⟩, .empty⟩⟩
  session := ts.map Torrent.infoHash
  torrentCache := ⟨[(hexEncode hashA, file 97), (hexEncode hashB, file 98)], by decide⟩
  history := []
  live := none
  detector := .empty
  lastCatalog := none

def candidate (hash : InfoHash) (seeders : Nat) : Candidate :=
  { infoHash := hash, title := "t", sizeBytes := 100 * mib, pieceCount := 2, seeders, leechers := 0,
    seederFloor := 0 }

def held (hex : String) (location : PathBuf) : Torrent :=
  { infoHash := hex, title := "h", sizeBytes := 150 * mib, storageLocation := location, addedAt := 0,
    pieceCount := 3, lastKnownSeeders := 20, completedPieces := 0, lastProgressAt := some 0,
    lastConfirmedInCatalogAt := some 0 }

def place (sessionOk : Bool) : PlaceEnv :=
  { mkdirOk := true, sessionOk, addedAt := 1, progressAt := 1, confirmedAt := 1, saved := true,
    recordedAt := 1 }

/-- Calls succeed, but for the session on the free-space path when `fillOk` is off. -/
def env (fillOk : Bool) : ActEnv where
  now := 1
  fetch := { body := none, cacheSaved := true }
  fdHeadroom := none
  roll := .ofRat 0
  locationRoll := .ofRat 0
  deviceFree := fun _ => none
  fill := place fillOk
  swap :=
    { deviceFree := fun _ => none, dirSize := fun _ => 0, place := fun _ => place true,
      remove := fun _ => { deleted := true, cacheUnlinked := true, saved := true } }

end Reference

end KeepAt
