import KeepAt.DurableWrite
import KeepAt.StateJson

namespace KeepAt

/-- `serde_json` on whole values: the text of one, and the value of a text. -/
structure JsonText where
  emit : Json → Bytes
  parse : Bytes → Option Json

/-- What a read of the state file meets. -/
inductive StateRead where
  | notFound
  | failed
  | data (bytes : Bytes)

/-- No file is a new install; one that does not parse is an error. -/
def State.load (time : TimeText) (text : JsonText) : StateRead → Option StoredMaps
  | .notFound => some ⟨.empty, .empty⟩
  | .failed => none
  | .data bytes => (text.parse bytes).bind (StoredMaps.fromJson time)

/-- A file that loads as the maps of a state. -/
def LoadsAs (time : TimeText) (text : JsonText) (file : Option FileNode) (s : Stored) : Prop :=
  ∃ maps, State.load time text ((file.map fun n => .data n.bytes).getD .notFound) = some maps ∧
    (∀ hex, (maps.torrents.find hex).map Prod.snd = s.torrents.find hex) ∧
    ∀ hex, maps.quarantined.find hex = s.quarantined.find hex

/-- The data and the mode that a save of the state hands to `atomic_write`. -/
def Stored.saved (time : TimeText) (text : JsonText) (s : Stored) : FileNode :=
  ⟨text.emit (s.toJson time), 0o644⟩

variable {time : TimeText} {text : JsonText}

theorem without_none (t : Torrent) : t.without (fun _ => false) = t := rfl

theorem Stored.saved_loads {s : Stored} (h : s.Writable time)
    (hparse : text.parse (text.emit (s.toJson time)) = some (s.toJson time)) :
    LoadsAs time text (some (s.saved time text)) s := by
  obtain ⟨maps, hread, htorrents, hquarantined⟩ := StoredMaps.fromJson_of_holds
    (fun _ _ => false) (fun _ => false) (Torrent.members time) (Quarantine.members time) h
    (fun _ _ hd => absurd hd Bool.false_ne_true) (fun t _ => Holds.self t.members_nodup)
    (fun q _ => Holds.self q.2.members_nodup) (Holds.self (by simp [Stored.membersOf]))
  refine ⟨maps, ?_, fun hex => ?_, hquarantined⟩
  · simp only [State.load, Option.map_some, Option.getD_some, Stored.saved, hparse, Option.bind_some]
    exact hread
  · rw [htorrents hex]
    simp [without_none]

/-- A state file of any older version, which lacks some of the defaulted fields of some torrents or the whole
quarantine registry, or of a newer one, with members that nothing asks for, in whatever order: each torrent
is found under its hash with its own fields and the defaults of those it lacks, and each quarantine entry as it is. -/
theorem other_versions_of_the_state_load {s : Stored} (dropped : Torrent → String → Bool)
    (lacks : String → Bool) (torrent extra : Torrent → JsonMembers) (entry further : Quarantine → JsonMembers)
    (members more : JsonMembers) (h : s.Writable time)
    (hdropped : ∀ t name, dropped t name = true → name ∈ Torrent.optionalFields)
    (htorrent : ∀ t ∈ s.torrents.values,
      (torrent t).Perm (((t.members time).filter fun m => !dropped t m.1) ++ extra t))
    (hextra : ∀ t, ∀ m ∈ extra t, m.1 ∉ (t.members time).map Prod.fst)
    (hentry : ∀ q ∈ s.quarantined.values, (entry q.2).Perm (q.2.members time ++ further q.2))
    (hfurther : ∀ q, ∀ m ∈ further q, m.1 ∉ (q.members time).map Prod.fst)
    (hmembers : members.Perm (((s.membersOf torrent entry).filter fun m => !lacks m.1) ++ more))
    (hmore : ∀ m ∈ more, m.1 ∉ ["torrents", "quarantined"]) :
    ∃ maps, StoredMaps.fromJson time (.obj members) = some maps ∧
      (∀ hex, maps.torrents.find hex =
        if lacks "torrents" then none
        else (s.torrents.find hex).map fun t => (hex, t.without (dropped t))) ∧
      ∀ hex, maps.quarantined.find hex = if lacks "quarantined" then none else s.quarantined.find hex := by
  have holdsEntry : ∀ q ∈ s.quarantined.values, Holds (q.2.members time) (fun _ => false) (entry q.2) := by
    intro q hq
    refine Holds.of_perm q.2.members_nodup (hfurther q.2) ?_
    simpa using hentry q hq
  exact StoredMaps.fromJson_of_holds dropped lacks torrent entry h hdropped
    (fun t ht => Holds.of_perm t.members_nodup (hextra t) (htorrent t ht)) holdsEntry
    (Holds.of_perm (by simp [Stored.membersOf]) hmore hmembers)

def epochText : TimeText where
  emit t := if t = 0 then "1970-01-01T00:00:00Z" else ""
  parse s := if s = "1970-01-01T00:00:00Z" then some 0 else none

def heldOnce : Torrent :=
  { infoHash := "aa", title := "t", sizeBytes := 1, storageLocation := ["/", "mnt"], addedAt := 0, pieceCount := 4,
    lastKnownSeeders := 2, completedPieces := 0, lastProgressAt := none, lastConfirmedInCatalogAt := none }

def blockedOnce : Quarantine :=
  { title := "q", reason := "r", quarantinedAt := 0, cooldownUntil := 0, attempts := 1, wastedBytes := 2 }

def storedOnce : Stored := ⟨KeyedList.empty.insert heldOnce, KeyedList.empty.insert ("bb", blockedOnce)⟩

theorem storedOnce_writable : storedOnce.Writable epochText := by
  refine ⟨fun t ht => ?_, fun q hq => ?_⟩
  · obtain rfl : t = heldOnce := by simpa [storedOnce, KeyedList.insert, KeyedList.erase, KeyedList.empty] using ht
    refine ⟨by decide, by decide, by decide, by decide, Or.inr ⟨"/", ["mnt"], rfl, Or.inl rfl, ?_⟩,
      rfl, by simp [heldOnce], by simp [heldOnce]⟩
    intro c hc
    rw [List.mem_singleton.mp hc]
    unfold PlainComponent
    decide
  · obtain rfl : q = ("bb", blockedOnce) := by
      simpa [storedOnce, KeyedList.insert, KeyedList.erase, KeyedList.empty] using hq
    exact ⟨rfl, rfl, by decide, by decide⟩

def beforePieceCounts (t : Torrent) : JsonMembers :=
  ((t.members epochText).filter fun m => m.1 ≠ "piece_count") ++ [("later", .bool true)]

def backwards (q : Quarantine) : JsonMembers := ("later", .null) :: (q.members epochText).reverse

/-- A torrent from before piece counts and an entry written backwards, each with a member of a later version. -/
theorem other_versions_of_the_state_load_once :
    ∃ maps, StoredMaps.fromJson epochText (.obj (storedOnce.membersOf beforePieceCounts backwards).reverse) =
          some maps ∧
      maps.torrents.find "aa" = some ("aa", { heldOnce with pieceCount := 0 }) ∧
      maps.quarantined.find "bb" = some ("bb", blockedOnce) := by
  obtain ⟨maps, hmaps, htorrents, hquarantined⟩ := other_versions_of_the_state_load
    (fun _ name => name = "piece_count") (fun _ => false) beforePieceCounts (fun _ => [("later", .bool true)])
    backwards (fun _ => [("later", .null)]) (storedOnce.membersOf beforePieceCounts backwards).reverse []
    storedOnce_writable (fun _ name h => by rw [of_decide_eq_true h]; decide)
    (fun t _ => by simp [beforePieceCounts])
    (fun t m hm => by rw [List.mem_singleton.mp hm]; simp [Torrent.members])
    (fun q _ => (List.Perm.cons _ (List.reverse_perm _)).trans (List.perm_append_singleton _ _).symm)
    (fun q m hm => by rw [List.mem_singleton.mp hm]; simp [Quarantine.members])
    (by simp [List.reverse_perm]) fun m hm => absurd hm List.not_mem_nil
  exact ⟨maps, hmaps, htorrents "aa", hquarantined "bb"⟩

/-- Whatever cuts the saves of the state off, and whenever: the file that is there loads, as the state from
the start or as one whose save was begun. -/
theorem state_file_always_loads {dir dir' : WriterDir String} {obs : List FileEvent} {s₀ : Stored}
    (h : dir.AtRest "state.json") (hstart : LoadsAs time text (dir.fileOf "state.json") s₀)
    (run : Trace (AtomicWriteStep "state.json" (tmpName "state.json")) dir obs dir')
    (hsaves : ∀ w, .started w ∈ obs → ∃ s : Stored, w = s.saved time text ∧ s.Writable time ∧
      text.parse (text.emit (s.toJson time)) = some (s.toJson time)) :
    LoadsAs time text (dir'.fileOf "state.json") s₀ ∨
      ∃ s : Stored, .started (s.saved time text) ∈ obs ∧ LoadsAs time text (dir'.fileOf "state.json") s := by
  rcases h.replaced run with he | ⟨w, hw, he⟩
  · rw [he]
    exact Or.inl hstart
  · obtain ⟨s, rfl, hwritable, hparse⟩ := hsaves w hw
    rw [he]
    exact Or.inr ⟨s, hw, s.saved_loads hwritable hparse⟩

def emptyStored : Stored := ⟨.empty, .empty⟩

def storedOnceText : Bytes :=
  ("\n".intercalate
    ["\x7b", "  \"torrents\": \x7b", "    \"aa\": \x7b", "      \"info_hash\": \"aa\",",
    "      \"title\": \"t\",", "      \"size_bytes\": 1,", "      \"storage_location\": \"/mnt\",",
    "      \"added_at\": \"1970-01-01T00:00:00Z\",", "      \"piece_count\": 4,",
    "      \"last_known_seeders\": 2,", "      \"completed_pieces\": 0,", "      \"last_progress_at\": null,",
    "      \"last_confirmed_in_catalog_at\": null", "    \x7d", "  \x7d,", "  \"quarantined\": \x7b",
    "    \"bb\": \x7b", "      \"title\": \"q\",", "      \"reason\": \"r\",",
    "      \"quarantined_at\": \"1970-01-01T00:00:00Z\",",
    "      \"cooldown_until\": \"1970-01-01T00:00:00Z\",", "      \"attempts\": 1,",
    "      \"wasted_bytes\": 2", "    \x7d", "  \x7d", "\x7d"]).toUTF8.toList

/-- The library on a state of one torrent and one quarantine entry. -/
def storedOnceLib : JsonText where
  emit _ := storedOnceText
  parse bytes := if bytes = storedOnceText then some (storedOnce.toJson epochText) else none

def newDir : WriterDir String where
  disk := ⟨fun _ => none, [], fun _ => ⟨[], 0⟩, fun _ _ => False, 0⟩
  writer := .idle
  readers := []

theorem newDir_atRest : newDir.AtRest "state.json" := by
  have hfree : ∀ names, newDir.disk.MayName names → ∀ p i, names p ≠ some i := by
    rintro names (rfl | hm) p i
    · exact (Option.some_ne_none i).symm
    · exact absurd hm List.not_mem_nil
  exact ⟨⟨fun names hm p i hi => absurd hi (hfree names hm p i), fun names hm i hi => absurd hi (hfree names hm _ i),
    fun names hm i hi => absurd hi (hfree names hm _ i), fun i hi => absurd hi List.not_mem_nil, trivial⟩,
    rfl, rfl, rfl⟩

theorem newDir_loads : LoadsAs epochText storedOnceLib (newDir.fileOf "state.json") emptyStored :=
  ⟨⟨.empty, .empty⟩, rfl, fun _ => rfl, fun _ => rfl⟩

/-- The first save of an install, killed after the rename and before the directory is synced. -/
theorem state_file_always_loads_renamed :
    ∃ dir, Trace (AtomicWriteStep "state.json" (tmpName "state.json")) newDir
        [.started (storedOnce.saved epochText storedOnceLib), .silent, .silent, .silent, .silent, .silent, .silent,
          .killed] dir ∧
      (LoadsAs epochText storedOnceLib (dir.fileOf "state.json") emptyStored ∨
        ∃ s : Stored, FileEvent.started (s.saved epochText storedOnceLib) ∈
            [FileEvent.started (storedOnce.saved epochText storedOnceLib), .silent, .silent, .silent, .silent,
              .silent, .silent, .killed] ∧
          LoadsAs epochText storedOnceLib (dir.fileOf "state.json") s) := by
  have started : AtomicWriteStep "state.json" (tmpName "state.json") newDir
      (.started (storedOnce.saved epochText storedOnceLib)) _ := .start newDir _ rfl
  have hpos : 0 < storedOnceText.length := by decide +kernel
  have hdone : storedOnceText.drop storedOnceText.length = [] := List.drop_length
  have run := (((((((Trace.single started).tail
    (.create _ _ 420 rfl)).tail (.write _ _ _ storedOnceText.length _ rfl hpos le_rfl)).tail
    (.close _ _ _ (congrArg (AtomicWriter.writing _ _) hdone))).tail (.chmod _ _ 0 rfl (by decide))).tail
    (.sync _ _ 0 rfl (by decide))).tail (.rename _ _ rfl (by decide))).tail (.kill _)
  refine ⟨_, run, state_file_always_loads newDir_atRest newDir_loads run fun w hw => ?_⟩
  obtain rfl : w = storedOnce.saved epochText storedOnceLib := by simpa using hw
  exact ⟨storedOnce, rfl, storedOnce_writable, if_pos rfl⟩

end KeepAt
