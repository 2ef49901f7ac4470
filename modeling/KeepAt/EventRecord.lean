import KeepAt.HistoryRotation
import KeepAt.StateJson

namespace KeepAt

def Cause.name : Cause → String
  | .fill => "fill"
  | .swap => "swap"
  | .stalled => "stalled"
  | .deletedFromCatalog => "deleted_from_catalog"
  | .quarantined => "quarantined"

def jsonCause (j : Json) : Option Cause :=
  match jsonString j with
  | some "fill" => some .fill
  | some "swap" => some .swap
  | some "stalled" => some .stalled
  | some "deleted_from_catalog" => some .deletedFromCatalog
  | some "quarantined" => some .quarantined
  | _ => none

/-- A number that is none is written as null. -/
def floatJson : F64 → Json
  | .fin q valid => .float (.fin q valid)
  | _ => .null

/-- A number that is read stands for the float whose digits it has. `reread` is what the reader makes of these: it
need not be that float, nor any. -/
def jsonFloat (reread : F64 → Option F64) : Json → Option F64
  | .float x => reread x
  | .int i => some (.ofRat i)
  | _ => none

def F64.IsNumber : F64 → Prop
  | .fin _ _ => True
  | _ => False

instance (x : F64) : Decidable x.IsNumber := by
  cases x <;> unfold F64.IsNumber <;> infer_instance

def Displaced.members (d : Displaced) : JsonMembers :=
  [("hash", .str d.hash), ("title", .str d.title), ("seeders", .int d.seeders), ("size_bytes", .int d.sizeBytes)]

def Displaced.toJson (d : Displaced) : Json := .obj d.members

def Displaced.fromJson : Json → Option Displaced
  | .obj members => do
    let hash ← jsonField members "hash" none jsonString
    let title ← jsonField members "title" none jsonString
    let seeders ← jsonField members "seeders" none (jsonNat u32Max)
    let sizeBytes ← jsonField members "size_bytes" none (jsonNat u64Max)
    return { hash, title, seeders, sizeBytes }
  | _ => none

/-- An event as the file has it. Its time is a text, which nothing looks at before it is shown. -/
inductive EventRecord where
  | add (ts hash title : String) (sizeBytes seeders : Nat) (location : PathBuf) (cause : Cause)
      (chance roll : F64) (seederFloor : Nat) (reason : String) (displaced : List Displaced)
  | remove (ts hash title : String) (sizeBytes seeders : Nat) (location : PathBuf) (cause : Cause) (reason : String)

/-- The event with its time as `now_ts` writes it. -/
def Event.record (nowTs : Time → String) : Event → EventRecord
  | .add ts hash title sizeBytes seeders location cause chance roll seederFloor reason displaced =>
    .add (nowTs ts) hash title sizeBytes seeders location cause chance roll seederFloor reason displaced
  | .remove ts hash title sizeBytes seeders location cause reason =>
    .remove (nowTs ts) hash title sizeBytes seeders location cause reason

/-- The fields that both kinds of event have. -/
structure EventHead where
  ts : String
  hash : String
  title : String
  sizeBytes : Nat
  seeders : Nat
  location : PathBuf
  cause : Cause

def EventHead.members (h : EventHead) : JsonMembers :=
  [("ts", .str h.ts),
   ("hash", .str h.hash),
   ("title", .str h.title),
   ("size_bytes", .int h.sizeBytes),
   ("seeders", .int h.seeders),
   ("location", .str (pathText h.location)),
   ("cause", .str h.cause.name)]

def EventHead.read (members : JsonMembers) : Option EventHead := do
  let ts ← jsonField members "ts" none jsonString
  let hash ← jsonField members "hash" none jsonString
  let title ← jsonField members "title" none jsonString
  let sizeBytes ← jsonField members "size_bytes" none (jsonNat u64Max)
  let seeders ← jsonField members "seeders" none (jsonNat u32Max)
  let location ← jsonField members "location" none jsonPath
  let cause ← jsonField members "cause" none jsonCause
  return { ts, hash, title, sizeBytes, seeders, location, cause }

namespace EventRecord

def head : EventRecord → EventHead
  | .add ts hash title sizeBytes seeders location cause .. => ⟨ts, hash, title, sizeBytes, seeders, location, cause⟩
  | .remove ts hash title sizeBytes seeders location cause _ =>
    ⟨ts, hash, title, sizeBytes, seeders, location, cause⟩

def tag : EventRecord → String
  | .add .. => "add"
  | .remove .. => "remove"

def tail : EventRecord → JsonMembers
  | .add _ _ _ _ _ _ _ chance roll seederFloor reason displaced =>
    [("chance", floatJson chance),
     ("roll", floatJson roll),
     ("seeder_floor", .int seederFloor),
     ("reason", .str reason),
     ("displaced", .arr (displaced.map Displaced.toJson))]
  | .remove _ _ _ _ _ _ _ reason => [("reason", .str reason)]

def members (r : EventRecord) : JsonMembers :=
  ("event", .str r.tag) :: (r.head.members ++ r.tail)

/-- The field that is left out when it is empty. -/
def skips (r : EventRecord) (name : String) : Bool :=
  match r with
  | .add _ _ _ _ _ _ _ _ _ _ _ displaced => displaced.isEmpty && name = "displaced"
  | .remove .. => false

def toJson (r : EventRecord) : Json := .obj (r.members.filter fun m => !r.skips m.1)

/-- The tag says which fields are asked for. -/
def fromJson (reread : F64 → Option F64) : Json → Option EventRecord
  | .obj members => do
    let tag ← jsonField members "event" none jsonString
    let h ← EventHead.read members
    let reason ← jsonField members "reason" none jsonString
    if tag = "add" then do
      let chance ← jsonField members "chance" none (jsonFloat reread)
      let roll ← jsonField members "roll" none (jsonFloat reread)
      let seederFloor ← jsonField members "seeder_floor" none (jsonNat u32Max)
      let displaced ← jsonField members "displaced" (some []) (jsonList Displaced.fromJson)
      return .add h.ts h.hash h.title h.sizeBytes h.seeders h.location h.cause chance roll seederFloor reason displaced
    else if tag = "remove" then
      return .remove h.ts h.hash h.title h.sizeBytes h.seeders h.location h.cause reason
    else none
  | _ => none

/-- Values of the field types, with a location that is a path. -/
structure Writable (r : EventRecord) : Prop where
  size : r.head.sizeBytes ≤ u64Max
  seeders : r.head.seeders ≤ u32Max
  location : NormalPath r.head.location
  floor : ∀ ts hash title size seeders location cause chance roll seederFloor reason displaced,
    r = .add ts hash title size seeders location cause chance roll seederFloor reason displaced →
      seederFloor ≤ u32Max ∧ ∀ d ∈ displaced, d.seeders ≤ u32Max ∧ d.sizeBytes ≤ u64Max

/-- The record with the statistics of an addition as they come back: not at all where one is no number. -/
def reread (read : F64 → Option F64) : EventRecord → Option EventRecord
  | .add ts hash title sizeBytes seeders location cause chance roll seederFloor reason displaced => do
    let chance ← jsonFloat read (floatJson chance)
    let roll ← jsonFloat read (floatJson roll)
    return .add ts hash title sizeBytes seeders location cause chance roll seederFloor reason displaced
  | r => some r

/-- The statistics of an addition are numbers, whose digits are read as the same numbers. -/
def Kept (read : F64 → Option F64) : EventRecord → Prop
  | .add _ _ _ _ _ _ _ chance roll _ _ _ =>
    (chance.IsNumber ∧ read chance = some chance) ∧ roll.IsNumber ∧ read roll = some roll
  | .remove .. => True

end EventRecord

variable {read : F64 → Option F64}

theorem jsonCause_name (c : Cause) : jsonCause (.str c.name) = some c := by
  cases c <;> rfl

theorem jsonFloat_floatJson_iff (x y : F64) :
    jsonFloat read (floatJson x) = some y ↔ x.IsNumber ∧ read x = some y := by
  cases x <;> simp [jsonFloat, floatJson, F64.IsNumber]

theorem Displaced.fromJson_toJson {d : Displaced} (hseeders : d.seeders ≤ u32Max) (hsize : d.sizeBytes ≤ u64Max) :
    Displaced.fromJson d.toJson = some d := by
  have hholds : Holds d.members (fun _ => false) d.members := Holds.self (by simp [Displaced.members])
  have hash : jsonField d.members "hash" none jsonString = some d.hash :=
    hholds.required (j := .str d.hash) (by simp [Displaced.members]) rfl rfl
  have title : jsonField d.members "title" none jsonString = some d.title :=
    hholds.required (j := .str d.title) (by simp [Displaced.members]) rfl rfl
  have seeders : jsonField d.members "seeders" none (jsonNat u32Max) = some d.seeders :=
    hholds.required (by simp [Displaced.members]) rfl (jsonNat_int hseeders)
  have size : jsonField d.members "size_bytes" none (jsonNat u64Max) = some d.sizeBytes :=
    hholds.required (by simp [Displaced.members]) rfl (jsonNat_int hsize)
  simp only [Displaced.toJson, Displaced.fromJson, hash, title, seeders, size, Option.bind_eq_bind, Option.bind_some]
  rfl

theorem EventHead.read_of_holds {h : EventHead} {fields members : JsonMembers} {dropped : String → Bool}
    (hholds : Holds fields dropped members) (hsub : ∀ m ∈ h.members, m ∈ fields)
    (hkept : ∀ name, name ≠ "displaced" → dropped name = false)
    (hsize : h.sizeBytes ≤ u64Max) (hseeders : h.seeders ≤ u32Max) (hlocation : NormalPath h.location) :
    EventHead.read members = some h := by
  have ts : jsonField members "ts" none jsonString = some h.ts :=
    hholds.required (j := .str h.ts) (hsub _ (by simp [EventHead.members])) (hkept _ (by decide)) rfl
  have hash : jsonField members "hash" none jsonString = some h.hash :=
    hholds.required (j := .str h.hash) (hsub _ (by simp [EventHead.members])) (hkept _ (by decide)) rfl
  have title : jsonField members "title" none jsonString = some h.title :=
    hholds.required (j := .str h.title) (hsub _ (by simp [EventHead.members])) (hkept _ (by decide)) rfl
  have size : jsonField members "size_bytes" none (jsonNat u64Max) = some h.sizeBytes :=
    hholds.required (hsub _ (by simp [EventHead.members])) (hkept _ (by decide)) (jsonNat_int hsize)
  have seeders : jsonField members "seeders" none (jsonNat u32Max) = some h.seeders :=
    hholds.required (hsub _ (by simp [EventHead.members])) (hkept _ (by decide)) (jsonNat_int hseeders)
  have location : jsonField members "location" none jsonPath = some h.location :=
    hholds.required (hsub _ (by simp [EventHead.members])) (hkept _ (by decide)) (jsonPath_pathText hlocation)
  have cause : jsonField members "cause" none jsonCause = some h.cause :=
    hholds.required (hsub _ (by simp [EventHead.members])) (hkept _ (by decide)) (jsonCause_name h.cause)
  simp only [EventHead.read, ts, hash, title, size, seeders, location, cause, Option.bind_eq_bind, Option.bind_some]
  rfl

theorem jsonList_displaced {displaced : List Displaced}
    (h : ∀ d ∈ displaced, d.seeders ≤ u32Max ∧ d.sizeBytes ≤ u64Max) :
    jsonList Displaced.fromJson (.arr (displaced.map Displaced.toJson)) = some displaced := by
  rw [jsonList, List.mapM_map]
  refine (mapM_eq_some_map (g := id) fun d hd => ?_).trans (by rw [List.map_id])
  exact Displaced.fromJson_toJson (h d hd).1 (h d hd).2

namespace EventRecord

theorem members_nodup (r : EventRecord) : (r.members.map Prod.fst).Nodup := by
  cases r <;> simp [members, EventHead.members, tail]

theorem holds (r : EventRecord) : Holds r.members r.skips (r.members.filter fun m => !r.skips m.1) :=
  Holds.of_perm r.members_nodup (fun m hm => absurd hm List.not_mem_nil) (by simp)

theorem skips_ne {r : EventRecord} {name : String} (h : name ≠ "displaced") : r.skips name = false := by
  cases r <;> simp [skips, h]

/-- What is read of a record is the record with its statistics reread. -/
theorem fromJson_toJson {r : EventRecord} (h : r.Writable) : fromJson read r.toJson = r.reread read := by
  have hholds : Holds r.members r.skips _ := r.holds
  have htail : ∀ m ∈ r.tail, m ∈ r.members := fun m hm => List.mem_cons_of_mem _ (List.mem_append_right _ hm)
  have hhead := EventHead.read_of_holds hholds (h := r.head)
    (fun m hm => List.mem_cons_of_mem _ (List.mem_append_left _ hm)) (fun _ => skips_ne) h.size h.seeders h.location
  rw [toJson]
  generalize (r.members.filter fun m => !r.skips m.1) = ms at hholds hhead ⊢
  cases r with
  | remove ts hash title size seeders location cause reason =>
    have tag : jsonField ms "event" none jsonString = some "remove" :=
      hholds.required (j := .str "remove") List.mem_cons_self rfl rfl
    have why : jsonField ms "reason" none jsonString = some reason :=
      hholds.required (htail (_, .str reason) (by simp [tail])) rfl rfl
    simp only [fromJson, tag, why, hhead, Option.bind_eq_bind, Option.bind_some]
    rfl
  | add ts hash title size seeders location cause chance roll seederFloor reason displaced =>
    obtain ⟨hfloor, hdisplaced⟩ := h.floor _ _ _ _ _ _ _ _ _ _ _ _ rfl
    have tag : jsonField ms "event" none jsonString = some "add" :=
      hholds.required (j := .str "add") List.mem_cons_self (skips_ne (by decide)) rfl
    have why : jsonField ms "reason" none jsonString = some reason :=
      hholds.required (htail (_, .str reason) (by simp [tail])) (skips_ne (by decide)) rfl
    have floor : jsonField ms "seeder_floor" none (jsonNat u32Max) = some seederFloor :=
      hholds.required (htail _ (by simp [tail])) (skips_ne (by decide)) (jsonNat_int hfloor)
    have number : ∀ name x, name ≠ "displaced" → (name, floatJson x) ∈ (EventRecord.add ts hash title size seeders
        location cause chance roll seederFloor reason displaced).tail →
        jsonField ms name none (jsonFloat read) = jsonFloat read (floatJson x) := by
      intro name x hne hmem
      rw [hholds.read (htail _ hmem), skips_ne hne, if_neg Bool.false_ne_true]
    have chanceField := number "chance" chance (by decide) (by simp [tail])
    have rollField := number "roll" roll (by decide) (by simp [tail])
    have displacedField : jsonField ms "displaced" (some []) (jsonList Displaced.fromJson) = some displaced := by
      rw [hholds.read (htail (_, .arr (displaced.map Displaced.toJson)) (by simp [tail])),
        jsonList_displaced hdisplaced]
      cases displaced <;> rfl
    simp only [fromJson, tag, why, hhead, floor, chanceField, rollField, displacedField, if_true,
      Option.bind_eq_bind, Option.bind_some]
    rfl

theorem reread_eq_self_iff {r : EventRecord} : r.reread read = some r ↔ r.Kept read := by
  cases r with
  | remove => exact iff_of_true rfl trivial
  | add ts hash title size seeders location cause chance roll seederFloor reason displaced =>
    have hchance : jsonFloat read (floatJson chance) = some chance ↔ _ := jsonFloat_floatJson_iff chance chance
    have hroll : jsonFloat read (floatJson roll) = some roll ↔ _ := jsonFloat_floatJson_iff roll roll
    rw [Kept, ← hchance, ← hroll]
    simp only [reread, Option.bind_eq_bind, Option.bind_eq_some_iff, Option.pure_def, Option.some.injEq, add.injEq,
      true_and, and_true]
    constructor
    · rintro ⟨_, hc, _, hr, rfl, rfl⟩
      exact ⟨hc, hr⟩
    · rintro ⟨hc, hr⟩
      exact ⟨_, hc, _, hr, rfl, rfl⟩

end EventRecord

/-- The record of a line. -/
def recordOfLine (read : F64 → Option F64) (parse : Bytes → Option Json) (line : Bytes) : Option EventRecord :=
  (parse line).bind (EventRecord.fromJson read)

/-- The line of an event is read back as that event, with the statistics of an addition as the reader makes them of
their digits, exactly when these are numbers: others are written as null, and the line is skipped from then on. -/
theorem history_line_reads_back_iff {text : Json → Bytes} {parse : Bytes → Option Json} {r : EventRecord}
    (h : r.Writable) (hline : newline ∉ text r.toJson) (hne : text r.toJson ≠ [])
    (hparse : parse (text r.toJson) = some r.toJson) :
    recordOfLine read parse (text r.toJson) = r.reread read ∧
      (LineFile.Encodes newline (recordOfLine read parse) (text r.toJson) r ↔ r.Kept read) := by
  have hread : recordOfLine read parse (text r.toJson) = r.reread read := by
    rw [recordOfLine, hparse, Option.bind_some, EventRecord.fromJson_toJson h]
  refine ⟨hread, ?_⟩
  rw [← EventRecord.reread_eq_self_iff, ← hread]
  exact ⟨fun hencodes => hencodes.parses, fun hback => ⟨hline, hne, hback⟩⟩

namespace Reference

def nowTs (t : Time) : String := if t = 0 then "1970-01-01T00:00:00.000Z" else ""

def half : F64 := .ofRat (1 / 2)

/-- A swap that displaced one torrent. -/
def swapRecord : EventRecord :=
  (Event.add 0 "aa" "a" 1 2 ["/", "mnt"] .swap half half 1 "r" [⟨"bb", "b", 3, 4⟩]).record nowTs

def swapLine : Bytes :=
  ("\x7b\"event\":\"add\",\"ts\":\"1970-01-01T00:00:00.000Z\",\"hash\":\"aa\",\"title\":\"a\",\"size_bytes\":1," ++
    "\"seeders\":2,\"location\":\"/mnt\",\"cause\":\"swap\",\"chance\":0.5,\"roll\":0.5,\"seeder_floor\":1," ++
    "\"reason\":\"r\",\"displaced\":[\x7b\"hash\":\"bb\",\"title\":\"b\",\"seeders\":3,\"size_bytes\":4\x7d]\x7d").toUTF8.toList

end Reference

open Reference in
theorem history_line_reads_back_swap :
    LineFile.Encodes newline (recordOfLine some fun line => if line = swapLine then some swapRecord.toJson else none)
      swapLine swapRecord := by
  have hlocation : NormalPath ["/", "mnt"] := by
    refine Or.inr ⟨"/", ["mnt"], rfl, Or.inl rfl, fun c hc => ?_⟩
    rw [List.mem_singleton.mp hc]
    unfold PlainComponent
    decide
  have hwritable : swapRecord.Writable := by
    refine ⟨by decide, by decide, hlocation, fun _ _ _ _ _ _ _ _ _ _ _ _ he => ?_⟩
    obtain ⟨-, -, -, -, -, -, -, -, -, rfl, -, rfl⟩ := EventRecord.add.inj he
    exact ⟨by decide, by decide⟩
  have hnumber : half.IsNumber := by decide +kernel
  exact ((@history_line_reads_back_iff some (fun _ => swapLine) _ swapRecord hwritable (by decide +kernel)
    (by decide +kernel) (if_pos rfl)).2).mpr ⟨⟨hnumber, rfl⟩, hnumber, rfl⟩

end KeepAt
