import KeepAt.InfoHash
import KeepAt.MachineInt
import KeepAt.State

namespace KeepAt

abbrev Bytes := List UInt8

structure TorrentMeta where
  infoHash : InfoHash
  trackers : List String
  createdAt : Option Time
  totalLength : Nat
  pieceCount : Nat
  fileCount : Nat
  name : String
  deriving DecidableEq

/-- The checked info dictionary. `padding` has one flag for each file. -/
structure ValidatedInfo where
  totalLength : Nat
  totalPieces : Nat
  padding : List Bool
  name : Option String
  deriving DecidableEq

/-- A decoded `.torrent`, its trackers in the order the library announces to them. -/
structure Metainfo where
  infoHash : InfoHash
  announces : List Bytes
  creationDate : Option Nat
  validated : Option ValidatedInfo
  deriving DecidableEq

def isPrintable (b : UInt8) : Bool := decide (0x21 ≤ b ∧ b ≤ 0x7e)

def isAsciiDigit (b : UInt8) : Bool := decide (48 ≤ b ∧ b ≤ 57)

def isSchemeByte (b : UInt8) : Bool :=
  isAsciiDigit b || decide (65 ≤ b ∧ b ≤ 90 ∨ 97 ≤ b ∧ b ≤ 122) || b == 43 || b == 45 || b == 46

/-- The bytes of `://`. -/
def schemeSeparator : Bytes := [58, 47, 47]

def isUrl (s : Bytes) : Bool :=
  let i := (s.takeWhile isSchemeByte).length
  decide (i ≠ 0 ∧ (s.drop i).take 3 = schemeSeparator ∧ s.length > i + 3)

/-- Where the authority section ends, 0 without a scheme. -/
def authorityEnd (raw : Bytes) : Nat :=
  match (List.range raw.length).find? fun p => (raw.drop p).take 3 = schemeSeparator with
  | none => 0
  | some p => p + 3 + ((raw.drop (p + 3)).takeWhile (· ≠ 47)).length

/-- The loop of `trunc_url` over the bytes before `stop`, from index `i` on. -/
def leakLoop (raw : Bytes) (authEnd stop : Nat) : Nat → Nat → Nat
  | 0, _ => stop
  | fuel + 1, i =>
    if i < stop then
      let digits := (((raw.take stop).drop i).takeWhile isAsciiDigit).length
      let j := i + digits
      if digits = 0 then leakLoop raw authEnd stop fuel (i + 1)
      else if j < stop ∧ raw[j]? = some 58 ∧ authEnd ≤ i then
        if isUrl (raw.take i) then i else leakLoop raw authEnd stop fuel (j + 1)
      else leakLoop raw authEnd stop fuel j
    else stop

def lastSlash (s : Bytes) : Option Nat := (s.reverse.findIdx? (· = 47)).map (s.length - 1 - ·)

/-- Drop trailing path segments until a URL is left. -/
def urlPrefix (raw : Bytes) : Nat → Nat → Bytes
  | 0, _ => []
  | fuel + 1, e =>
    if e = 0 then []
    else if isUrl (raw.take e) then raw.take e
    else
      match lastSlash (raw.take (e - 1)) with
      | some p => urlPrefix raw fuel p
      | none => []

def truncUrl (raw : Bytes) : Bytes :=
  let stop := leakLoop raw (authorityEnd raw) (raw.takeWhile isPrintable).length raw.length 0
  urlPrefix raw (stop + 1) stop

/-- The text of ASCII bytes, which is all that `truncUrl` leaves. -/
def asciiText (bytes : Bytes) : String := String.ofList (bytes.map fun b => Char.ofNat b.toNat)

def addTracker (trackers : List String) (raw : Bytes) : List String :=
  let s := asciiText (truncUrl raw)
  if s ≠ "" ∧ s ∉ trackers then trackers ++ [s] else trackers

/-- `from_timestamp`: no answer outside the calendar. -/
def fromTimestamp (seconds : Int) : Option Time :=
  if -8334601228800 ≤ seconds ∧ seconds ≤ 8210266876799 then some (seconds * 10 ^ 9) else none

def parseTorrentBytes (torrentFromBytes : Bytes → Option Metainfo) (body : Bytes) : Option TorrentMeta :=
  match torrentFromBytes body with
  | none => none
  | some file =>
    file.validated.map fun validated =>
      { infoHash := file.infoHash
        trackers := file.announces.foldl addTracker []
        createdAt := file.creationDate.bind fun seconds => fromTimestamp (asI64 seconds)
        totalLength := validated.totalLength
        pieceCount := validated.totalPieces
        fileCount := min (validated.padding.filter (!·)).length u32Max
        name := (validated.name.filter (· ≠ "")).getD (hexEncode file.infoHash) }

theorem urlPrefix_spec (raw : Bytes) (fuel e : Nat) :
    urlPrefix raw fuel e <+: raw ∧ (urlPrefix raw fuel e = [] ∨ isUrl (urlPrefix raw fuel e) = true) := by
  induction fuel generalizing e with
  | zero => exact ⟨List.nil_prefix, Or.inl rfl⟩
  | succ fuel ih =>
    simp only [urlPrefix]
    split
    next => exact ⟨List.nil_prefix, Or.inl rfl⟩
    next =>
      split
      next hurl => exact ⟨List.take_prefix e raw, Or.inr hurl⟩
      next =>
        split
        next p hp => exact ih p
        next => exact ⟨List.nil_prefix, Or.inl rfl⟩

/-- What is left of a tracker is the beginning of what the file says, and a URL if anything. -/
theorem truncUrl_spec (raw : Bytes) :
    truncUrl raw <+: raw ∧ (truncUrl raw = [] ∨ isUrl (truncUrl raw) = true) :=
  urlPrefix_spec raw _ _

example : asciiText (truncUrl ("http://h:80/announce13:x".toList.map fun c => UInt8.ofNat c.toNat)) =
    "http://h:80/announce" := by decide +kernel

theorem addTracker_nodup {trackers : List String} (h : trackers.Nodup ∧ "" ∉ trackers) (raw : Bytes) :
    (addTracker trackers raw).Nodup ∧ "" ∉ addTracker trackers raw := by
  simp only [addTracker]
  split
  next hs =>
    refine ⟨List.nodup_append.mpr ⟨h.1, List.nodup_singleton _, ?_⟩, ?_⟩
    · rintro t ht _ hm rfl
      exact hs.2 (List.mem_singleton.mp hm ▸ ht)
    · rw [List.mem_append, not_or, List.mem_singleton]
      exact ⟨h.2, fun he => hs.1 he.symm⟩
  next => exact h

/-- Accepted metadata names a torrent and lists each of its trackers once. -/
theorem parseTorrentBytes_wellFormed {torrentFromBytes : Bytes → Option Metainfo} {body : Bytes}
    {md : TorrentMeta} (h : parseTorrentBytes torrentFromBytes body = some md) :
    md.name ≠ "" ∧ md.trackers.Nodup ∧ "" ∉ md.trackers := by
  unfold parseTorrentBytes at h
  split at h
  next => cases h
  next file hfile =>
    obtain ⟨validated, -, rfl⟩ := Option.map_eq_some_iff.mp h
    constructor
    · cases hn : validated.name.filter (· ≠ "") with
      | none => exact hexEncode_ne_empty file.infoHash
      | some n => simpa [hn] using (Option.filter_eq_some_iff.mp hn).2
    · have hfold : ∀ (raws : List Bytes) (trackers : List String), trackers.Nodup ∧ "" ∉ trackers →
          (raws.foldl addTracker trackers).Nodup ∧ "" ∉ raws.foldl addTracker trackers := by
        intro raws
        induction raws with
        | nil => exact fun _ h => h
        | cons raw raws ih => exact fun _ h => ih _ (addTracker_nodup h raw)
      exact hfold file.announces [] ⟨List.nodup_nil, List.not_mem_nil⟩

end KeepAt
