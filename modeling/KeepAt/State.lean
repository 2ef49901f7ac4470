import KeepAt.KeyedList
import Mathlib.Data.List.Lex
import Mathlib.Data.String.Basic

namespace KeepAt

/-- A path as its components, so that comparison and `join` are component-wise. -/
abbrev PathBuf := List String

instance : LawfulBEq PathBuf := inferInstance

/-- Nanoseconds since the epoch, UTC. -/
abbrev Time := Int

/-- Nanoseconds. -/
abbrev Duration := Nat

structure Torrent where
  infoHash : String
  title : String
  sizeBytes : Nat
  storageLocation : PathBuf
  addedAt : Time
  pieceCount : Nat
  lastKnownSeeders : Nat
  completedPieces : Nat
  lastProgressAt : Option Time
  lastConfirmedInCatalogAt : Option Time
  deriving DecidableEq

structure Quarantine where
  title : String
  reason : String
  quarantinedAt : Time
  cooldownUntil : Time
  attempts : Nat
  wastedBytes : Nat
  deriving DecidableEq

def completionLifts (checked sizeBytes : Nat) : Bool := decide (sizeBytes > 0 ∧ checked ≥ sizeBytes)

abbrev HeldMap := KeyedList Torrent.infoHash

abbrev Registry := KeyedList (Prod.fst : String × Quarantine → String)

structure Stored where
  torrents : HeldMap
  quarantined : Registry

structure State where
  torrents : HeldMap
  quarantined : Registry
  file : Stored

/-- One pending mutation of a batch. No caller writes the hash a torrent is stored under. -/
structure TorrentUpdate where
  apply : Torrent → Torrent
  keeps : ∀ t, (apply t).infoHash = t.infoHash

namespace State

def all (s : State) : List Torrent := s.torrents.values

def get (s : State) (hex : String) : Option Torrent := s.torrents.find hex

/-- Atomic replacement of the file; `saved` says whether the write went through. -/
def save (s : State) (saved : Bool) : State × Option Unit :=
  if saved then ({ s with file := ⟨s.torrents, s.quarantined⟩ }, some ()) else (s, none)

def put (s : State) (t : Torrent) (saved : Bool) : State × Option Unit :=
  { s with torrents := s.torrents.insert t }.save saved

def saveChanged {α : Type} (s : State) (changed : Bool) (result : α) (saved : Bool) : State × Option α :=
  if changed then ((s.save saved).1, (s.save saved).2.map fun _ => result) else (s, some result)

def update (s : State) (hex : String) (f : TorrentUpdate) (saved : Bool) : State × Option Bool :=
  let changed := (s.get hex).isSome
  { s with torrents := s.torrents.modify hex f.apply f.keeps }.saveChanged changed changed saved

def remove (s : State) (hex : String) (saved : Bool) : State × Option Unit :=
  { s with torrents := s.torrents.erase hex }.save saved

def quarantineCount (s : State) : Nat := s.quarantined.size

def quarantinedKeys (s : State) : List String := s.quarantined.values.map Prod.fst

def quarantineGet (s : State) (hex : String) : Option Quarantine :=
  (s.quarantined.find hex).map Prod.snd

def quarantinePut (s : State) (hex : String) (q : Quarantine) (saved : Bool) : State × Option Unit :=
  { s with quarantined := s.quarantined.insert (hex, q) }.save saved

def quarantineAndRemove (s : State) (hex : String) (q : Quarantine) (saved : Bool) :
    State × Option Unit :=
  { s with quarantined := s.quarantined.insert (hex, q), torrents := s.torrents.erase hex }.save saved

def quarantineRemoveMany (s : State) (hashes : List String) (saved : Bool) : State × Option Nat :=
  let step := fun (acc : Registry × Nat) hex =>
    (acc.1.erase hex, if acc.1.Has hex then acc.2 + 1 else acc.2)
  let (registry, removed) := hashes.foldl step (s.quarantined, 0)
  { s with quarantined := registry }.saveChanged (decide (removed > 0)) removed saved

def quarantineRemove (s : State) (hex : String) (saved : Bool) : State × Option Bool :=
  let existed := decide (s.quarantined.Has hex)
  { s with quarantined := s.quarantined.erase hex }.saveChanged existed existed saved

def liftCompleted (s : State) (hex : String) (checked sizeBytes : Nat) (saved : Bool) :
    State × Option Bool :=
  if !completionLifts checked sizeBytes || !decide (s.quarantined.Has hex) then (s, some false)
  else s.quarantineRemove hex saved

def updateEach (s : State) (updates : List (String × TorrentUpdate)) (saved : Bool) :
    State × Option Nat :=
  let step := fun (acc : HeldMap × Nat) (u : String × TorrentUpdate) =>
    (acc.1.modify u.1 u.2.apply u.2.keeps, if acc.1.Has u.1 then acc.2 + 1 else acc.2)
  let (torrents, changed) := updates.foldl step (s.torrents, 0)
  { s with torrents }.saveChanged (decide (changed > 0)) changed saved

/-- A reading counts when it is above the stored high-water mark, or when there is no stamp yet. -/
def progressGrew (t : Torrent) (checked : Nat) : Bool :=
  decide (checked > t.completedPieces) || t.lastProgressAt.isNone

def progressUpdate (checked : Nat) (now : Time) : TorrentUpdate where
  apply t :=
    if progressGrew t checked then { t with completedPieces := checked, lastProgressAt := some now }
    else t
  keeps t := by split <;> rfl

def updateProgressMany (s : State) (progress : List (String × Nat)) (now : Time) (saved : Bool) :
    State × Option Bool :=
  let step := fun (acc : HeldMap × Bool) (p : String × Nat) =>
    let u := progressUpdate p.2 now
    (acc.1.modify p.1 u.apply u.keeps, acc.2 || (acc.1.find p.1).any (progressGrew · p.2))
  let (torrents, changed) := progress.foldl step (s.torrents, false)
  { s with torrents }.saveChanged changed changed saved

def bytesUsed (s : State) (location : PathBuf) : Nat :=
  wrappingSum ((s.all.filter (fun t => t.storageLocation = location)).map Torrent.sizeBytes)

def rekeyed (canonicalize : PathBuf → Option PathBuf) (locations : List PathBuf) (t : Torrent) :
    Torrent :=
  if t.storageLocation ∈ locations then t
  else match canonicalize t.storageLocation with
    | some canon =>
      if canon ∈ locations ∧ t.storageLocation ≠ canon then { t with storageLocation := canon } else t
    | none => t

theorem rekeyed_infoHash (canonicalize : PathBuf → Option PathBuf) (locations : List PathBuf)
    (t : Torrent) : (rekeyed canonicalize locations t).infoHash = t.infoHash := by
  unfold rekeyed
  split
  · rfl
  · split
    · split <;> rfl
    · rfl

def rekeyStorageLocations (s : State) (canonicalize : PathBuf → Option PathBuf)
    (locations : List PathBuf) (saved : Bool) : State × Bool :=
  let torrents := s.torrents.mapValues (rekeyed canonicalize locations)
    (rekeyed_infoHash canonicalize locations)
  let changed := decide (torrents.values ≠ s.torrents.values)
  if changed then (({ s with torrents }.save saved).1, changed) else (s, changed)

/-- The maps in another iteration order, as a rehash leaves them. -/
def rehash (s : State) (ts : List Torrent) (h : ts.Perm s.torrents.values) : State :=
  { s with torrents := s.torrents.reorder ts h }

@[simp] theorem save_torrents (s : State) (saved : Bool) : (s.save saved).1.torrents = s.torrents := by
  unfold save; split <;> rfl

@[simp] theorem save_quarantined (s : State) (saved : Bool) :
    (s.save saved).1.quarantined = s.quarantined := by
  unfold save; split <;> rfl

@[simp] theorem put_torrents (s : State) (t : Torrent) (saved : Bool) :
    (s.put t saved).1.torrents = s.torrents.insert t := save_torrents _ _

@[simp] theorem put_quarantined (s : State) (t : Torrent) (saved : Bool) :
    (s.put t saved).1.quarantined = s.quarantined := save_quarantined _ _

@[simp] theorem remove_torrents (s : State) (hex : String) (saved : Bool) :
    (s.remove hex saved).1.torrents = s.torrents.erase hex := save_torrents _ _

@[simp] theorem remove_quarantined (s : State) (hex : String) (saved : Bool) :
    (s.remove hex saved).1.quarantined = s.quarantined := save_quarantined _ _

@[simp] theorem saveChanged_torrents {α : Type} (s : State) (changed : Bool) (result : α) (saved : Bool) :
    (s.saveChanged changed result saved).1.torrents = s.torrents := by
  unfold saveChanged; split <;> simp

@[simp] theorem saveChanged_quarantined {α : Type} (s : State) (changed : Bool) (result : α)
    (saved : Bool) : (s.saveChanged changed result saved).1.quarantined = s.quarantined := by
  unfold saveChanged; split <;> simp

@[simp] theorem quarantinePut_torrents (s : State) (hex : String) (q : Quarantine) (saved : Bool) :
    (s.quarantinePut hex q saved).1.torrents = s.torrents := save_torrents _ _

@[simp] theorem quarantineAndRemove_torrents (s : State) (hex : String) (q : Quarantine) (saved : Bool) :
    (s.quarantineAndRemove hex q saved).1.torrents = s.torrents.erase hex := save_torrents _ _

@[simp] theorem quarantineRemoveMany_torrents (s : State) (hashes : List String) (saved : Bool) :
    (s.quarantineRemoveMany hashes saved).1.torrents = s.torrents := by
  simp [quarantineRemoveMany]

/-- The effect of a batch on one torrent: the updates that address it, in order. -/
def applyUpdates (updates : List (String × TorrentUpdate)) (t : Torrent) : Torrent :=
  updates.foldl (fun t u => if t.infoHash = u.1 then u.2.apply t else t) t

theorem applyUpdates_infoHash (updates : List (String × TorrentUpdate)) (t : Torrent) :
    (applyUpdates updates t).infoHash = t.infoHash := by
  induction updates generalizing t with
  | nil => rfl
  | cons u updates ih =>
    have hu : (if t.infoHash = u.1 then u.2.apply t else t).infoHash = t.infoHash := by
      split
      · exact u.2.keeps t
      · rfl
    exact (ih _).trans hu

theorem foldl_modify_values {β γ : Type} (u : γ → String × TorrentUpdate) (g : HeldMap → β → γ → β)
    (xs : List γ) (m : HeldMap) (b : β) :
    (xs.foldl (fun (acc : HeldMap × β) x =>
      (acc.1.modify (u x).1 (u x).2.apply (u x).2.keeps, g acc.1 acc.2 x)) (m, b)).1.values =
      m.values.map (applyUpdates (xs.map u)) := by
  induction xs generalizing m b with
  | nil => exact (List.map_id m.values).symm
  | cons x xs ih =>
    rw [List.foldl_cons, ih]
    simp only [KeyedList.modify, List.map_map]
    rfl

theorem updateEach_values (s : State) (updates : List (String × TorrentUpdate)) (saved : Bool) :
    (s.updateEach updates saved).1.torrents.values = s.torrents.values.map (applyUpdates updates) := by
  simp only [updateEach, saveChanged_torrents]
  have hfold := foldl_modify_values id (fun m n u => if m.Has u.1 then n + 1 else n) updates s.torrents 0
  rw [List.map_id] at hfold
  exact hfold

def progressUpdates (progress : List (String × Nat)) (now : Time) : List (String × TorrentUpdate) :=
  progress.map fun p => (p.1, progressUpdate p.2 now)

theorem updateProgressMany_values (s : State) (progress : List (String × Nat)) (now : Time)
    (saved : Bool) :
    (s.updateProgressMany progress now saved).1.torrents.values =
      s.torrents.values.map (applyUpdates (progressUpdates progress now)) := by
  simp only [updateProgressMany, saveChanged_torrents]
  exact foldl_modify_values (fun p => (p.1, progressUpdate p.2 now))
    (fun m changed p => changed || (m.find p.1).any (progressGrew · p.2)) progress s.torrents false

@[simp] theorem updateEach_quarantined (s : State) (updates : List (String × TorrentUpdate))
    (saved : Bool) : (s.updateEach updates saved).1.quarantined = s.quarantined := by
  simp [updateEach]

@[simp] theorem updateProgressMany_quarantined (s : State) (progress : List (String × Nat)) (now : Time)
    (saved : Bool) : (s.updateProgressMany progress now saved).1.quarantined = s.quarantined := by
  simp [updateProgressMany]

theorem quarantinePut_get (s : State) (hex key : String) (q : Quarantine) (saved : Bool) :
    (s.quarantinePut hex q saved).1.quarantineGet key =
      if key = hex then some q else s.quarantineGet key := by
  have hreg : (s.quarantinePut hex q saved).1.quarantined = s.quarantined.insert (hex, q) :=
    save_quarantined _ _
  rw [quarantineGet, hreg, quarantineGet, KeyedList.find_insert]
  split <;> rfl

theorem quarantineAndRemove_get (s : State) (hex key : String) (q : Quarantine) (saved : Bool) :
    (s.quarantineAndRemove hex q saved).1.quarantineGet key =
      if key = hex then some q else s.quarantineGet key := by
  have hreg : (s.quarantineAndRemove hex q saved).1.quarantined = s.quarantined.insert (hex, q) :=
    save_quarantined _ _
  rw [quarantineGet, hreg, quarantineGet, KeyedList.find_insert]
  split <;> rfl

theorem quarantineRemoveMany_get (s : State) (hashes : List String) (saved : Bool) (key : String) :
    (s.quarantineRemoveMany hashes saved).1.quarantineGet key =
      if key ∈ hashes then none else s.quarantineGet key := by
  have hfold : ∀ (hashes : List String) (acc : Registry × Nat),
      (hashes.foldl (fun (acc : Registry × Nat) hex =>
        (acc.1.erase hex, if acc.1.Has hex then acc.2 + 1 else acc.2)) acc).1 = acc.1.eraseAll hashes := by
    intro hashes
    induction hashes with
    | nil => exact fun _ => rfl
    | cons hex hashes ih => exact fun acc => ih _
  have hreg : (s.quarantineRemoveMany hashes saved).1.quarantined = s.quarantined.eraseAll hashes := by
    simp only [quarantineRemoveMany, saveChanged_quarantined]
    exact hfold hashes (s.quarantined, 0)
  rw [quarantineGet, hreg, quarantineGet, KeyedList.find_eraseAll]
  split <;> rfl

@[simp] theorem rehash_torrents_values (s : State) {ts : List Torrent}
    (h : ts.Perm s.torrents.values) : (s.rehash ts h).torrents.values = ts := rfl

end State

end KeepAt
