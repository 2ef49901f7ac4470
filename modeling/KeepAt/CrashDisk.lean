import KeepAt.OpenFiles
import KeepAt.Traces

namespace KeepAt

/-- What an inode holds. -/
structure FileNode where
  bytes : List UInt8
  mode : Nat
  deriving DecidableEq

/-- One directory of a disk: its names now, the names that a power loss may bring back, and for each inode
what it holds now and what it may hold after a power loss. -/
structure CrashDisk (π : Type*) where
  names : π → Option Nat
  past : List (π → Option Nat)
  node : Nat → FileNode
  possible : Nat → FileNode → Prop
  next : Nat

namespace CrashDisk

variable {π : Type*} {d e : CrashDisk π} {i j : Nat} {p q : π}

def content (d : CrashDisk π) (names : π → Option Nat) (p : π) : Option FileNode := (names p).map d.node

/-- The names a power loss may leave. -/
def MayName (d : CrashDisk π) (names : π → Option Nat) : Prop := names = d.names ∨ names ∈ d.past

def Clean (d : CrashDisk π) (i : Nat) : Prop := ∀ n, d.possible i n → n = d.node i

/-- A write leaves it open what a power loss makes of the inode. -/
def write (d : CrashDisk π) (i : Nat) (bs : List UInt8) : CrashDisk π :=
  { d with
    node := Function.update d.node i { d.node i with bytes := bs }
    possible := Function.update d.possible i fun _ => True }

def chmod (d : CrashDisk π) (i mode : Nat) : CrashDisk π :=
  { d with
    node := Function.update d.node i { d.node i with mode := mode }
    possible := Function.update d.possible i fun n =>
      d.possible i n ∨ ∃ n', d.possible i n' ∧ n = { n' with mode := mode } }

def fsync (d : CrashDisk π) (i : Nat) : CrashDisk π :=
  { d with possible := Function.update d.possible i fun n => n = d.node i }

def fsyncDir (d : CrashDisk π) : CrashDisk π := { d with past := [] }

def create [DecidableEq π] (d : CrashDisk π) (p : π) (mode : Nat) : CrashDisk π where
  names := Function.update d.names p (some d.next)
  past := d.names :: d.past
  node := Function.update d.node d.next ⟨[], mode⟩
  possible := Function.update d.possible d.next fun _ => True
  next := d.next + 1

/-- An open that creates or truncates, and the inode it is on. -/
def openTruncate [DecidableEq π] (d : CrashDisk π) (p : π) (mode : Nat) : CrashDisk π × Nat :=
  match d.names p with
  | some i => (d.write i [], i)
  | none => (d.create p mode, d.next)

/-- The new name takes the place of the old one in one change of the directory. -/
def rename [DecidableEq π] (d : CrashDisk π) (p q : π) : CrashDisk π :=
  { d with names := Function.update (Function.update d.names q (d.names p)) p none, past := d.names :: d.past }

def unlink [DecidableEq π] (d : CrashDisk π) (p : π) : CrashDisk π :=
  { d with names := Function.update d.names p none, past := d.names :: d.past }

/-- The directory as it was at some moment since it was synced, and of each inode what may be there. -/
structure PowerLoss (d e : CrashDisk π) : Prop where
  names : d.MayName e.names
  past : e.past = []
  node : ∀ i, d.possible i (e.node i)
  settled : ∀ i n, e.possible i n ↔ n = e.node i
  next : e.next = d.next

/-- Nothing changes but what has the one name: the inode it had, or a new one. -/
structure TouchesAt (d e : CrashDisk π) (p : π) (i : Nat) : Prop where
  named : e.names p = some i
  others : ∀ q, q ≠ p → e.names q = d.names q
  own : d.names p = some i ∨ d.next ≤ i ∧ i < e.next
  next : d.next ≤ e.next
  node : ∀ j ≠ i, e.node j = d.node j
  possible : ∀ j ≠ i, e.possible j = d.possible j

theorem clean_fsync (i : Nat) : (d.fsync i).Clean i := fun n hn => by
  simpa [fsync] using hn

theorem Clean.mono (h : d.Clean i) (hnode : e.node i = d.node i) (hpossible : e.possible i = d.possible i) :
    e.Clean i := fun n hn => (h n (hpossible ▸ hn)).trans hnode.symm

theorem clean_chmod_of_ne {mode : Nat} (h : d.Clean i) (hne : i ≠ j) : (d.chmod j mode).Clean i :=
  h.mono (Function.update_of_ne hne _ _) (Function.update_of_ne hne _ _)

/-- To set the mode that a clean inode has changes nothing. -/
theorem clean_chmod_same (h : d.Clean i) : (d.chmod i (d.node i).mode).Clean i := by
  intro n hn
  simp only [chmod, Function.update_self] at hn ⊢
  rcases hn with hn | ⟨n', hn', rfl⟩
  · exact h n hn
  · rw [h n' hn']

theorem node_chmod_same (d : CrashDisk π) (i : Nat) : (d.chmod i (d.node i).mode).node = d.node :=
  Function.update_eq_self i d.node

theorem content_create_of_ne [DecidableEq π] {names : π → Option Nat} (mode : Nat)
    (h : names q ≠ some d.next) : (d.create p mode).content names q = d.content names q := by
  refine Option.map_congr fun j hj => Function.update_of_ne ?_ _ _
  rintro rfl
  exact h hj

theorem clean_create_of_ne [DecidableEq π] (mode : Nat) (h : d.Clean i) (hne : i ≠ d.next) :
    (d.create p mode).Clean i :=
  h.mono (Function.update_of_ne hne _ _) (Function.update_of_ne hne _ _)

theorem names_create_of_ne [DecidableEq π] {mode : Nat} (h : q ≠ p) : (d.create p mode).names q = d.names q :=
  Function.update_of_ne h _ _

theorem names_create_self [DecidableEq π] {mode : Nat} : (d.create p mode).names p = some d.next :=
  Function.update_self _ _ _

theorem names_rename_self [DecidableEq π] : (d.rename p q).names p = none := Function.update_self _ _ _

theorem names_rename [DecidableEq π] (h : q ≠ p) : (d.rename p q).names q = d.names p :=
  (Function.update_of_ne h _ _).trans (Function.update_self _ _ _)

theorem names_rename_of_ne [DecidableEq π] {r : π} (h : r ≠ p) (h' : r ≠ q) :
    (d.rename p q).names r = d.names r :=
  (Function.update_of_ne h _ _).trans (Function.update_of_ne h' _ _)

/-- An inode that has a name after a rename had one before. -/
theorem names_of_rename [DecidableEq π] {r : π} (h : (d.rename p q).names r = some i) :
    ∃ r', d.names r' = some i := by
  by_cases hr : r = p
  · subst hr
    simp [names_rename_self] at h
  · by_cases hr' : r = q
    · subst hr'
      exact ⟨p, (names_rename hr).symm.trans h⟩
    · exact ⟨r, (names_rename_of_ne hr hr').symm.trans h⟩

theorem names_unlink_self [DecidableEq π] : (d.unlink p).names p = none := Function.update_self _ _ _

theorem names_unlink_of_ne [DecidableEq π] (h : q ≠ p) : (d.unlink p).names q = d.names q :=
  Function.update_of_ne h _ _

theorem touchesAt_write (named : d.names p = some i) (bs : List UInt8) : d.TouchesAt (d.write i bs) p i where
  named := named
  others _ _ := rfl
  own := Or.inl named
  next := Nat.le_refl _
  node _ hj := Function.update_of_ne hj _ _
  possible _ hj := Function.update_of_ne hj _ _

theorem touchesAt_chmod (named : d.names p = some i) (mode : Nat) : d.TouchesAt (d.chmod i mode) p i where
  named := named
  others _ _ := rfl
  own := Or.inl named
  next := Nat.le_refl _
  node _ hj := Function.update_of_ne hj _ _
  possible _ hj := Function.update_of_ne hj _ _

theorem touchesAt_openTruncate [DecidableEq π] (d : CrashDisk π) (p : π) (mode : Nat) :
    d.TouchesAt (d.openTruncate p mode).1 p (d.openTruncate p mode).2 := by
  cases hp : d.names p with
  | some i =>
    simp only [openTruncate, hp]
    exact touchesAt_write hp []
  | none =>
    simp only [openTruncate, hp]
    exact
      { named := names_create_self
        others := fun q hq => names_create_of_ne hq
        own := Or.inr ⟨Nat.le_refl _, Nat.lt_succ_self _⟩
        next := Nat.le_succ _
        node := fun j hj => Function.update_of_ne hj _ _
        possible := fun j hj => Function.update_of_ne hj _ _ }

/-- What was opened is empty, and a power loss may leave anything of it. -/
theorem openTruncate_fresh [DecidableEq π] (d : CrashDisk π) (p : π) (mode : Nat) :
    ((d.openTruncate p mode).1.node (d.openTruncate p mode).2).bytes = [] ∧
      ∀ n, (d.openTruncate p mode).1.possible (d.openTruncate p mode).2 n := by
  cases hp : d.names p <;> simp [openTruncate, hp, write, create]

theorem possible_write (d : CrashDisk π) (i : Nat) (bs : List UInt8) (n : FileNode) :
    (d.write i bs).possible i n := by
  simp [write]

theorem possible_chmod {mode : Nat} (h : ∀ n, d.possible i n) (n : FileNode) : (d.chmod i mode).possible i n := by
  simp [chmod, h n]

theorem possible_chmod_node {mode : Nat} (h : d.possible i (d.node i)) :
    (d.chmod i mode).possible i ((d.chmod i mode).node i) := by
  simp only [chmod, Function.update_self]
  exact Or.inr ⟨d.node i, h, rfl⟩

/-- A power loss may leave of one inode anything that is possible of it, and of the others what they hold. -/
theorem exists_powerLoss {n : FileNode} (current : ∀ j, d.possible j (d.node j)) (possible : d.possible i n) :
    ∃ e, d.PowerLoss e ∧ e.names = d.names ∧ e.node i = n := by
  let node := Function.update d.node i n
  refine ⟨⟨d.names, [], node, fun j m => m = node j, d.next⟩,
    ⟨Or.inl rfl, rfl, fun j => ?_, fun _ _ => Iff.rfl, rfl⟩, rfl, Function.update_self _ _ _⟩
  by_cases hj : j = i
  · subst hj
    simpa [node] using possible
  · simpa [node, Function.update_of_ne hj] using current j

theorem PowerLoss.clean (h : d.PowerLoss e) (i : Nat) : e.Clean i := fun n => (h.settled i n).mp

theorem PowerLoss.node_eq (h : d.PowerLoss e) (hclean : d.Clean i) : e.node i = d.node i := hclean _ (h.node i)

end CrashDisk

end KeepAt
