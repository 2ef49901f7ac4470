import Mathlib.Logic.Function.Basic
import Mathlib.Data.List.Basic
import Mathlib.Data.Nat.Basic

namespace KeepAt

/-- Files by their inode: a name can lose its inode while the bytes stay with whoever has it open. -/
structure Inodes (π : Type*) where
  names : π → Option Nat
  bytes : Nat → List UInt8
  next : Nat

namespace Inodes

variable {π : Type*} {d : Inodes π} {p q : π} {ino : Nat}

/-- A name has an inode of its own, and one that was handed out. -/
structure Sound (d : Inodes π) : Prop where
  below : ∀ p ino, d.names p = some ino → ino < d.next
  apart : ∀ p q ino, d.names p = some ino → d.names q = some ino → p = q

theorem Sound.mono {e : Inodes π} (h : d.Sound) (hnext : d.next ≤ e.next)
    (hnames : ∀ q ino, e.names q = some ino → d.names q = some ino) : e.Sound :=
  ⟨fun q ino hq => lt_of_lt_of_le (h.below q ino (hnames q ino hq)) hnext,
    fun q r ino hq hr => h.apart q r ino (hnames q ino hq) (hnames r ino hr)⟩

def store (d : Inodes π) (ino : Nat) (bs : List UInt8) : Inodes π :=
  { d with bytes := Function.update d.bytes ino bs }

theorem Sound.store (h : d.Sound) (ino : Nat) (bs : List UInt8) : (d.store ino bs).Sound :=
  h.mono le_rfl fun _ _ => id

variable [DecidableEq π]

/-- Open a file, made empty when the name is free, and left as it is otherwise. -/
def touch (d : Inodes π) (p : π) : Inodes π :=
  match d.names p with
  | some _ => d
  | none => ⟨Function.update d.names p (some d.next), Function.update d.bytes d.next [], d.next + 1⟩

def unlink (d : Inodes π) (p : π) : Inodes π := { d with names := Function.update d.names p none }

theorem names_touch_of_ne (h : q ≠ p) : (d.touch p).names q = d.names q := by
  unfold touch
  split
  next => rfl
  next => exact Function.update_of_ne h _ _

theorem names_touch_of_some (h : d.names q = some ino) : (d.touch p).names q = some ino := by
  by_cases hq : q = p
  · subst hq
    rw [touch, h]
    exact h
  · rw [names_touch_of_ne hq, h]

theorem names_unlink_of_ne (h : q ≠ p) : (d.unlink p).names q = d.names q := Function.update_of_ne h _ _

theorem names_of_unlink (h : (d.unlink p).names q = some ino) : d.names q = some ino := by
  by_cases hq : q = p
  · subst hq
    simp [unlink] at h
  · rwa [names_unlink_of_ne hq] at h

/-- The inodes of a file made anew are not those of any other. -/
theorem Sound.touch (h : d.Sound) (p : π) : (d.touch p).Sound := by
  unfold Inodes.touch
  split
  next => exact h
  next hfree =>
    refine ⟨fun q ino hq => ?_, fun q r ino hq hr => ?_⟩
    · by_cases hqp : q = p
      · subst hqp
        obtain rfl := Option.some.inj ((Function.update_self q _ d.names).symm.trans hq)
        exact Nat.lt_succ_self _
      · have hold := h.below q ino ((Function.update_of_ne hqp _ _).symm.trans hq)
        exact Nat.lt_succ_of_lt hold
    · by_cases hqp : q = p <;> by_cases hrp : r = p
      · rw [hqp, hrp]
      · subst hqp
        obtain rfl := Option.some.inj ((Function.update_self q _ d.names).symm.trans hq)
        exact absurd (h.below r _ ((Function.update_of_ne hrp _ _).symm.trans hr)) (lt_irrefl _)
      · subst hrp
        obtain rfl := Option.some.inj ((Function.update_self r _ d.names).symm.trans hr)
        exact absurd (h.below q _ ((Function.update_of_ne hqp _ _).symm.trans hq)) (lt_irrefl _)
      · exact h.apart q r ino ((Function.update_of_ne hqp _ _).symm.trans hq)
          ((Function.update_of_ne hrp _ _).symm.trans hr)

theorem Sound.unlink (h : d.Sound) (p : π) : (d.unlink p).Sound :=
  h.mono le_rfl fun _ _ => names_of_unlink

end Inodes

/-- Bytes of a file from an offset on, as far as it reaches. -/
def readAt (bs : List UInt8) (offset n : Nat) : List UInt8 := (bs.drop offset).take n

def resize (bs : List UInt8) (n : Nat) : List UInt8 := bs.take n ++ List.replicate (n - bs.length) 0

/-- Bytes put at an offset; a gap before it reads as zeros. -/
def writeAt (bs : List UInt8) (offset : Nat) (data : List UInt8) : List UInt8 :=
  resize bs offset ++ data ++ bs.drop (offset + data.length)

end KeepAt
