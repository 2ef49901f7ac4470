import Mathlib.Data.List.Basic

namespace KeepAt

namespace Utf8

/-- How many bytes are owed after a first byte, and the range of the next one. -/
def lead (b : UInt8) : Option (Nat × UInt8 × UInt8) :=
  if b ≤ 0x7F then some (0, 0, 0)
  else if 0xC2 ≤ b ∧ b ≤ 0xDF then some (1, 0x80, 0xBF)
  else if b = 0xE0 then some (2, 0xA0, 0xBF)
  else if b = 0xED then some (2, 0x80, 0x9F)
  else if 0xE1 ≤ b ∧ b ≤ 0xEF then some (2, 0x80, 0xBF)
  else if b = 0xF0 then some (3, 0x90, 0xBF)
  else if 0xF1 ≤ b ∧ b ≤ 0xF3 then some (3, 0x80, 0xBF)
  else if b = 0xF4 then some (3, 0x80, 0x8F)
  else none

/-- A part of a byte string: a character, or a longest ill-formed start of one. -/
structure Piece where
  bytes : List UInt8
  wellFormed : Bool
  deriving DecidableEq

/-- The character being read: its bytes so far, those owed, and the range of the next one. -/
structure Pending where
  held : List UInt8
  owed : Nat
  low : UInt8
  high : UInt8

/-- A byte that begins a piece. -/
def begin (b : UInt8) : List Piece × Option Pending :=
  match lead b with
  | none => ([⟨[b], false⟩], none)
  | some (0, _, _) => ([⟨[b], true⟩], none)
  | some (owed, low, high) => ([], some ⟨[b], owed, low, high⟩)

def step (pending : Option Pending) (b : UInt8) : List Piece × Option Pending :=
  match pending with
  | none => begin b
  | some p =>
    if p.low ≤ b ∧ b ≤ p.high then
      if p.owed ≤ 1 then ([⟨p.held ++ [b], true⟩], none)
      else ([], some ⟨p.held ++ [b], p.owed - 1, 0x80, 0xBF⟩)
    else (⟨p.held, false⟩ :: (begin b).1, (begin b).2)

def piecesFrom (pending : Option Pending) : List UInt8 → List Piece
  | [] => pending.toList.map (fun p => ⟨p.held, false⟩)
  | b :: rest => (step pending b).1 ++ piecesFrom (step pending b).2 rest

def pieces (data : List UInt8) : List Piece := piecesFrom none data

def Valid (data : List UInt8) : Prop := ∀ p ∈ pieces data, p.wellFormed = true

instance (data : List UInt8) : Decidable (Valid data) :=
  inferInstanceAs (Decidable (∀ p ∈ pieces data, p.wellFormed = true))

/-- U+FFFD. -/
def replacement : List UInt8 := [0xEF, 0xBF, 0xBD]

def Piece.shown (p : Piece) : List UInt8 := if p.wellFormed then p.bytes else replacement

/-- Each ill-formed piece is replaced. -/
def lossy (data : List UInt8) : List UInt8 := (pieces data).flatMap Piece.shown

example : lossy [0x61, 0xE2, 0x82, 0x0A, 0xFF] = [0x61, 0xEF, 0xBF, 0xBD, 0x0A, 0xEF, 0xBF, 0xBD] := by decide

/-- The bytes held are the start of a longer character: none of them is ASCII, and neither is the next. -/
structure Pending.Proper (p : Pending) : Prop where
  held_ne_nil : p.held ≠ []
  held_high : ∀ b ∈ p.held, 0x80 ≤ b
  low_high : 0x80 ≤ p.low
  owed_pos : 1 ≤ p.owed
  length_le : p.held.length + p.owed ≤ 4

def ProperState (pending : Option Pending) : Prop := ∀ p, pending = some p → p.Proper

theorem properState_none : ProperState none := fun _ h => by cases h

theorem lead_of_ascii {b : UInt8} (h : b ≤ 0x7F) : lead b = some (0, 0, 0) := if_pos h

theorem high_of_not_ascii {b : UInt8} (h : ¬ b ≤ 0x7F) : 0x80 ≤ b := by
  simp only [UInt8.le_iff_toNat_le, UInt8.reduceToNat] at h ⊢
  omega

theorem lead_some {b low high : UInt8} {owed : Nat} (h : lead b = some (owed, low, high)) (hpos : owed ≠ 0) :
    0x80 ≤ b ∧ 0x80 ≤ low ∧ owed ≤ 3 := by
  unfold lead at h
  split_ifs at h with hascii <;> obtain ⟨rfl, rfl, rfl⟩ := h
  next => exact absurd rfl hpos
  all_goals exact ⟨high_of_not_ascii hascii, by decide, by decide⟩

theorem begin_of_ascii {b : UInt8} (h : b ≤ 0x7F) : begin b = ([⟨[b], true⟩], none) := by
  simp only [begin, lead_of_ascii h]

/-- A byte above ASCII is ill-formed on its own or starts a longer character. -/
theorem begin_of_high {b : UInt8} (h : ¬ b ≤ 0x7F) :
    begin b = ([⟨[b], false⟩], none) ∨ ∃ p : Pending, p.held = [b] ∧ p.Proper ∧ begin b = ([], some p) := by
  rcases hl : lead b with _ | ⟨owed, low, high⟩
  next => exact Or.inl (by simp only [begin, hl])
  next =>
    refine Or.inr ?_
    cases owed with
    | zero =>
      exfalso
      unfold lead at hl
      split_ifs at hl <;> cases hl
    | succ owed =>
      obtain ⟨hb, hlow, howed⟩ := lead_some hl (Nat.succ_ne_zero _)
      refine ⟨⟨[b], owed + 1, low, high⟩, rfl, ⟨?_, ?_, hlow, ?_, ?_⟩, by simp only [begin, hl]⟩
      · exact List.cons_ne_nil _ _
      · simpa using hb
      · exact Nat.succ_le_succ (Nat.zero_le _)
      · simp only [List.length_singleton]
        omega

def heldBytes (pending : Option Pending) : List UInt8 := pending.elim [] Pending.held

/-- An ill-formed piece has at most three bytes, none of them ASCII. -/
def Piece.Short (p : Piece) : Prop := p.wellFormed = false → p.bytes.length ≤ 3 ∧ ∀ b ∈ p.bytes, 0x80 ≤ b

structure StepSpec (pending : Option Pending) (b : UInt8) (r : List Piece × Option Pending) : Prop where
  proper : ProperState r.2
  bytes : r.1.flatMap Piece.bytes ++ heldBytes r.2 = heldBytes pending ++ [b]
  short : ∀ p ∈ r.1, p.Short

theorem begin_spec (b : UInt8) : StepSpec none b (begin b) := by
  by_cases hascii : b ≤ 0x7F
  next =>
    rw [begin_of_ascii hascii]
    exact ⟨properState_none, rfl, by simp [Piece.Short]⟩
  next =>
    rcases begin_of_high hascii with h | ⟨p, hheld, hproper, h⟩
    · rw [h]
      refine ⟨properState_none, rfl, ?_⟩
      simp [Piece.Short, high_of_not_ascii hascii]
    · rw [h]
      refine ⟨?_, by simp [heldBytes, hheld], by simp⟩
      rintro q ⟨⟩
      exact hproper

theorem Pending.Proper.short {p : Pending} (h : p.Proper) : Piece.Short ⟨p.held, false⟩ := by
  intro _
  have hlen := h.length_le
  have howed := h.owed_pos
  exact ⟨by dsimp only; omega, h.held_high⟩

theorem step_spec {pending : Option Pending} (h : ProperState pending) (b : UInt8) :
    StepSpec pending b (step pending b) := by
  cases pending with
  | none => exact begin_spec b
  | some p =>
    have hp := h p rfl
    simp only [step]
    by_cases hrange : p.low ≤ b ∧ b ≤ p.high
    next =>
      rw [if_pos hrange]
      have hb : 0x80 ≤ b := UInt8.le_trans hp.low_high hrange.1
      by_cases hlast : p.owed ≤ 1
      next =>
        rw [if_pos hlast]
        exact ⟨properState_none, by simp [heldBytes], by simp [Piece.Short]⟩
      next =>
        rw [if_neg hlast]
        refine ⟨?_, by simp [heldBytes], by simp⟩
        rintro q ⟨⟩
        refine ⟨by simp, ?_, UInt8.le_refl _, by dsimp only; omega, ?_⟩
        · simpa [or_imp, forall_and, hb] using hp.held_high
        · have hlen := hp.length_le
          simp only [List.length_append, List.length_singleton]
          omega
    next =>
      rw [if_neg hrange]
      obtain ⟨hproper, hbytes, hshort⟩ := begin_spec b
      refine ⟨hproper, ?_, List.forall_mem_cons.mpr ⟨hp.short, hshort⟩⟩
      rw [List.flatMap_cons, List.append_assoc, hbytes]
      rfl

/-- The pieces are the bytes, in order. -/
theorem flatMap_piecesFrom {pending : Option Pending} (h : ProperState pending) (data : List UInt8) :
    (piecesFrom pending data).flatMap Piece.bytes = heldBytes pending ++ data := by
  induction data generalizing pending with
  | nil => cases pending <;> simp [piecesFrom, heldBytes]
  | cons b rest ih =>
    have hstep := step_spec h b
    rw [piecesFrom, List.flatMap_append, ih hstep.proper, ← List.append_assoc, hstep.bytes,
      List.append_assoc, List.singleton_append]

theorem short_of_mem_piecesFrom {pending : Option Pending} (h : ProperState pending) (data : List UInt8) :
    ∀ p ∈ piecesFrom pending data, p.Short := by
  induction data generalizing pending with
  | nil =>
    cases pending with
    | none => simp [piecesFrom]
    | some q => simpa [piecesFrom] using (h q rfl).short
  | cons b rest ih =>
    have hstep := step_spec h b
    intro p hp
    rcases List.mem_append.mp hp with hp | hp
    · exact hstep.short p hp
    · exact ih hstep.proper p hp

/-- An ASCII byte ends whatever was being read and is a piece of its own. -/
theorem piecesFrom_append_ascii {pending : Option Pending} (h : ProperState pending) {a : UInt8}
    (ha : a ≤ 0x7F) (xs ys : List UInt8) :
    piecesFrom pending (xs ++ a :: ys) = piecesFrom pending xs ++ ⟨[a], true⟩ :: pieces ys := by
  induction xs generalizing pending with
  | nil =>
    cases pending with
    | none => simp [piecesFrom, step, begin_of_ascii ha, pieces]
    | some p =>
      have hlow : ¬ p.low ≤ a := by
        intro hle
        have hlow := (h p rfl).low_high
        simp only [UInt8.le_iff_toNat_le, UInt8.reduceToNat] at ha hle hlow
        omega
      simp [piecesFrom, step, begin_of_ascii ha, pieces, hlow]
  | cons x xs ih =>
    rw [List.cons_append, piecesFrom, piecesFrom, ih (step_spec h x).proper, List.append_assoc]

theorem flatMap_pieces (data : List UInt8) : (pieces data).flatMap Piece.bytes = data :=
  flatMap_piecesFrom properState_none data

theorem pieces_append_ascii {a : UInt8} (ha : a ≤ 0x7F) (xs ys : List UInt8) :
    pieces (xs ++ a :: ys) = pieces xs ++ ⟨[a], true⟩ :: pieces ys :=
  piecesFrom_append_ascii properState_none ha xs ys

theorem lossy_append_ascii {a : UInt8} (ha : a ≤ 0x7F) (xs ys : List UInt8) :
    lossy (xs ++ a :: ys) = lossy xs ++ a :: lossy ys := by
  simp [lossy, pieces_append_ascii ha, Piece.shown]

/-- Well-formed text is left as it is. -/
theorem lossy_of_valid {data : List UInt8} (h : Valid data) : lossy data = data := by
  have hshown : ∀ p ∈ pieces data, p.shown = p.bytes := fun p hp => if_pos (h p hp)
  rw [lossy, List.flatMap_congr hshown, flatMap_pieces]

/-- Replacement brings in no ASCII byte. -/
theorem not_mem_lossy {a : UInt8} (ha : a ≤ 0x7F) {data : List UInt8} (h : a ∉ data) : a ∉ lossy data := by
  intro hmem
  obtain ⟨p, hp, hshown⟩ := List.mem_flatMap.mp hmem
  unfold Piece.shown at hshown
  split at hshown
  next =>
    refine h ?_
    rw [← flatMap_pieces data]
    exact List.mem_flatMap.mpr ⟨p, hp, hshown⟩
  next =>
    have hhigh := List.all_eq_true.mp (by decide : replacement.all (0x7F < ·) = true) a hshown
    exact absurd (of_decide_eq_true hhigh) (UInt8.not_lt.mpr ha)

/-- Every ill-formed piece is as long as its replacement. -/
def KeepsLength (data : List UInt8) : Prop := ∀ p ∈ pieces data, p.wellFormed = false → p.bytes.length = 3

instance (data : List UInt8) : Decidable (KeepsLength data) :=
  inferInstanceAs (Decidable (∀ p ∈ pieces data, p.wellFormed = false → p.bytes.length = 3))

theorem shown_length {p : Piece} (h : p.Short) :
    p.bytes.length ≤ p.shown.length ∧
      (p.shown.length = p.bytes.length ↔ (p.wellFormed = false → p.bytes.length = 3)) := by
  unfold Piece.shown
  cases hw : p.wellFormed with
  | true => simp
  | false =>
    have hlen := (h hw).1
    simp only [Bool.false_eq_true, if_false, forall_const]
    have hthree : replacement.length = 3 := rfl
    omega

theorem flatMap_shown_length {ps : List Piece} (h : ∀ p ∈ ps, p.Short) :
    (ps.flatMap Piece.bytes).length ≤ (ps.flatMap Piece.shown).length ∧
      ((ps.flatMap Piece.shown).length = (ps.flatMap Piece.bytes).length ↔
        ∀ p ∈ ps, p.wellFormed = false → p.bytes.length = 3) := by
  induction ps with
  | nil => simp
  | cons p ps ih =>
    obtain ⟨hp, hps⟩ := List.forall_mem_cons.mp h
    obtain ⟨hle, heq⟩ := shown_length hp
    obtain ⟨hle', heq'⟩ := ih hps
    rw [List.flatMap_cons, List.flatMap_cons, List.length_append, List.length_append, List.forall_mem_cons,
      ← heq, ← heq']
    omega

theorem lossy_length_eq_iff (data : List UInt8) : (lossy data).length = data.length ↔ KeepsLength data := by
  have h := (flatMap_shown_length (short_of_mem_piecesFrom properState_none data)).2
  rwa [← pieces, flatMap_pieces] at h

end Utf8

end KeepAt
