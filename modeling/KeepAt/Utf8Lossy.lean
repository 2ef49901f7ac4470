import KeepAt.Utf8

namespace KeepAt

namespace Utf8

/-- A piece that is read as itself whatever follows it. -/
def Closed (p : Piece) : Prop := ∀ rest, pieces (p.bytes ++ rest) = p :: pieces rest

/-- A state in which nothing has been read but the bytes it holds. -/
def Reached (pending : Option Pending) : Prop :=
  ∀ rest, pieces (heldBytes pending ++ rest) = piecesFrom pending rest

theorem reached_none : Reached none := fun _ => rfl

theorem closed_begin (b : UInt8) : (∀ p ∈ (begin b).1, p.wellFormed = true → Closed p) ∧ Reached (begin b).2 := by
  by_cases hascii : b ≤ 0x7F
  next =>
    rw [begin_of_ascii hascii]
    refine ⟨List.forall_mem_singleton.mpr fun _ rest => ?_, reached_none⟩
    exact pieces_append_ascii hascii [] rest
  next =>
    rcases begin_of_high hascii with h | ⟨p, hheld, -, h⟩
    · rw [h]
      exact ⟨List.forall_mem_singleton.mpr fun hw => (by cases hw), reached_none⟩
    · rw [h]
      refine ⟨by simp, fun rest => ?_⟩
      show pieces (p.held ++ rest) = _
      rw [hheld, pieces, List.singleton_append, piecesFrom, step, h]
      rfl

theorem closed_step {pending : Option Pending} (h : Reached pending) (b : UInt8) :
    (∀ p ∈ (step pending b).1, p.wellFormed = true → Closed p) ∧ Reached (step pending b).2 := by
  cases pending with
  | none => exact closed_begin b
  | some q =>
    have hread : ∀ rest, pieces ((q.held ++ [b]) ++ rest) =
        (step (some q) b).1 ++ piecesFrom (step (some q) b).2 rest := by
      intro rest
      rw [List.append_assoc, List.singleton_append]
      exact h (b :: rest)
    simp only [step] at hread ⊢
    by_cases hrange : q.low ≤ b ∧ b ≤ q.high
    next =>
      simp only [if_pos hrange] at hread ⊢
      by_cases hlast : q.owed ≤ 1
      next =>
        simp only [if_pos hlast] at hread ⊢
        exact ⟨List.forall_mem_singleton.mpr fun _ rest => hread rest, reached_none⟩
      next =>
        simp only [if_neg hlast] at hread ⊢
        exact ⟨by simp, fun rest => hread rest⟩
    next =>
      rw [if_neg hrange]
      obtain ⟨hclosed, hreached⟩ := closed_begin b
      exact ⟨List.forall_mem_cons.mpr ⟨fun hw => (by cases hw), hclosed⟩, hreached⟩

theorem closed_of_mem_piecesFrom {pending : Option Pending} (h : Reached pending) (data : List UInt8) :
    ∀ p ∈ piecesFrom pending data, p.wellFormed = true → Closed p := by
  induction data generalizing pending with
  | nil =>
    cases pending with
    | none => simp [piecesFrom]
    | some q => exact List.forall_mem_singleton.mpr fun hw => by cases hw
  | cons b rest ih =>
    obtain ⟨hclosed, hreached⟩ := closed_step h b
    intro p hp
    rcases List.mem_append.mp hp with hp | hp
    · exact hclosed p hp
    · exact ih hreached p hp

theorem closed_of_mem {data : List UInt8} {p : Piece} (h : p ∈ pieces data) (hw : p.wellFormed = true) :
    Closed p := closed_of_mem_piecesFrom reached_none data p h hw

theorem closed_replacement : Closed ⟨replacement, true⟩ := fun _ => rfl

theorem closed_stray : Closed ⟨[0xFF], false⟩ := fun _ => rfl

theorem pieces_flatMap {ps : List Piece} (h : ∀ p ∈ ps, Closed p) : pieces (ps.flatMap Piece.bytes) = ps := by
  induction ps with
  | nil => rfl
  | cons p ps ih =>
    obtain ⟨hp, hps⟩ := List.forall_mem_cons.mp h
    rw [List.flatMap_cons, hp, ih hps]

/-- The pieces of a lossy reading: those that were well-formed, and replacements. -/
theorem pieces_lossy (data : List UInt8) :
    pieces (lossy data) = (pieces data).map fun p => ⟨p.shown, true⟩ := by
  have hclosed : ∀ q ∈ (pieces data).map fun p => (⟨p.shown, true⟩ : Piece), Closed q := by
    intro q hq
    obtain ⟨p, hp, rfl⟩ := List.mem_map.mp hq
    unfold Piece.shown
    split
    next hw =>
      have hsame : (⟨p.bytes, true⟩ : Piece) = p := by rw [← hw]
      rw [hsame]
      exact closed_of_mem hp hw
    next => exact closed_replacement
  have hread := pieces_flatMap hclosed
  rwa [List.flatMap_map] at hread

theorem valid_lossy (data : List UInt8) : Valid (lossy data) := by
  intro q hq
  rw [pieces_lossy] at hq
  obtain ⟨p, -, rfl⟩ := List.mem_map.mp hq
  rfl

/-- Text that no other bytes are read as: well-formed, and without the replacement character itself. -/
def Plain (data : List UInt8) : Prop := ∀ p ∈ pieces data, p.wellFormed = true ∧ p.bytes ≠ replacement

instance (data : List UInt8) : Decidable (Plain data) :=
  inferInstanceAs (Decidable (∀ p ∈ pieces data, p.wellFormed = true ∧ p.bytes ≠ replacement))

theorem Plain.valid {data : List UInt8} (h : Plain data) : Valid data := fun p hp => (h p hp).1

theorem Plain.eq_of_lossy {data other : List UInt8} (h : Plain data) (hlossy : lossy other = data) :
    other = data := by
  have hvalid : Valid other := by
    intro p hp
    by_contra hill
    have hmem : (⟨p.shown, true⟩ : Piece) ∈ pieces data := by
      rw [← hlossy, pieces_lossy]
      exact List.mem_map.mpr ⟨p, hp, rfl⟩
    exact (h _ hmem).2 (if_neg hill)
  rw [← hlossy, lossy_of_valid hvalid]

/-- Each replacement character of a text, read back as a stray byte. -/
def strayed (p : Piece) : Piece := if p.bytes = replacement then ⟨[0xFF], false⟩ else p

theorem pieces_strayed {data : List UInt8} (h : Valid data) :
    pieces ((pieces data).map strayed |>.flatMap Piece.bytes) = (pieces data).map strayed := by
  refine pieces_flatMap fun q hq => ?_
  obtain ⟨p, hp, rfl⟩ := List.mem_map.mp hq
  unfold strayed
  split
  next => exact closed_stray
  next => exact closed_of_mem hp (h p hp)

theorem lossy_strayed {data : List UInt8} (h : Valid data) :
    lossy ((pieces data).map strayed |>.flatMap Piece.bytes) = data := by
  have hshown : ∀ p ∈ pieces data, (strayed p).shown = p.bytes := by
    intro p hp
    unfold strayed
    split
    next hbytes => rw [hbytes]; rfl
    next => exact if_pos (h p hp)
  rw [lossy, pieces_strayed h, List.flatMap_map, List.flatMap_congr hshown, flatMap_pieces]

/-- A byte string is the only one with its lossy reading exactly when it is plain text. -/
theorem lossy_unique_iff (data : List UInt8) : (∀ other, lossy other = lossy data ↔ other = data) ↔ Plain data := by
  constructor
  · intro h
    have hvalid : Valid data := by
      have hself := (h (lossy data)).mp (lossy_of_valid (valid_lossy data))
      rw [← hself]
      exact valid_lossy data
    refine fun p hp => ⟨hvalid p hp, fun hbytes => ?_⟩
    have hsame := (h _).mp ((lossy_strayed hvalid).trans (lossy_of_valid hvalid).symm)
    have hstray : (⟨[0xFF], false⟩ : Piece) ∈ pieces data := by
      rw [← hsame, pieces_strayed hvalid]
      exact List.mem_map.mpr ⟨p, hp, if_pos hbytes⟩
    exact absurd (hvalid _ hstray) (by decide)
  · intro h other
    constructor
    · intro hlossy
      exact h.eq_of_lossy (hlossy.trans (lossy_of_valid h.valid))
    · rintro rfl
      rfl

theorem lossy_cons_ascii {a : UInt8} (ha : a ≤ 0x7F) (rest : List UInt8) : lossy (a :: rest) = a :: lossy rest :=
  lossy_append_ascii ha [] rest

theorem lossy_append_of_ascii {text : List UInt8} (h : ∀ b ∈ text, b ≤ 0x7F) (rest : List UInt8) :
    lossy (text ++ rest) = text ++ lossy rest := by
  induction text with
  | nil => rfl
  | cons a text ih =>
    obtain ⟨ha, htext⟩ := List.forall_mem_cons.mp h
    rw [List.cons_append, lossy_cons_ascii ha, ih htext, List.cons_append]

theorem lossy_of_ascii {text : List UInt8} (h : ∀ b ∈ text, b ≤ 0x7F) : lossy text = text := by
  have happ := lossy_append_of_ascii h []
  rwa [List.append_nil, show lossy [] = [] from rfl, List.append_nil] at happ

/-- An ASCII byte at the start of a lossy reading was there before. -/
theorem head_of_lossy {a : UInt8} (ha : a ≤ 0x7F) {data rest : List UInt8} (h : lossy data = a :: rest) :
    data.head? = some a := by
  have hhead : ∀ ps : List Piece, (ps.flatMap Piece.shown).head? = some a →
      (ps.flatMap Piece.bytes).head? = some a := by
    intro ps hps
    induction ps with
    | nil => cases hps
    | cons p ps ih =>
      rw [List.flatMap_cons] at hps ⊢
      cases hw : p.wellFormed with
      | true =>
        rw [Piece.shown, hw, if_pos rfl] at hps
        cases hbytes : p.bytes with
        | nil =>
          rw [hbytes] at hps
          exact ih hps
        | cons b bytes =>
          rw [hbytes] at hps
          exact hps
      | false =>
        rw [Piece.shown, hw] at hps
        obtain rfl : 0xEF = a := Option.some.inj hps
        exact absurd ha (by decide)
  have hmem := hhead (pieces data) (by rw [← lossy, h]; rfl)
  rwa [flatMap_pieces] at hmem

end Utf8

end KeepAt
