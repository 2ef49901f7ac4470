import Mathlib.Data.List.Infix

namespace KeepAt

variable {α : Type*} {p a b : List α} {c : α}

/-- No occurrence of the pattern starts in a text, whatever follows it. -/
def StartsClear (p a : List α) : Prop := ¬p <:+: a ∧ ∀ k < p.length, 0 < k → ¬p.take k <:+ a

/-- No occurrence of the pattern ends in a text, whatever comes before it. -/
def EndsClear (p b : List α) : Prop := ¬p <:+: b ∧ ∀ k < p.length, 0 < k → ¬p.drop k <+: b

instance [DecidableEq α] (p a : List α) : Decidable (StartsClear p a) :=
  inferInstanceAs (Decidable (_ ∧ _))

instance [DecidableEq α] (p b : List α) : Decidable (EndsClear p b) :=
  inferInstanceAs (Decidable (_ ∧ _))

theorem length_lt_of_append_ne_nil {l₁ l₂ : List α} (h : l₂ ≠ []) : l₁.length < (l₁ ++ l₂).length := by
  rw [List.length_append]
  exact Nat.lt_add_of_pos_right (List.length_pos_iff.mpr h)

theorem infix_append_of_startsClear (h : StartsClear p a) : p <:+: a ++ b ↔ p <:+: b := by
  refine ⟨fun hp => ?_, List.infix_append_of_infix_right⟩
  rcases List.infix_append_iff_ne_nil.mp hp with ha | hb | ⟨l₁, l₂, hl₁, hl₂, rfl, hs, -⟩
  · exact absurd ha h.1
  · exact hb
  · have htake := h.2 l₁.length (length_lt_of_append_ne_nil hl₂) (List.length_pos_iff.mpr hl₁)
    rw [List.take_left] at htake
    exact absurd hs htake

theorem infix_append_of_endsClear (h : EndsClear p b) : p <:+: a ++ b ↔ p <:+: a := by
  refine ⟨fun hp => ?_, List.infix_append_of_infix_left⟩
  rcases List.infix_append_iff_ne_nil.mp hp with ha | hb | ⟨l₁, l₂, hl₁, hl₂, rfl, -, hs⟩
  · exact ha
  · exact absurd hb h.1
  · have hdrop := h.2 l₁.length (length_lt_of_append_ne_nil hl₂) (List.length_pos_iff.mpr hl₁)
    rw [List.drop_left] at hdrop
    exact absurd hs hdrop

theorem startsClear_of_head_notMem (h : c ∉ a) : StartsClear (c :: p) a := by
  refine ⟨fun hp => h (hp.subset List.mem_cons_self), fun k _ hpos hs => h (hs.subset ?_)⟩
  obtain ⟨n, rfl⟩ := Nat.exists_eq_succ_of_ne_zero hpos.ne'
  exact List.mem_cons_self

/-- An element that the pattern does not have parts a text in two. -/
theorem infix_append_cons_of_notMem (h : c ∉ p) : p <:+: a ++ c :: b ↔ p <:+: a ∨ p <:+: b := by
  constructor
  · intro hp
    rcases List.infix_append_iff_ne_nil.mp hp with ha | hb | ⟨l₁, l₂, -, hl₂, rfl, -, hs⟩
    · exact Or.inl ha
    · rcases List.infix_cons_iff.mp hb with hprefix | hb
      · cases p with
        | nil => exact Or.inr List.nil_infix
        | cons d p =>
          rw [← (List.cons_prefix_cons.mp hprefix).1] at h
          exact absurd List.mem_cons_self h
      · exact Or.inr hb
    · obtain ⟨d, l, rfl⟩ := List.exists_cons_of_ne_nil hl₂
      rw [← (List.cons_prefix_cons.mp hs).1] at h
      exact absurd (List.mem_append_right _ List.mem_cons_self) h
  · rintro (ha | hb)
    · exact List.infix_append_of_infix_left ha
    · exact List.infix_append_of_infix_right (List.infix_cons hb)

end KeepAt
