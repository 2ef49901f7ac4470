import KeepAt.Occurrence
import KeepAt.Scrape

namespace KeepAt

def limitNumber : List Char := "429".toList

def limitPhrase : List Char := "too many requests".toList

/-- A text that reads as one about a rate limit, in any case of letters. -/
def Marked (text : List Char) : Prop := limitNumber <:+: text ∨ limitPhrase <:+: text.map Char.toLower

instance (text : List Char) : Decidable (Marked text) := inferInstanceAs (Decidable (_ ∨ _))

/-- One character in lower case. Beyond ASCII only `k` and `i` come out of it in ASCII. -/
structure LowersTo (c : Char) (part : List Char) : Prop where
  nonempty : part ≠ []
  ascii : c.toNat < 128 → part = [c.toLower]
  other : 128 ≤ c.toNat → ∀ d ∈ part, d.toNat < 128 → d = 'k' ∨ d = 'i'

/-- `str::to_lowercase` lowers a text character by character. -/
def IsLowercase (toLowercase : String → String) : Prop :=
  ∀ t, ∃ parts, List.Forall₂ LowersTo t.toList parts ∧ (toLowercase t).toList = parts.flatten

theorem toLower_of_nonAscii {c : Char} (h : 128 ≤ c.toNat) : c.toLower = c := by
  unfold Char.toLower
  refine dif_neg fun hupper => ?_
  have hle : c.toNat ≤ 90 := UInt32.le_iff_toNat_le.mp hupper.2
  omega

/-- A pattern that only ASCII letters lower into. -/
def PlainPattern (p : List Char) : Prop := ∀ d ∈ p, d.toNat < 128 ∧ d ≠ 'k' ∧ d ≠ 'i'

instance (p : List Char) : Decidable (PlainPattern p) := List.decidableBAll _ p

theorem PlainPattern.notMem {p part : List Char} {c : Char} (plain : PlainPattern p) (h : LowersTo c part)
    (hc : 128 ≤ c.toNat) {d : Char} (hd : d ∈ p) : d ∉ part := by
  intro hpart
  obtain ⟨hascii, hk, hi⟩ := plain d hd
  rcases h.other hc d hpart hascii with rfl | rfl
  · exact hk rfl
  · exact hi rfl

theorem PlainPattern.notMem_toLower {p : List Char} {c : Char} (plain : PlainPattern p) (hc : 128 ≤ c.toNat) :
    c.toLower ∉ p := by
  rw [toLower_of_nonAscii hc]
  intro hmem
  exact absurd (plain c hmem).1 (by omega)

theorem prefix_flatten_iff {chars : List Char} {parts : List (List Char)}
    (h : List.Forall₂ LowersTo chars parts) {p : List Char} (plain : PlainPattern p) :
    p <+: parts.flatten ↔ p <+: chars.map Char.toLower := by
  induction h generalizing p with
  | nil => rfl
  | @cons c part chars parts hc _ ih =>
    cases p with
    | nil => simp
    | cons d p =>
      have hd := List.mem_cons_self (a := d) (l := p)
      rcases Nat.lt_or_ge c.toNat 128 with hascii | hother
      · rw [hc.ascii hascii, List.flatten_cons, List.map_cons, List.singleton_append, List.cons_prefix_cons,
          List.cons_prefix_cons, ih fun x hx => plain x (List.mem_cons_of_mem d hx)]
      · obtain ⟨e, part, rfl⟩ := List.exists_cons_of_ne_nil hc.nonempty
        have hpart : d ≠ e := fun he => plain.notMem hc hother hd (he ▸ List.mem_cons_self)
        have hlower : d ≠ c.toLower := fun he => plain.notMem_toLower hother (he ▸ hd)
        rw [List.flatten_cons, List.map_cons, List.cons_append, List.cons_prefix_cons, List.cons_prefix_cons]
        exact iff_of_false (fun h => hpart h.1) (fun h => hlower h.1)

/-- Lowering finds such a pattern where lowering the ASCII letters alone finds it. -/
theorem infix_flatten_iff {chars : List Char} {parts : List (List Char)}
    (h : List.Forall₂ LowersTo chars parts) {p : List Char} (plain : PlainPattern p) (hne : p ≠ []) :
    p <:+: parts.flatten ↔ p <:+: chars.map Char.toLower := by
  induction h with
  | nil => rfl
  | @cons c part chars parts hc hrest ih =>
    rcases Nat.lt_or_ge c.toNat 128 with hascii | hother
    · have hprefix := prefix_flatten_iff (.cons hc hrest) plain
      rw [hc.ascii hascii, List.flatten_cons, List.map_cons, List.singleton_append] at hprefix ⊢
      rw [List.infix_cons_iff, List.infix_cons_iff, hprefix, ih]
    · obtain ⟨d, p, rfl⟩ := List.exists_cons_of_ne_nil hne
      have hpart : d ∉ part := plain.notMem hc hother List.mem_cons_self
      have hlower : d ∉ [c.toLower] := fun he =>
        plain.notMem_toLower hother (List.mem_singleton.mp he ▸ List.mem_cons_self)
      have hmap : (c :: chars).map Char.toLower = [c.toLower] ++ chars.map Char.toLower := rfl
      rw [List.flatten_cons, infix_append_of_startsClear (startsClear_of_head_notMem hpart), hmap,
        infix_append_of_startsClear (startsClear_of_head_notMem hlower), ih]

variable {toLowercase : String → String} {a b : List Char} {c : Char}

theorem contains_limitPhrase_iff (lower : IsLowercase toLowercase) (t : String) :
    limitPhrase <:+: (toLowercase t).toList ↔ limitPhrase <:+: t.toList.map Char.toLower := by
  obtain ⟨parts, hparts, hflatten⟩ := lower t
  rw [hflatten]
  exact infix_flatten_iff hparts (by decide) (by decide)

theorem marked_append_cons (hnumber : c ∉ limitNumber) (hphrase : c.toLower ∉ limitPhrase) :
    Marked (a ++ c :: b) ↔ Marked a ∨ Marked b := by
  unfold Marked
  rw [List.map_append, List.map_cons, infix_append_cons_of_notMem hnumber, infix_append_cons_of_notMem hphrase]
  exact or_or_or_comm

theorem marked_append_of_startsClear (hnumber : StartsClear limitNumber a)
    (hphrase : StartsClear limitPhrase (a.map Char.toLower)) : Marked (a ++ b) ↔ Marked b := by
  unfold Marked
  rw [List.map_append, infix_append_of_startsClear hnumber, infix_append_of_startsClear hphrase]

theorem marked_append_of_endsClear (hnumber : EndsClear limitNumber b)
    (hphrase : EndsClear limitPhrase (b.map Char.toLower)) : Marked (a ++ b) ↔ Marked a := by
  unfold Marked
  rw [List.map_append, infix_append_of_endsClear hnumber, infix_append_of_endsClear hphrase]

/-- An error on one line is marked when one of its texts is. -/
theorem marked_errorText_iff (e : ErrorChain) : Marked (errorText e).toList ↔ ∃ t ∈ e, Marked t.toList := by
  unfold errorText
  rw [String.toList_ofList]
  induction e with
  | nil => decide
  | cons t e ih =>
    cases e with
    | nil => simp [List.intercalate]
    | cons u e =>
      have hcons : List.intercalate ": ".toList ((t :: u :: e).map String.toList)
          = t.toList ++ ':' :: (" ".toList ++ List.intercalate ": ".toList ((u :: e).map String.toList)) := by
        simp [List.intercalate]
      rw [hcons, marked_append_cons (by decide) (by decide),
        marked_append_of_startsClear (by decide) (by decide), ih]
      exact (List.exists_mem_cons_iff (fun t : String => Marked t.toList) _ _).symm

/-- The classification sees nothing but the marks of the texts in the chain. -/
theorem isRateLimited_iff (lower : IsLowercase toLowercase) (e : ErrorChain) :
    isRateLimited toLowercase e = true ↔ ∃ t ∈ e, Marked t.toList := by
  rw [← marked_errorText_iff, isRateLimited, Bool.or_eq_true, containsText, containsText, decide_eq_true_iff,
    decide_eq_true_iff]
  exact or_congr Iff.rfl (contains_limitPhrase_iff lower _)

end KeepAt
