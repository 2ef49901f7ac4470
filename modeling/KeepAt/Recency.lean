import Mathlib.Data.List.Nodup

namespace KeepAt

namespace Recency

variable {κ : Type*} [DecidableEq κ]

/-- A use of a key, in a list of keys that starts with the one used last. -/
def touch (k : κ) (l : List κ) : List κ := k :: l.erase k

/-- A new key, in place of the least recently used ones from the bound on. -/
def install (cap : Nat) (k : κ) (l : List κ) : List κ := k :: l.take (cap - 1)

/-- Drop the `n` least recently used keys. -/
def shed (n : Nat) (l : List κ) : List κ := l.take (l.length - n)

def request (cap : Nat) (l : List κ) (k : κ) : List κ := if k ∈ l then touch k l else install cap k l

/-- The distinct keys of a history of uses, both with the last one first. -/
def recent : List κ → List κ
  | [] => []
  | k :: earlier => touch k (recent earlier)

theorem mem_touch {k j : κ} {l : List κ} (h : l.Nodup) : j ∈ touch k l ↔ j = k ∨ j ∈ l := by
  unfold touch
  rw [List.mem_cons, h.mem_erase_iff]
  by_cases he : j = k <;> simp [he]

theorem touch_sublist {l h : List κ} (k : κ) (hl : l.Sublist (recent h)) :
    (touch k l).Sublist (recent (k :: h)) :=
  (hl.erase k).cons_cons k

theorem install_sublist {l h : List κ} {k : κ} (cap : Nat) (hk : k ∉ l) (hl : l.Sublist (recent h)) :
    (install cap k l).Sublist (recent (k :: h)) := by
  have herase := ((List.take_sublist (cap - 1) l).trans hl).erase k
  rw [List.erase_of_not_mem fun hm => hk (List.mem_of_mem_take hm)] at herase
  exact herase.cons_cons k

theorem take_erase_of_mem {k : κ} {n : Nat} {l : List κ} (h : k ∈ l.take (n + 1)) :
    (l.erase k).take n = (l.take (n + 1)).erase k := by
  induction l generalizing n with
  | nil => simp at h
  | cons x l ih =>
    rw [List.take_succ_cons] at h ⊢
    by_cases hx : x = k
    · subst hx
      rw [List.erase_cons_head, List.erase_cons_head]
    · have hm : k ∈ l.take n := (List.mem_cons.mp h).resolve_left fun he => hx he.symm
      rw [List.erase_cons_tail (by simpa using hx), List.erase_cons_tail (by simpa using hx)]
      cases n with
      | zero => simp at hm
      | succ n => rw [List.take_succ_cons, ih hm]

theorem take_erase_of_not_mem {k : κ} {n : Nat} {l : List κ} (h : k ∉ l.take n) :
    (l.erase k).take n = l.take n := by
  induction l generalizing n with
  | nil => rfl
  | cons x l ih =>
    cases n with
    | zero => rfl
    | succ n =>
      rw [List.take_succ_cons, List.mem_cons, not_or] at h
      have hx : x ≠ k := fun he => h.1 he.symm
      rw [List.erase_cons_tail (by simpa using hx), List.take_succ_cons, List.take_succ_cons, ih h.2]

/-- Served request by request, the bounded list holds the keys used last. -/
theorem request_take_recent {cap : Nat} (hcap : 0 < cap) (h : List κ) (k : κ) :
    request cap ((recent h).take cap) k = (recent (k :: h)).take cap := by
  obtain ⟨n, rfl⟩ : ∃ n, cap = n + 1 := ⟨cap - 1, by omega⟩
  rw [recent, touch, List.take_succ_cons]
  unfold request
  split
  next hm => rw [touch, take_erase_of_mem hm]
  next hm =>
    have hm' : k ∉ (recent h).take n := fun hk => hm ((List.take_subset_take_left _ n.le_succ) hk)
    rw [install, Nat.add_sub_cancel, List.take_take, Nat.min_eq_left n.le_succ, take_erase_of_not_mem hm']

end Recency

end KeepAt
