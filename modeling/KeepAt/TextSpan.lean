import Mathlib.Data.List.Basic

namespace KeepAt

section Span

variable {α : Type*} {p : α → Bool} {s : List α} {c : α}

theorem takeWhile_of_all (h : ∀ d ∈ s, p d = true) : s.takeWhile p = s := by
  have happend := @List.takeWhile_append_of_pos _ p s [] h
  rwa [List.append_nil, List.takeWhile_nil, List.append_nil] at happend

theorem dropWhile_of_all (h : ∀ d ∈ s, p d = true) : s.dropWhile p = [] := by
  have happend := @List.dropWhile_append_of_pos _ p s [] h
  rwa [List.append_nil, List.dropWhile_nil] at happend

theorem takeWhile_append_cons (h : ∀ d ∈ s, p d = true) (hc : p c = false) (rest : List α) :
    (s ++ c :: rest).takeWhile p = s := by
  rw [List.takeWhile_append_of_pos h, List.takeWhile_cons_of_neg (by simp [hc]), List.append_nil]

theorem dropWhile_append_cons (h : ∀ d ∈ s, p d = true) (hc : p c = false) (rest : List α) :
    (s ++ c :: rest).dropWhile p = c :: rest := by
  rw [List.dropWhile_append_of_pos h, List.dropWhile_cons_of_neg (by simp [hc])]

variable [DecidableEq α]

theorem all_ne_of_not_mem (h : c ∉ s) : ∀ d ∈ s, decide (d ≠ c) = true := by
  intro d hd
  simpa using fun he : d = c => h (he ▸ hd)

theorem takeWhile_ne_append_cons (h : c ∉ s) (rest : List α) : (s ++ c :: rest).takeWhile (· ≠ c) = s :=
  takeWhile_append_cons (all_ne_of_not_mem h) (by simp) rest

theorem dropWhile_ne_append_cons (h : c ∉ s) (rest : List α) :
    (s ++ c :: rest).dropWhile (· ≠ c) = c :: rest :=
  dropWhile_append_cons (all_ne_of_not_mem h) (by simp) rest

theorem takeWhile_ne_of_not_mem (h : c ∉ s) : s.takeWhile (· ≠ c) = s := takeWhile_of_all (all_ne_of_not_mem h)

theorem dropWhile_ne_of_not_mem (h : c ∉ s) : s.dropWhile (· ≠ c) = [] := dropWhile_of_all (all_ne_of_not_mem h)

end Span

end KeepAt
