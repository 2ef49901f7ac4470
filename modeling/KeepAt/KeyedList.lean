import KeepAt.MachineInt
import Mathlib.Algebra.Order.Group.Nat
import Mathlib.Data.List.Nodup

namespace KeepAt

universe u v

/-- A finite map whose values carry their own key, listed in iteration order. -/
structure KeyedList {α : Type u} {κ : Type v} (key : α → κ) where
  values : List α
  distinct : (values.map key).Nodup

namespace KeyedList

variable {α : Type u} {κ : Type v} {key : α → κ}

@[ext] theorem ext {m n : KeyedList key} (h : m.values = n.values) : m = n := by
  cases m; cases n; simpa using h

def empty : KeyedList key := ⟨[], List.nodup_nil⟩

def size (m : KeyedList key) : Nat := m.values.length

def Has (m : KeyedList key) (k : κ) : Prop := k ∈ m.values.map key

theorem has_iff {m : KeyedList key} {k : κ} : m.Has k ↔ ∃ x ∈ m.values, key x = k :=
  List.mem_map

theorem has_of_mem {m : KeyedList key} {x : α} (h : x ∈ m.values) : m.Has (key x) :=
  List.mem_map_of_mem h

theorem eq_of_key_eq {m : KeyedList key} {x y : α} (hx : x ∈ m.values) (hy : y ∈ m.values)
    (h : key x = key y) : x = y :=
  List.inj_on_of_nodup_map m.distinct hx hy h

def reorder (m : KeyedList key) (xs : List α) (h : xs.Perm m.values) : KeyedList key :=
  ⟨xs, (h.map key).nodup_iff.mpr m.distinct⟩

def mapValues (m : KeyedList key) (f : α → α) (hf : ∀ x, key (f x) = key x) : KeyedList key :=
  ⟨m.values.map f, by
    have hk : key ∘ f = key := funext hf
    rw [List.map_map, hk]; exact m.distinct⟩

def total (m : KeyedList key) (f : α → Nat) : Nat := (m.values.map f).sum

theorem total_reorder {m : KeyedList key} {xs : List α} (h : xs.Perm m.values) (f : α → Nat) :
    (m.reorder xs h).total f = m.total f := (h.map f).sum_eq

theorem size_eq_total (m : KeyedList key) : m.size = m.total (fun _ => 1) := by
  simp [size, total]

variable [DecidableEq κ]

instance (m : KeyedList key) (k : κ) : Decidable (m.Has k) :=
  inferInstanceAs (Decidable (k ∈ m.values.map key))

def find (m : KeyedList key) (k : κ) : Option α := m.values.find? (fun x => key x = k)

def erase (m : KeyedList key) (k : κ) : KeyedList key :=
  ⟨m.values.filter (fun x => key x ≠ k), (List.filter_sublist.map key).nodup m.distinct⟩

def insert (m : KeyedList key) (a : α) : KeyedList key :=
  ⟨a :: (m.erase (key a)).values, by
    refine List.nodup_cons.mpr ⟨?_, (m.erase (key a)).distinct⟩
    simp [erase]⟩

def modify (m : KeyedList key) (k : κ) (f : α → α) (hf : ∀ x, key (f x) = key x) :
    KeyedList key :=
  ⟨m.values.map (fun x => if key x = k then f x else x), by
    have hk : key ∘ (fun x => if key x = k then f x else x) = key := by
      funext x; simp only [Function.comp_apply]; split <;> simp [hf]
    rw [List.map_map, hk]; exact m.distinct⟩

def eraseAll (m : KeyedList key) (ks : List κ) : KeyedList key := ks.foldl erase m

theorem mem_erase {m : KeyedList key} {k : κ} {x : α} :
    x ∈ (m.erase k).values ↔ x ∈ m.values ∧ key x ≠ k := by
  simp [erase]

theorem mem_insert {m : KeyedList key} {a x : α} :
    x ∈ (m.insert a).values ↔ x = a ∨ x ∈ m.values ∧ key x ≠ key a := by
  simp [insert, mem_erase]

theorem mem_eraseAll {m : KeyedList key} {ks : List κ} {x : α} :
    x ∈ (m.eraseAll ks).values ↔ x ∈ m.values ∧ key x ∉ ks := by
  induction ks generalizing m with
  | nil => simp [eraseAll]
  | cons k ks ih =>
    have he := ih (m := m.erase k)
    simp only [eraseAll, List.foldl_cons] at he ⊢
    rw [he, mem_erase, List.mem_cons, not_or, and_assoc]

theorem has_erase {m : KeyedList key} {k j : κ} : (m.erase k).Has j ↔ m.Has j ∧ j ≠ k := by
  simp only [has_iff, mem_erase]
  constructor
  · rintro ⟨x, ⟨hx, hne⟩, rfl⟩
    exact ⟨⟨x, hx, rfl⟩, hne⟩
  · rintro ⟨⟨x, hx, rfl⟩, hne⟩
    exact ⟨x, ⟨hx, hne⟩, rfl⟩

theorem has_insert {m : KeyedList key} {a : α} {j : κ} :
    (m.insert a).Has j ↔ j = key a ∨ m.Has j := by
  simp only [has_iff, mem_insert]
  constructor
  · rintro ⟨x, rfl | ⟨hx, _⟩, rfl⟩
    · exact Or.inl rfl
    · exact Or.inr ⟨x, hx, rfl⟩
  · rintro (rfl | ⟨x, hx, rfl⟩)
    · exact ⟨a, Or.inl rfl, rfl⟩
    · by_cases h : key x = key a
      · exact ⟨a, Or.inl rfl, h.symm⟩
      · exact ⟨x, Or.inr ⟨hx, h⟩, rfl⟩

theorem has_eraseAll {m : KeyedList key} {ks : List κ} {j : κ} :
    (m.eraseAll ks).Has j ↔ m.Has j ∧ j ∉ ks := by
  simp only [has_iff, mem_eraseAll]
  constructor
  · rintro ⟨x, ⟨hx, hne⟩, rfl⟩
    exact ⟨⟨x, hx, rfl⟩, hne⟩
  · rintro ⟨⟨x, hx, rfl⟩, hne⟩
    exact ⟨x, ⟨hx, hne⟩, rfl⟩

theorem modify_eq_self {m : KeyedList key} {k : κ} {f : α → α} {hf : ∀ x, key (f x) = key x}
    (h : ∀ x ∈ m.values, key x = k → f x = x) : m.modify k f hf = m := by
  ext1
  refine (List.map_congr_left fun x hx => ?_).trans (List.map_id m.values)
  split
  next hk => exact h x hx hk
  next => rfl

theorem find_eq_some {m : KeyedList key} {k : κ} {x : α} :
    m.find k = some x ↔ x ∈ m.values ∧ key x = k := by
  constructor
  · intro h
    exact ⟨List.mem_of_find?_eq_some h, by simpa using List.find?_some h⟩
  · rintro ⟨hx, rfl⟩
    cases hf : m.find (key x) with
    | none =>
      have := List.find?_eq_none.mp hf x hx
      simp at this
    | some y =>
      have hy := List.mem_of_find?_eq_some hf
      have hk : key y = key x := by simpa using List.find?_some hf
      rw [eq_of_key_eq hy hx hk]

theorem find_eq_none {m : KeyedList key} {k : κ} : m.find k = none ↔ ¬m.Has k := by
  simp [find, has_iff]

theorem find_erase {m : KeyedList key} {k j : κ} :
    (m.erase k).find j = if j = k then none else m.find j := by
  split
  next h => exact find_eq_none.mpr fun hh => (has_erase.mp hh).2 h
  next h =>
    cases hf : m.find j with
    | none => exact find_eq_none.mpr fun hh => find_eq_none.mp hf (has_erase.mp hh).1
    | some x =>
      obtain ⟨hx, hk⟩ := find_eq_some.mp hf
      exact find_eq_some.mpr ⟨mem_erase.mpr ⟨hx, hk ▸ h⟩, hk⟩

theorem find_eraseAll {m : KeyedList key} {ks : List κ} {j : κ} :
    (m.eraseAll ks).find j = if j ∈ ks then none else m.find j := by
  induction ks generalizing m with
  | nil => simp [eraseAll]
  | cons k ks ih =>
    have he := ih (m := m.erase k)
    simp only [eraseAll, List.foldl_cons] at he ⊢
    rw [he, find_erase]
    by_cases hk : j = k <;> by_cases hj : j ∈ ks <;> simp [hk, hj]

theorem find_insert {m : KeyedList key} {a : α} {k : κ} :
    (m.insert a).find k = if k = key a then some a else m.find k := by
  split
  next h => exact find_eq_some.mpr ⟨mem_insert.mpr (Or.inl rfl), h.symm⟩
  next h =>
    have he := find_erase (m := m) (k := key a) (j := k)
    rw [if_neg h] at he
    rw [← he, find, find]
    exact List.find?_cons_of_neg (by simpa using fun hk : key a = k => h hk.symm)

theorem eraseAll_insert_comm {m : KeyedList key} {a : α} {ks : List κ} (h : key a ∉ ks) :
    ((m.insert a).eraseAll ks).values.Perm ((m.eraseAll ks).insert a).values := by
  induction ks generalizing m with
  | nil => exact List.Perm.refl _
  | cons k ks ih =>
    have hne : key a ≠ k := fun he => h (by simp [he])
    have hc : (m.insert a).erase k = (m.erase k).insert a := by
      ext1
      simp only [erase, insert, List.filter_cons, hne, ne_eq, not_false_eq_true, decide_true,
        if_true, List.filter_filter, Bool.and_comm]
    simp only [eraseAll, List.foldl_cons, hc]
    exact ih (fun hm => h (List.mem_cons_of_mem k hm))

theorem total_erase_le (m : KeyedList key) (k : κ) (f : α → Nat) :
    (m.erase k).total f ≤ m.total f :=
  (List.filter_sublist.map f).sum_le_sum (fun _ _ => Nat.zero_le _)

theorem total_insert (m : KeyedList key) (a : α) (f : α → Nat) :
    (m.insert a).total f = f a + (m.erase (key a)).total f := by
  simp [total, insert]

theorem erase_of_not_has {m : KeyedList key} {k : κ} (h : ¬m.Has k) : m.erase k = m := by
  ext1
  refine List.filter_eq_self.mpr ?_
  intro x hx
  simpa using fun he : key x = k => h (he ▸ has_of_mem hx)

theorem total_insert_fresh {m : KeyedList key} {a : α} (h : ¬m.Has (key a)) (f : α → Nat) :
    (m.insert a).total f = f a + m.total f := by
  rw [total_insert, erase_of_not_has h]

/-- Erasing a stored value takes exactly its share out of the measure. -/
theorem total_erase {m : KeyedList key} {x : α} (hx : x ∈ m.values) (f : α → Nat) :
    (m.erase (key x)).total f + f x = m.total f := by
  obtain ⟨xs, hd⟩ := m
  simp only [total, erase] at hx ⊢
  induction xs with
  | nil => simp at hx
  | cons y ys ih =>
    obtain ⟨hy, hd'⟩ := List.nodup_cons.mp hd
    rcases List.mem_cons.mp hx with rfl | hm
    · have hrest : ys.filter (fun z => key z ≠ key x) = ys := by
        refine List.filter_eq_self.mpr ?_
        intro z hz
        simpa using fun he : key z = key x => hy (he ▸ List.mem_map_of_mem hz)
      rw [List.filter_cons_of_neg (by simp), hrest, List.map_cons, List.sum_cons]
      omega
    · have hne : key y ≠ key x := fun he => hy (he ▸ List.mem_map_of_mem hm)
      have hh := ih hd' hm
      rw [List.filter_cons_of_pos (by simpa using hne), List.map_cons, List.map_cons,
        List.sum_cons, List.sum_cons]
      omega

theorem size_erase {m : KeyedList key} {k : κ} (h : m.Has k) : (m.erase k).size + 1 = m.size := by
  obtain ⟨x, hx, rfl⟩ := has_iff.mp h
  simpa only [size_eq_total] using total_erase hx fun _ => 1

theorem size_eraseAll {m : KeyedList key} {ks : List κ} (hd : ks.Nodup) (hs : ∀ k ∈ ks, m.Has k) :
    (m.eraseAll ks).size + ks.length = m.size := by
  induction ks generalizing m with
  | nil => rfl
  | cons k ks ih =>
    obtain ⟨hn, hd'⟩ := List.nodup_cons.mp hd
    obtain ⟨hk, hs'⟩ := List.forall_mem_cons.mp hs
    have hrest := ih (m := m.erase k) hd' fun j hj =>
      has_erase.mpr ⟨hs' j hj, fun he => hn (he ▸ hj)⟩
    have he := size_erase hk
    simp only [eraseAll, List.foldl_cons, List.length_cons] at hrest ⊢
    omega

theorem size_insert (m : KeyedList key) (a : α) :
    (m.insert a).size = if m.Has (key a) then m.size else m.size + 1 := by
  have hsize : (m.insert a).size = (m.erase (key a)).size + 1 := List.length_cons
  split
  next h => rw [hsize, size_erase h]
  next h => rw [hsize, erase_of_not_has h]

/-- Erasing a list of stored values takes exactly their sum out of the measure. -/
theorem total_eraseAll {m : KeyedList key} {ds : List α} (hd : (ds.map key).Nodup)
    (hs : ∀ d ∈ ds, d ∈ m.values) (f : α → Nat) :
    (m.eraseAll (ds.map key)).total f + (ds.map f).sum = m.total f := by
  induction ds generalizing m with
  | nil => simp [eraseAll]
  | cons d ds ih =>
    obtain ⟨hn, hd'⟩ := List.nodup_cons.mp hd
    have hrest : ∀ x ∈ ds, x ∈ (m.erase (key d)).values := by
      intro x hx
      refine mem_erase.mpr ⟨hs x (List.mem_cons_of_mem d hx), fun he => hn ?_⟩
      exact he ▸ List.mem_map_of_mem hx
    have hh := ih hd' hrest
    have he := total_erase (hs d List.mem_cons_self) f
    simp only [eraseAll, List.map_cons, List.foldl_cons, List.sum_cons] at hh ⊢
    omega

end KeyedList

end KeepAt
