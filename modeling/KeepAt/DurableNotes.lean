import KeepAt.Traces
import Mathlib.Data.List.Basic

namespace KeepAt

variable {κ V τ : Type*}

/-- A value noted under a key, and when. -/
structure Note (κ V τ : Type*) where
  key : κ
  value : V
  stamp : τ

/-- Notes in memory, and those that a restart brings back. A note counts for as long as `ttl`. -/
structure Notebook (κ V τ : Type*) where
  now : τ
  ttl : Nat
  notes : List (Note κ V τ)
  kept : List (Note κ V τ)

inductive NotebookEvent (κ V τ : Type*) where
  | silent
  | noted (n : Note κ V τ)
  | forgot
  | answered (key : κ) (now : τ) (ttl : Nat) (value : Option V)

section Steps

variable [DecidableEq κ]

def lastNote (notes : List (Note κ V τ)) (key : κ) : Option (Note κ V τ) :=
  notes.reverse.find? fun n => decide (n.key = key)

/-- The last value noted under the key, unless it has aged. -/
def Notebook.answer (age : τ → τ → Nat) (b : Notebook κ V τ) (key : κ) : Option V :=
  (lastNote b.notes key).bind fun n => if age n.stamp b.now > b.ttl then none else some n.value

/-- A restart brings back what the last save kept, unless that cannot be read or is gone. -/
inductive NotebookStep (age : τ → τ → Nat) (b : Notebook κ V τ) : NotebookEvent κ V τ → Notebook κ V τ → Prop
  | clock (now : τ) : NotebookStep age b .silent { b with now }
  | note (key : κ) (value : V) :
      NotebookStep age b (.noted ⟨key, value, b.now⟩) { b with notes := b.notes ++ [⟨key, value, b.now⟩] }
  | save : NotebookStep age b .silent { b with kept := b.notes }
  | restart (ttl : Nat) : NotebookStep age b .silent { b with ttl, notes := b.kept }
  | blank (ttl : Nat) : NotebookStep age b .forgot { b with ttl, notes := [] }
  | lose : NotebookStep age b .forgot { b with kept := [] }
  | answer (key : κ) : NotebookStep age b (.answered key b.now b.ttl (b.answer age key)) b

end Steps

variable [DecidableEq κ] {age : τ → τ → Nat} {b b' : Notebook κ V τ} {obs : List (NotebookEvent κ V τ)}
  {o : NotebookEvent κ V τ} {notes : List (Note κ V τ)} {n : Note κ V τ} {key : κ}

theorem lastNote_concat (notes : List (Note κ V τ)) (n : Note κ V τ) (key : κ) :
    lastNote (notes ++ [n]) key = if n.key = key then some n else lastNote notes key := by
  rw [lastNote, List.reverse_append, List.reverse_singleton, List.singleton_append, List.find?_cons]
  split
  next h => rw [if_pos (of_decide_eq_true h)]
  next h => rw [if_neg (of_decide_eq_false h), lastNote]

theorem mem_of_lastNote (h : lastNote notes key = some n) : n ∈ notes :=
  List.mem_reverse.mp (List.mem_of_find?_eq_some h)

theorem key_of_lastNote (h : lastNote notes key = some n) : n.key = key := by
  have hfound := List.find?_some h
  exact of_decide_eq_true hfound

namespace Notebook

/-- All that is remembered or kept was noted, and an answer is a value that was noted under its key and has not
aged. -/
structure FromNotes (age : τ → τ → Nat) (obs : List (NotebookEvent κ V τ)) (b : Notebook κ V τ) : Prop where
  notes : ∀ n ∈ b.notes, .noted n ∈ obs
  kept : ∀ n ∈ b.kept, .noted n ∈ obs
  answers : ∀ key now ttl value, .answered key now ttl (some value) ∈ obs →
    ∃ stamp, .noted ⟨key, value, stamp⟩ ∈ obs ∧ age stamp now ≤ ttl

theorem answer_spec {value : V} (h : b.answer age key = some value) :
    ∃ stamp, ⟨key, value, stamp⟩ ∈ b.notes ∧ age stamp b.now ≤ b.ttl := by
  obtain ⟨⟨key', value', stamp⟩, hlast, hvalue⟩ := Option.bind_eq_some_iff.mp h
  have hmem := mem_of_lastNote hlast
  obtain rfl : key' = key := key_of_lastNote hlast
  dsimp only at hvalue
  split at hvalue
  next => cases hvalue
  next hage =>
    obtain rfl := Option.some.inj hvalue
    exact ⟨stamp, hmem, Nat.le_of_not_lt hage⟩

omit [DecidableEq κ] in
theorem FromNotes.concat (h : FromNotes age obs b)
    (asked : ∀ key now ttl value, o = .answered key now ttl (some value) →
      ∃ stamp, .noted ⟨key, value, stamp⟩ ∈ obs ∧ age stamp now ≤ ttl) : FromNotes age (obs ++ [o]) b := by
  refine ⟨fun n hn => List.mem_append_left _ (h.notes n hn), fun n hn => List.mem_append_left _ (h.kept n hn),
    fun key now ttl value hmem => ?_⟩
  rcases List.mem_append.mp hmem with hmem | hmem
  · obtain ⟨stamp, hnoted, hage⟩ := h.answers key now ttl value hmem
    exact ⟨stamp, List.mem_append_left _ hnoted, hage⟩
  · obtain ⟨stamp, hnoted, hage⟩ := asked key now ttl value (List.mem_singleton.mp hmem).symm
    exact ⟨stamp, List.mem_append_left _ hnoted, hage⟩

theorem FromNotes.step (h : FromNotes age obs b) (step : NotebookStep age b o b') :
    FromNotes age (obs ++ [o]) b' := by
  cases step with
  | clock now =>
    have hlater := h.concat (o := .silent) nofun
    exact ⟨hlater.notes, hlater.kept, hlater.answers⟩
  | note key value =>
    have hlater := h.concat (o := .noted ⟨key, value, b.now⟩) nofun
    refine ⟨List.forall_mem_append.mpr ⟨hlater.notes, List.forall_mem_singleton.mpr ?_⟩, hlater.kept,
      hlater.answers⟩
    exact List.mem_append_right _ (List.mem_singleton_self _)
  | save =>
    have hlater := h.concat (o := .silent) nofun
    exact ⟨hlater.notes, hlater.notes, hlater.answers⟩
  | restart ttl =>
    have hlater := h.concat (o := .silent) nofun
    exact ⟨hlater.kept, hlater.kept, hlater.answers⟩
  | blank ttl =>
    have hlater := h.concat (o := .forgot) nofun
    exact ⟨fun _ hn => absurd hn List.not_mem_nil, hlater.kept, hlater.answers⟩
  | lose =>
    have hlater := h.concat (o := .forgot) nofun
    exact ⟨hlater.notes, fun _ hn => absurd hn List.not_mem_nil, hlater.answers⟩
  | answer key =>
    refine h.concat fun key' now ttl value he => ?_
    obtain ⟨rfl, rfl, rfl, hvalue⟩ := NotebookEvent.answered.inj he
    obtain ⟨stamp, hmem, hage⟩ := answer_spec hvalue
    exact ⟨stamp, h.notes _ hmem, hage⟩

theorem fromNotes_of_run (run : Trace (NotebookStep age) b obs b') (fresh : FromNotes age [] b) :
    FromNotes age obs b' :=
  run.preserves (P := FromNotes age) (fun step h => h.step step) fresh

/-- The last note under the key is that one, or a later one. -/
def NoOlder (n : Note κ V τ) (obs : List (NotebookEvent κ V τ)) (notes : List (Note κ V τ)) : Prop :=
  ∃ m, lastNote notes n.key = some m ∧ (m = n ∨ .noted m ∈ obs)

theorem NoOlder.concat (h : NoOlder n obs notes) : NoOlder n (obs ++ [o]) notes := by
  obtain ⟨m, hm, hlater⟩ := h
  exact ⟨m, hm, hlater.imp_right (List.mem_append_left _)⟩

theorem NoOlder.noted (h : NoOlder n obs notes) (m : Note κ V τ) :
    NoOlder n (obs ++ [.noted m]) (notes ++ [m]) := by
  by_cases hkey : m.key = n.key
  · exact ⟨m, by rw [lastNote_concat, if_pos hkey], Or.inr (List.mem_append_right _ (List.mem_singleton_self _))⟩
  · obtain ⟨l, hl, hlater⟩ := h
    exact ⟨l, by rw [lastNote_concat, if_neg hkey, hl], hlater.imp_right (List.mem_append_left _)⟩

/-- What a save has kept is not gone back behind, however often the notebook restarts. -/
theorem kept_survives (run : Trace (NotebookStep age) b obs b') (h : lastNote b.notes n.key = some n)
    (saved : b.kept = b.notes) (whole : .forgot ∉ obs) : NoOlder n obs b'.notes ∧ NoOlder n obs b'.kept := by
  induction run with
  | refl =>
    rw [saved]
    exact ⟨⟨n, h, Or.inl rfl⟩, ⟨n, h, Or.inl rfl⟩⟩
  | @tail y z obs o run last ih =>
    obtain ⟨hbefore, hlast⟩ := not_or.mp (fun h => whole (List.mem_append.mpr h))
    obtain ⟨hnotes, hkept⟩ := ih hbefore
    cases last with
    | clock now => exact ⟨hnotes.concat, hkept.concat⟩
    | note key value => exact ⟨hnotes.noted _, hkept.concat⟩
    | save => exact ⟨hnotes.concat, hnotes.concat⟩
    | restart ttl => exact ⟨hkept.concat, hkept.concat⟩
    | blank ttl => exact absurd (List.mem_singleton_self _) hlast
    | lose => exact absurd (List.mem_singleton_self _) hlast
    | answer key => exact ⟨hnotes.concat, hkept.concat⟩

end Notebook

end KeepAt
