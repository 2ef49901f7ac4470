import Mathlib.Data.List.FinRange
import Mathlib.Data.List.Sort

namespace KeepAt

variable {α : Type} {r : α → α → Prop} {l sorted : List α}

/-- A rearrangement in order, in which every part of the list that is in order already stays as it is. -/
structure IsStableSort (r : α → α → Prop) (l sorted : List α) : Prop where
  perm : sorted.Perm l
  ordered : sorted.Pairwise r
  stable : ∀ part : List α, part.Sublist l → part.Pairwise r → part.Sublist sorted

theorem isStableSort_insertionSort [DecidableRel r] (total : ∀ a b, r a b ∨ r b a)
    (trans : ∀ a b c, r a b → r b c → r a c) (l : List α) : IsStableSort r l (l.insertionSort r) := by
  have htotal : Std.Total r := ⟨total⟩
  have htrans : IsTrans α r := ⟨trans⟩
  exact ⟨List.perm_insertionSort r l, List.pairwise_insertionSort r l,
    fun part hpart hordered => List.sublist_insertionSort hordered hpart⟩

theorem IsStableSort.congr {r' : α → α → Prop} (h : IsStableSort r l sorted)
    (same : ∀ a b, r a b ↔ r' a b) : IsStableSort r' l sorted := by
  have hr : r = r' := funext fun a => funext fun b => propext (same a b)
  exact hr ▸ h

/-- A member of a prefix of a sorted list brings everything with it that comes before it. -/
theorem mem_prefix_of_not_rel {front : List α} {a b : α} (ordered : sorted.Pairwise r) (h : front <+: sorted)
    (ha : a ∈ front) (hb : b ∈ sorted) (before : ¬r a b) : b ∈ front := by
  obtain ⟨rest, rfl⟩ := h
  rcases List.mem_append.mp hb with hb | hb
  · exact hb
  · exact absurd ((List.pairwise_append.mp ordered).2.2 a ha b hb) before

/-- The shortest prefix with a property. -/
structure ShortestPrefix (P : List α → Prop) (l front : List α) : Prop where
  isPrefix : front <+: l
  holds : P front
  least : ∀ shorter, shorter <+: l → P shorter → front.length ≤ shorter.length

theorem ShortestPrefix.cons {P : List α → Prop} {a : α} {front : List α} (empty : ¬P [])
    (h : ShortestPrefix (fun front => P (a :: front)) l front) : ShortestPrefix P (a :: l) (a :: front) := by
  refine ⟨(List.prefix_cons_inj a).mpr h.isPrefix, h.holds, fun shorter hshorter hP => ?_⟩
  rcases List.prefix_cons_iff.mp hshorter with rfl | ⟨t, rfl, ht⟩
  · exact absurd hP empty
  · have hle := h.least t ht hP
    rw [List.length_cons, List.length_cons]
    omega

/-- The members of a list at given positions. -/
def atPositions (l : List α) (positions : List (Fin l.length)) : List α := positions.map l.get

/-- Filtering, sorting and cutting off a list selects some of its positions, each at most once. -/
theorem exists_positions_of_isPrefix [DecidableRel r] (p : α → Bool) {front : List α}
    (h : front <+: (l.filter p).insertionSort r) :
    ∃ positions : List (Fin l.length), positions.Nodup ∧ front = atPositions l positions := by
  let order : List (Fin l.length) :=
    ((List.finRange l.length).filter fun i => p (l.get i)).insertionSort fun i j => r (l.get i) (l.get j)
  have hfilter : atPositions l ((List.finRange l.length).filter fun i => p (l.get i)) = l.filter p := by
    have hmap := List.filter_map (l := List.finRange l.length) (p := p) (f := l.get)
    rw [List.map_get_finRange] at hmap
    exact hmap.symm
  have horder : atPositions l order = (l.filter p).insertionSort r := by
    rw [← hfilter]
    exact List.map_insertionSort _ _ _ _ fun i _ j _ => Iff.rfl
  have hnodup : order.Nodup := by
    refine (List.perm_insertionSort _ _).nodup_iff.mpr ?_
    exact (List.nodup_finRange _).filter _
  refine ⟨order.take front.length, hnodup.sublist (List.take_sublist _ _), ?_⟩
  rw [atPositions, List.map_take]
  change front = (atPositions l order).take front.length
  rw [horder]
  exact List.prefix_iff_eq_take.mp h

end KeepAt
