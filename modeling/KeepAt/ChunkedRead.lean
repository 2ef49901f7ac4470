import Mathlib.Data.List.DropRight

namespace KeepAt

namespace ChunkedRead

universe u

variable {α : Type u} [DecidableEq α]

/-- Reads of a stream up to the first `stop` or up to a limit, whatever comes first. A read that delivers the
`stop` is taken as far as the limit allows, with what follows in it. -/
def readLoop (stop : α) : List α → Nat → List (List α) → List α × Bool
  | line, _, [] => (line, false)
  | line, remaining, buf :: reads =>
    if buf = [] then (line, false)
    else
      let take := min buf.length remaining
      let line := line ++ buf.take take
      let found := decide (stop ∈ line)
      if found || decide (remaining - take = 0) then (line, found)
      else readLoop stop line (remaining - take) reads

/-- A way of delivering a stream: non-empty reads of at most a buffer each. -/
def SplitInto (cap : Nat) (s : List α) (reads : List (List α)) : Prop :=
  reads.flatten = s ∧ ∀ r ∈ reads, r ≠ [] ∧ r.length ≤ cap

variable {stop : α} {cap : Nat}

theorem idxOf_append_of_notMem {line rest : List α} (h : stop ∉ line) :
    (line ++ rest).idxOf stop = line.length + rest.idxOf stop := by
  rw [List.idxOf_append, if_neg h]
  omega

theorem mem_take_iff {s : List α} {n : Nat} (hn : n ≤ s.length) : stop ∈ s.take n ↔ s.idxOf stop < n := by
  have hlen : (s.take n).length = n := List.length_take_of_le hn
  conv_rhs => rw [← List.take_append_drop n s]
  constructor
  · intro hmem
    rw [List.idxOf_append_of_mem hmem]
    have := List.idxOf_lt_length_of_mem hmem
    omega
  · intro hlt
    by_contra hmem
    rw [idxOf_append_of_notMem hmem] at hlt
    omega

theorem readLoop_stops {line buf : List α} {remaining : Nat} {reads : List (List α)} (hne : buf ≠ [])
    (h : stop ∈ line ++ buf.take (min buf.length remaining) ∨ remaining ≤ buf.length) :
    readLoop stop line remaining (buf :: reads) = (line ++ buf.take (min buf.length remaining),
      decide (stop ∈ line ++ buf.take (min buf.length remaining))) := by
  rw [readLoop, if_neg hne]
  refine if_pos ?_
  rw [Bool.or_eq_true, decide_eq_true_iff, decide_eq_true_iff]
  exact h.imp_right fun hle => by omega

theorem readLoop_goes_on {line buf : List α} {remaining : Nat} {reads : List (List α)} (hne : buf ≠ [])
    (hshort : buf.length < remaining) (hnone : stop ∉ line ++ buf) :
    readLoop stop line remaining (buf :: reads) =
      readLoop stop (line ++ buf) (remaining - buf.length) reads := by
  have hmin : min buf.length remaining = buf.length := Nat.min_eq_left hshort.le
  rw [readLoop, if_neg hne, hmin]
  simp only [List.take_length]
  refine if_neg ?_
  rw [Bool.or_eq_true, decide_eq_true_iff, decide_eq_true_iff]
  rintro (hmem | hzero)
  · exact hnone hmem
  · omega

/-- What a loop over bounded reads ends with: the limit or the end of the stream without a `stop`, or the
stream up to at most a buffer past the first one. -/
theorem readLoop_outcome {line : List α} {remaining : Nat} {reads : List (List α)} (hnone : stop ∉ line)
    (room : 0 < remaining) (bounded : ∀ r ∈ reads, r ≠ [] ∧ r.length ≤ cap) :
    ((readLoop stop line remaining reads).2 = false ∧
        stop ∉ (line ++ reads.flatten).take (line.length + remaining)) ∨
      ∃ n, readLoop stop line remaining reads = ((line ++ reads.flatten).take n, true) ∧
        (line ++ reads.flatten).idxOf stop < n ∧ n ≤ (line ++ reads.flatten).length ∧
        n ≤ (line ++ reads.flatten).idxOf stop + cap ∧ n ≤ line.length + remaining := by
  induction reads generalizing line remaining with
  | nil =>
    refine .inl ⟨rfl, fun hmem => hnone ?_⟩
    rw [List.flatten_nil, List.append_nil] at hmem
    exact List.mem_of_mem_take hmem
  | cons buf reads ih =>
    obtain ⟨⟨hne, hcap⟩, hrest⟩ := List.forall_mem_cons.mp bounded
    have htake : min buf.length remaining ≤ buf.length := Nat.min_le_left _ _
    have hread : (line ++ (buf :: reads).flatten).take (line.length + min buf.length remaining) =
        line ++ buf.take (min buf.length remaining) := by
      rw [List.take_length_add_append, List.flatten_cons, List.take_append_of_le_length htake]
    have hlong : line.length + min buf.length remaining ≤ (line ++ (buf :: reads).flatten).length := by
      simp only [List.length_append, List.flatten_cons]
      omega
    by_cases hfound : stop ∈ line ++ buf.take (min buf.length remaining)
    · refine .inr ⟨line.length + min buf.length remaining, ?_, ?_, hlong, ?_, by omega⟩
      · rw [readLoop_stops hne (.inl hfound), hread, decide_eq_true hfound]
      · rw [← mem_take_iff hlong, hread]
        exact hfound
      · rw [idxOf_append_of_notMem hnone]
        omega
    · rcases Nat.lt_or_ge buf.length remaining with hshort | hfull
      · rw [Nat.min_eq_left hshort.le, List.take_length] at hfound
        have hnext := ih hfound (show 0 < remaining - buf.length by omega) hrest
        rw [List.append_assoc, ← List.flatten_cons, List.length_append,
          show line.length + buf.length + (remaining - buf.length) = line.length + remaining by omega] at hnext
        rw [readLoop_goes_on hne hshort hfound]
        exact hnext
      · refine .inl ⟨by rw [readLoop_stops hne (.inr hfull)]; exact decide_eq_false hfound, ?_⟩
        rw [← Nat.min_eq_right hfull, hread]
        exact hfound

/-- A stream delivered one by one. -/
def singles (s : List α) : List (List α) := s.map fun b => [b]

omit [DecidableEq α] in
theorem flatten_singles (s : List α) : (singles s).flatten = s := by
  induction s with
  | nil => rfl
  | cons b s ih =>
    rw [singles, List.map_cons, List.flatten_cons]
    exact congrArg (b :: ·) ih

omit [DecidableEq α] in
theorem singles_bounded (s : List α) (positive : 0 < cap) : ∀ r ∈ singles s, r ≠ [] ∧ r.length ≤ cap := by
  intro r hr
  obtain ⟨b, -, rfl⟩ := List.mem_map.mp hr
  exact ⟨List.cons_ne_nil _ _, positive⟩

theorem readLoop_singles {line xs : List α} {remaining : Nat} {reads : List (List α)}
    (hnone : stop ∉ line ++ xs) (hshort : xs.length < remaining) :
    readLoop stop line remaining (singles xs ++ reads) =
      readLoop stop (line ++ xs) (remaining - xs.length) reads := by
  induction xs generalizing line remaining with
  | nil => rw [List.append_nil]; rfl
  | cons b xs ih =>
    have hsplit : line ++ b :: xs = (line ++ [b]) ++ xs := by simp
    rw [List.length_cons] at hshort
    rw [hsplit] at hnone ⊢
    have hfirst : stop ∉ line ++ [b] := fun hmem => hnone (List.mem_append_left _ hmem)
    rw [singles, List.map_cons, List.cons_append,
      readLoop_goes_on (List.cons_ne_nil _ _) (show 1 < remaining by omega) hfirst]
    have hrest := ih hnone (show xs.length < remaining - 1 by omega)
    rw [show remaining - 1 - xs.length = remaining - (xs.length + 1) by omega] at hrest
    exact hrest

/-- Every end that the outcome allows is one that some delivery of the stream leads to. -/
theorem exists_split {s : List α} {n limit : Nat} (positive : 0 < cap) (after : s.idxOf stop < n)
    (within : n ≤ s.length) (near : n ≤ s.idxOf stop + cap) (capped : n ≤ limit) :
    ∃ reads, SplitInto cap s reads ∧ readLoop stop [] limit reads = (s.take n, true) := by
  have hfirst : stop ∉ s.take (s.idxOf stop) := by
    rw [mem_take_iff (by omega)]
    exact lt_irrefl _
  have hlen : (s.take (s.idxOf stop)).length = s.idxOf stop := List.length_take_of_le (by omega)
  have hchunk : s.take n = s.take (s.idxOf stop) ++ (s.take n).drop (s.idxOf stop) := by
    conv_lhs => rw [← List.take_append_drop (s.idxOf stop) (s.take n)]
    rw [List.take_take, Nat.min_eq_left after.le]
  have hsize : ((s.take n).drop (s.idxOf stop)).length = n - s.idxOf stop := by
    rw [List.length_drop, List.length_take_of_le within]
  have hne : (s.take n).drop (s.idxOf stop) ≠ [] := by
    intro hnil
    rw [hnil, List.length_nil] at hsize
    omega
  refine ⟨singles (s.take (s.idxOf stop)) ++ ((s.take n).drop (s.idxOf stop) :: singles (s.drop n)),
    ⟨?_, ?_⟩, ?_⟩
  · rw [List.flatten_append, List.flatten_cons, flatten_singles, flatten_singles, ← List.append_assoc,
      ← hchunk, List.take_append_drop]
  · intro r hr
    rcases List.mem_append.mp hr with hr | hr
    · exact singles_bounded _ positive r hr
    · rcases List.mem_cons.mp hr with rfl | hr
      · exact ⟨hne, by omega⟩
      · exact singles_bounded _ positive r hr
  · rw [readLoop_singles hfirst (by omega), List.nil_append, hlen]
    have htake : ((s.take n).drop (s.idxOf stop)).take
        (min ((s.take n).drop (s.idxOf stop)).length (limit - s.idxOf stop)) =
        (s.take n).drop (s.idxOf stop) := by
      rw [hsize, Nat.min_eq_left (by omega)]
      exact List.take_of_length_le hsize.le
    have hmem : stop ∈ s.take (s.idxOf stop) ++ (s.take n).drop (s.idxOf stop) := by
      rw [← hchunk, mem_take_iff within]
      exact after
    rw [readLoop_stops hne (.inl (by rw [htake]; exact hmem)), htake, decide_eq_true hmem, ← hchunk]

end ChunkedRead

end KeepAt
