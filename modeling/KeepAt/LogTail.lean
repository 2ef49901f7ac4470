import KeepAt.CompleteLines
import KeepAt.HistoryFile
import KeepAt.Utf8

namespace KeepAt

/-- Back over bytes with their offsets: the offset past the last newline looked at, once there are as many
as asked for, and the number of newlines seen. -/
def countBack (lines : Nat) : List (UInt8 × Nat) → Nat → Nat → Nat × Nat
  | [], idx, seen => (idx, seen)
  | (b, off) :: rest, idx, seen =>
    if b = newline then
      if seen + 1 = lines then (off + 1, seen + 1) else countBack lines rest idx (seen + 1)
    else countBack lines rest idx seen

def tailStart (lines : Nat) (complete : Bytes) : Nat :=
  if lines = 0 then complete.length
  else
    let (idx, seen) := countBack lines complete.zipIdx.reverse complete.length 0
    if seen < lines then 0 else idx

/-- The text printed, and the position from which the file is followed. -/
def printTail (data : Bytes) (lines : Nat) : Bytes × Nat :=
  let text := Utf8.lossy data
  let completeLen := LineFile.completeLen newline text
  let complete := text.take completeLen
  (complete.drop (tailStart lines complete), completeLen)

/-- Bytes that are no newlines are passed over. -/
theorem countBack_skip {n : Nat} {body : Bytes} (h : newline ∉ body) (start idx seen : Nat)
    (rest : List (UInt8 × Nat)) :
    countBack n ((body.zipIdx start).reverse ++ rest) idx seen = countBack n rest idx seen := by
  induction body generalizing start rest with
  | nil => rfl
  | cons b body ih =>
    obtain ⟨hb, hbody⟩ := List.ne_and_not_mem_of_not_mem_cons h
    rw [List.zipIdx_cons, List.reverse_cons, List.append_assoc, ih hbody, List.singleton_append, countBack,
      if_neg hb.symm]

/-- Over complete lines the count stops at the end of a line: with `n` newlines counted from the end,
`n - 1` lines stand after it. -/
theorem countBack_lines {lines : List Bytes} (h : ∀ line ∈ lines, LineFile.IsLine newline line) {n seen : Nat}
    (hseen : seen < n) (idx : Nat) :
    countBack n lines.flatten.zipIdx.reverse idx seen =
      if seen + lines.length < n then (idx, seen + lines.length)
      else ((lines.take (lines.length - (n - seen - 1))).flatten.length, n) := by
  induction lines using List.reverseRecOn generalizing seen with
  | nil => simp [countBack, hseen]
  | append_singleton lines line ih =>
    obtain ⟨body, rfl, hbody⟩ := h line (List.mem_append_right _ (List.mem_singleton_self _))
    have hinit : ∀ l ∈ lines, LineFile.IsLine newline l := fun l hl => h l (List.mem_append_left _ hl)
    have hflat : (lines ++ [body ++ [newline]]).flatten = lines.flatten ++ body ++ [newline] := by simp
    have hlen : (lines ++ [body ++ [newline]]).length = lines.length + 1 := by simp
    have hcount : countBack n (lines ++ [body ++ [newline]]).flatten.zipIdx.reverse idx seen =
        if seen + 1 = n then ((lines ++ [body ++ [newline]]).flatten.length, n)
        else countBack n lines.flatten.zipIdx.reverse idx (seen + 1) := by
      rw [hflat, List.zipIdx_append, List.zipIdx_append, List.reverse_append, List.reverse_append,
        List.zipIdx_singleton, List.reverse_singleton, List.singleton_append, countBack, if_pos rfl,
        countBack_skip hbody]
      split
      next he => simp [he, Nat.add_assoc]
      next => rfl
    rw [hcount]
    by_cases hlast : seen + 1 = n
    next =>
      have hall : (lines ++ [body ++ [newline]]).take
          ((lines ++ [body ++ [newline]]).length - (n - seen - 1)) = lines ++ [body ++ [newline]] :=
        List.take_of_length_le (by omega)
      rw [if_pos hlast, if_neg (by omega), hall]
    next =>
      have htake : lines.length + 1 - (n - seen - 1) = lines.length - (n - (seen + 1) - 1) := by omega
      rw [if_neg hlast, ih hinit (by omega), hlen, htake, List.take_append_of_le_length (Nat.sub_le _ _),
        Nat.add_right_comm, Nat.add_assoc]

theorem tailStart_lines {lines : List Bytes} (h : ∀ line ∈ lines, LineFile.IsLine newline line) (n : Nat) :
    tailStart n lines.flatten =
      if n = 0 then lines.flatten.length
      else if lines.length < n then 0
      else (lines.take (lines.length - (n - 1))).flatten.length := by
  unfold tailStart
  by_cases hn : n = 0
  next => rw [if_pos hn, if_pos hn]
  next =>
    rw [if_neg hn, if_neg hn, countBack_lines h (Nat.pos_of_ne_zero hn), Nat.zero_add, Nat.sub_zero]
    by_cases hfew : lines.length < n
    next => simp only [if_pos hfew]
    next => simp only [if_neg hfew, lt_irrefl, if_false]

/-- The last `n` lines, end to end. -/
def lastLines (n : Nat) (lines : List Bytes) : Bytes := (lines.drop (lines.length - n)).flatten

theorem lastLines_zero (lines : List Bytes) : lastLines 0 lines = [] := by
  rw [lastLines, Nat.sub_zero, List.drop_length]
  rfl

theorem lastLines_length (lines : List Bytes) : lastLines lines.length lines = lines.flatten := by
  rw [lastLines, Nat.sub_self, List.drop_zero]

theorem lastLines_succ {lines : List Bytes} {n : Nat} (h : n < lines.length) :
    ∃ line ∈ lines, lastLines (n + 1) lines = line ++ lastLines n lines := by
  have hlt : lines.length - (n + 1) < lines.length := by omega
  have hnext : lines.length - (n + 1) + 1 = lines.length - n := by omega
  refine ⟨lines[lines.length - (n + 1)], List.getElem_mem hlt, ?_⟩
  rw [lastLines, List.drop_eq_getElem_cons hlt, List.flatten_cons, hnext, lastLines]

theorem drop_tailStart_lines {lines : List Bytes} (h : ∀ line ∈ lines, LineFile.IsLine newline line) (n : Nat) :
    lines.flatten.drop (tailStart n lines.flatten) =
      lastLines (if lines.length < n then lines.length else n - 1) lines := by
  rw [tailStart_lines h]
  by_cases hn : n = 0
  next =>
    subst hn
    rw [if_pos rfl, if_neg (Nat.not_lt_zero _), List.drop_length, lastLines_zero]
  next =>
    rw [if_neg hn]
    by_cases hfew : lines.length < n
    next => rw [if_pos hfew, if_pos hfew, List.drop_zero, lastLines_length]
    next =>
      have hsplit := congrArg List.flatten (List.take_append_drop (lines.length - (n - 1)) lines)
      rw [List.flatten_append] at hsplit
      rw [if_neg hfew, if_neg hfew, lastLines]
      nth_rewrite 1 [← hsplit]
      rw [List.drop_left]

/-- Of well-formed text, all lines are printed where there are fewer than asked for, and else one line fewer
than asked for. -/
theorem printTail_of_valid {data : Bytes} (hv : Utf8.Valid data) (n : Nat) :
    (printTail data n).1 =
      lastLines (if (LineFile.completeLines newline data).length < n
        then (LineFile.completeLines newline data).length else n - 1) (LineFile.completeLines newline data) := by
  have hlines : ∀ line ∈ LineFile.completeLines newline data, LineFile.IsLine newline line := fun _ h =>
    LineFile.isLine_of_mem_completeLines h
  have hcomplete : data.take (LineFile.completeLen newline data) = (LineFile.completeLines newline data).flatten :=
    (LineFile.flatten_completeLines data).symm
  simp only [printTail, Utf8.lossy_of_valid hv, hcomplete, drop_tailStart_lines hlines]

/-- The last lines are printed as asked for exactly when none are, or more than there are. -/
theorem printTail_last_lines_iff {data : Bytes} (hv : Utf8.Valid data) (n : Nat) :
    (printTail data n).1 =
        lastLines (min n (LineFile.completeLines newline data).length) (LineFile.completeLines newline data) ↔
      n = 0 ∨ (LineFile.completeLines newline data).length < n := by
  rw [printTail_of_valid hv]
  by_cases hfew : (LineFile.completeLines newline data).length < n
  next => simp [hfew, hfew.le]
  next =>
    rw [if_neg hfew, min_eq_left (not_lt.mp hfew)]
    cases n with
    | zero => simp
    | succ n =>
      refine iff_of_false (fun heq => ?_) (by omega)
      obtain ⟨line, hmem, hnext⟩ := lastLines_succ (not_lt.mp hfew)
      obtain ⟨body, rfl, -⟩ := LineFile.isLine_of_mem_completeLines hmem
      rw [hnext, Nat.add_sub_cancel] at heq
      have hlen := congrArg List.length heq
      simp only [List.length_append, List.length_singleton] at hlen
      omega

theorem printTail_last_lines_all :
    (printTail [97, 10, 98, 10, 99] 3).1 =
      lastLines (min 3 (LineFile.completeLines newline [97, 10, 98, 10, 99]).length)
        (LineFile.completeLines newline [97, 10, 98, 10, 99]) :=
  (printTail_last_lines_iff (by decide) 3).mpr (Or.inr (by decide))

/-- Asked for the last line of two, nothing is printed. -/
theorem printTail_one_line_short :
    ¬ ∀ (data : Bytes) (n : Nat), Utf8.Valid data → (printTail data n).1 =
      lastLines (min n (LineFile.completeLines newline data).length) (LineFile.completeLines newline data) := by
  intro h
  exact absurd (h [97, 10, 98, 10] 1 (by decide)) (by decide)

end KeepAt
