import KeepAt.LineFile

namespace KeepAt

section Position

variable {β : Type*}

/-- The index of the last element that satisfies `p`. -/
def rposition (p : β → Bool) (s : List β) : Option Nat :=
  (s.reverse.findIdx? p).map (s.length - 1 - ·)

theorem rposition_eq_none {p : β → Bool} {s : List β} (h : ∀ x ∈ s, p x = false) : rposition p s = none := by
  have hnone : s.reverse.findIdx? p = none :=
    List.findIdx?_eq_none_iff.mpr (fun x hx => h x (List.mem_reverse.mp hx))
  rw [rposition, hnone, Option.map_none]

theorem rposition_append_cons {p : β → Bool} {b : β} {rest : List β} (front : List β) (hb : p b = true)
    (hrest : ∀ x ∈ rest, p x = false) : rposition p (front ++ b :: rest) = some front.length := by
  have hfind : (rest.reverse ++ ([b] ++ front.reverse)).findIdx? p = some rest.length := by
    have hnone : rest.reverse.findIdx? p = none :=
      List.findIdx?_eq_none_iff.mpr (fun x hx => hrest x (List.mem_reverse.mp hx))
    rw [List.findIdx?_append, hnone]
    simp [List.findIdx?_cons, hb]
  have hrev : (front ++ b :: rest).reverse = rest.reverse ++ ([b] ++ front.reverse) := by simp
  rw [rposition, hrev, hfind, Option.map_some]
  simp only [List.length_append, List.length_cons, Option.some.injEq]
  omega

end Position

namespace LineFile

variable {β : Type*} {nl : β}

theorem atLineStart_line (text : List β) : AtLineStart nl (text ++ [nl]) := by
  simpa using atLineStart_append_line [] text

theorem AtLineStart.append {front more : List β} (hf : AtLineStart nl front) (hm : AtLineStart nl more) :
    AtLineStart nl (front ++ more) := by
  rcases hm.eq with rfl | ⟨lines, rfl⟩
  · rwa [List.append_nil]
  · exact atLineStart_append_line front lines

/-- Everything is complete lines and then a part without a separator. -/
theorem exists_complete_split (nl : β) (data : List β) :
    ∃ front rest, data = front ++ rest ∧ AtLineStart nl front ∧ nl ∉ rest := by
  by_cases h : nl ∈ data
  next =>
    obtain ⟨rest, front, hrev, hnot⟩ := List.eq_append_cons_of_mem (List.mem_reverse.mpr h)
    refine ⟨front.reverse ++ [nl], rest.reverse, ?_, atLineStart_line _, by simpa using hnot⟩
    simpa using congrArg List.reverse hrev
  next => exact ⟨[], data, rfl, atLineStart_nil, h⟩

/-- One separator, at the end. -/
def IsLine (nl : β) (line : List β) : Prop := ∃ body, line = body ++ [nl] ∧ nl ∉ body

theorem atLineStart_flatten {lines : List (List β)} (h : ∀ line ∈ lines, IsLine nl line) :
    AtLineStart nl lines.flatten := by
  induction lines with
  | nil => exact atLineStart_nil
  | cons line lines ih =>
    obtain ⟨⟨body, rfl, -⟩, hlines⟩ := List.forall_mem_cons.mp h
    exact (atLineStart_line body).append (ih hlines)

variable [DecidableEq β]

/-- The length of the part up to and with the last separator. -/
def completeLen (nl : β) (data : List β) : Nat := (rposition (· = nl) data).elim 0 (· + 1)

def completePart (nl : β) (data : List β) : List β := data.take (completeLen nl data)

theorem completeLen_split {front rest : List β} (hf : AtLineStart nl front) (hr : nl ∉ rest) :
    completeLen nl (front ++ rest) = front.length := by
  have hfalse : ∀ x ∈ rest, decide (x = nl) = false := fun x hx => by
    simpa using fun he : x = nl => hr (he ▸ hx)
  rcases hf.eq with rfl | ⟨lines, rfl⟩
  · rw [List.nil_append, completeLen, rposition_eq_none hfalse]
    rfl
  · rw [List.append_assoc, List.singleton_append, completeLen,
      rposition_append_cons lines (decide_eq_true rfl) hfalse]
    simp

theorem completePart_split {front rest : List β} (hf : AtLineStart nl front) (hr : nl ∉ rest) :
    completePart nl (front ++ rest) = front := by
  rw [completePart, completeLen_split hf hr, List.take_left]

theorem completeLen_le (data : List β) : completeLen nl data ≤ data.length := by
  obtain ⟨front, rest, rfl, hf, hr⟩ := exists_complete_split nl data
  rw [completeLen_split hf hr, List.length_append]
  omega

theorem completePart_length (data : List β) : (completePart nl data).length = completeLen nl data :=
  List.length_take_of_le (completeLen_le data)

theorem atLineStart_completePart (data : List β) : AtLineStart nl (completePart nl data) := by
  obtain ⟨front, rest, rfl, hf, hr⟩ := exists_complete_split nl data
  rwa [completePart_split hf hr]

/-- No separator stands after the complete part. -/
theorem not_mem_drop_completeLen (data : List β) : nl ∉ data.drop (completeLen nl data) := by
  obtain ⟨front, rest, rfl, hf, hr⟩ := exists_complete_split nl data
  rwa [completeLen_split hf hr, List.drop_left]

/-- What stands after the start of a line is looked at on its own. -/
theorem completePart_append {front : List β} (h : AtLineStart nl front) (more : List β) :
    completePart nl (front ++ more) = front ++ completePart nl more := by
  obtain ⟨lines, rest, rfl, hf, hr⟩ := exists_complete_split nl more
  rw [← List.append_assoc, completePart_split (h.append hf) hr, completePart_split hf hr]

theorem completePart_of_atLineStart {data : List β} (h : AtLineStart nl data) : completePart nl data = data := by
  have hsplit := completePart_split h (List.not_mem_nil (a := nl))
  rwa [List.append_nil] at hsplit

/-- The complete lines, each with its separator, and what follows the last one. -/
def splitLines (nl : β) : List β → List (List β) × List β
  | [] => ([], [])
  | b :: rest =>
    let (lines, tail) := splitLines nl rest
    if b = nl then ([b] :: lines, tail)
    else
      match lines with
      | [] => ([], b :: tail)
      | line :: lines => ((b :: line) :: lines, tail)

def completeLines (nl : β) (data : List β) : List (List β) := (splitLines nl data).1

theorem splitLines_of_not_mem {data : List β} (h : nl ∉ data) : splitLines nl data = ([], data) := by
  induction data with
  | nil => rfl
  | cons b rest ih =>
    have hb : b ≠ nl := (List.ne_of_not_mem_cons h).symm
    simp only [splitLines, ih (List.not_mem_of_not_mem_cons h), if_neg hb]

theorem splitLines_line {body : List β} (h : nl ∉ body) (rest : List β) :
    splitLines nl (body ++ nl :: rest) = ((body ++ [nl]) :: (splitLines nl rest).1, (splitLines nl rest).2) := by
  induction body with
  | nil => simp only [List.nil_append, splitLines, if_true]
  | cons b body ih =>
    have hb : b ≠ nl := (List.ne_of_not_mem_cons h).symm
    simp only [List.cons_append, splitLines, ih (List.not_mem_of_not_mem_cons h), if_neg hb]

theorem splitLines_flatten {lines : List (List β)} (h : ∀ line ∈ lines, IsLine nl line) {rest : List β}
    (hr : nl ∉ rest) : splitLines nl (lines.flatten ++ rest) = (lines, rest) := by
  induction lines with
  | nil => exact splitLines_of_not_mem hr
  | cons line lines ih =>
    obtain ⟨⟨body, rfl, hbody⟩, hlines⟩ := List.forall_mem_cons.mp h
    rw [List.flatten_cons, List.append_assoc, List.append_assoc, List.singleton_append,
      splitLines_line hbody, ih hlines]

theorem splitLines_spec (nl : β) (data : List β) :
    data = (splitLines nl data).1.flatten ++ (splitLines nl data).2 ∧
      (∀ line ∈ (splitLines nl data).1, IsLine nl line) ∧ nl ∉ (splitLines nl data).2 := by
  induction data with
  | nil => simp [splitLines]
  | cons b rest ih =>
    obtain ⟨hdata, hlines, htail⟩ := ih
    by_cases hb : b = nl
    next =>
      simp only [splitLines, if_pos hb, List.forall_mem_cons, List.flatten_cons]
      refine ⟨?_, ⟨⟨[], by rw [hb, List.nil_append], List.not_mem_nil⟩, hlines⟩, htail⟩
      rw [List.append_assoc, ← hdata]
      rfl
    next =>
      cases hs : (splitLines nl rest).1 with
      | nil =>
        rw [hs] at hdata
        simp only [splitLines, if_neg hb, hs, List.flatten_nil, List.nil_append]
        refine ⟨congrArg (b :: ·) hdata, by simp, List.not_mem_cons_of_ne_of_not_mem (Ne.symm hb) htail⟩
      | cons line lines =>
        rw [hs] at hdata hlines
        obtain ⟨⟨body, rfl, hbody⟩, hmore⟩ := List.forall_mem_cons.mp hlines
        simp only [splitLines, if_neg hb, hs, List.forall_mem_cons]
        refine ⟨congrArg (b :: ·) hdata, ⟨⟨b :: body, rfl, ?_⟩, hmore⟩, htail⟩
        exact List.not_mem_cons_of_ne_of_not_mem (Ne.symm hb) hbody

theorem isLine_of_mem_completeLines {data line : List β} (h : line ∈ completeLines nl data) : IsLine nl line :=
  (splitLines_spec nl data).2.1 line h

theorem flatten_completeLines (data : List β) : (completeLines nl data).flatten = completePart nl data := by
  obtain ⟨hdata, hlines, htail⟩ := splitLines_spec nl data
  have hsplit := completePart_split (atLineStart_flatten hlines) htail
  rw [← hdata] at hsplit
  exact hsplit.symm

/-- From the start of a line on, the lines of what follows are added. -/
theorem completeLines_append {front : List β} (h : AtLineStart nl front) (more : List β) :
    completeLines nl (front ++ more) = completeLines nl front ++ completeLines nl more := by
  obtain ⟨hmore, hlines, htail⟩ := splitLines_spec nl more
  have hall : ∀ line ∈ completeLines nl front ++ completeLines nl more, IsLine nl line := fun line hl =>
    (List.mem_append.mp hl).elim isLine_of_mem_completeLines isLine_of_mem_completeLines
  have hfront := (flatten_completeLines front).trans (completePart_of_atLineStart h)
  have hsplit := splitLines_flatten hall htail
  have hdata : (completeLines nl front ++ completeLines nl more).flatten ++ (splitLines nl more).2 =
      front ++ more := by
    rw [List.flatten_append, hfront, List.append_assoc, completeLines, ← hmore]
  rw [hdata] at hsplit
  rw [completeLines, hsplit]

end LineFile

end KeepAt
