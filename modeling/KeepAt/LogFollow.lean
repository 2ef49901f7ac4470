import KeepAt.LogTail

namespace KeepAt

/-- What a poll finds at the path: the file's device and inode, its content, and whether it opens. -/
structure LogView where
  id : Nat × Nat
  content : Bytes
  openOk : Bool

structure FollowState where
  pos : Nat
  lastId : Option (Nat × Nat)
  out : Bytes
  deriving DecidableEq

def truncatedNotice : Bytes :=
  "--- log truncated; following from the top ---\n".toList.map fun c => UInt8.ofNat c.toNat

/-- The file shrank below the position, or another file is there. -/
def FollowState.restarts (s : FollowState) (v : LogView) : Bool :=
  decide (v.content.length < s.pos) || s.lastId.any (· ≠ v.id)

/-- One poll. A read that is not UTF-8 yields nothing; a file that does not open ends the command. -/
def poll (s : FollowState) : Option LogView → Option FollowState
  | none => some s
  | some v =>
    let s := if s.restarts v then { s with pos := 0, out := s.out ++ truncatedNotice } else s
    let s := { s with lastId := some v.id }
    if s.pos < v.content.length then
      if v.openOk then
        let rest := v.content.drop s.pos
        let buf := if Utf8.Valid rest then rest else []
        let emit := LineFile.completePart newline buf
        some { s with pos := s.pos + emit.length, out := s.out ++ emit }
      else none
    else some s

def followStart (data : Bytes) (lines : Nat) : FollowState :=
  ⟨(printTail data lines).2, none, (printTail data lines).1⟩

/-- What the polls find when the file only grows, by these parts. -/
def growingViews (id : Nat × Nat) (content : Bytes) : List Bytes → List (Option LogView)
  | [] => []
  | a :: rest => some ⟨id, content ++ a, true⟩ :: growingViews id (content ++ a) rest

/-- The state of the follower after a poll for each of the appends. -/
def followAppends (id : Nat × Nat) (initial : Bytes) (lines : Nat) (appends : List Bytes) : Option FollowState :=
  (growingViews id initial appends).foldlM poll (followStart initial lines)

/-- The lines that are complete in the content and were not in the initial one. -/
def linesSince (initial content : Bytes) : Bytes :=
  ((LineFile.completeLines newline content).drop (LineFile.completeLines newline initial).length).flatten

/-- The position is past the last line of the initial content, and after every poll exactly the lines
completed since then have been printed, in order. -/
structure FollowsLines (id : Nat × Nat) (initial : Bytes) (lines : Nat) (appends : List Bytes) : Prop where
  offset : (printTail initial lines).2 = LineFile.completeLen newline initial
  emitted : ∀ done, done <+: appends → ∃ s, followAppends id initial lines done = some s ∧
    s.out = (printTail initial lines).1 ++ linesSince initial (initial ++ done.flatten)

/-- What stands after the last line of the content once more is appended. -/
def fresh (content appended : Bytes) : Bytes := (content ++ appended).drop (LineFile.completeLen newline content)

/-- No line was completed by the append, or all that stands after the last line before it is UTF-8. -/
def ReadsWell (content appended : Bytes) : Prop :=
  newline ∉ fresh content appended ∨ Utf8.Valid (fresh content appended)

theorem newline_ascii : newline ≤ 0x7F := by decide

theorem lossy_complete (data : Bytes) :
    LineFile.completePart newline (Utf8.lossy data) = Utf8.lossy (LineFile.completePart newline data) := by
  obtain ⟨front, rest, rfl, hf, hr⟩ := LineFile.exists_complete_split newline data
  have hrest : newline ∉ Utf8.lossy rest := Utf8.not_mem_lossy newline_ascii hr
  rw [LineFile.completePart_split hf hr]
  rcases hf.eq with rfl | ⟨lines, rfl⟩
  · exact LineFile.completePart_split LineFile.atLineStart_nil hrest
  · have hlines : Utf8.lossy (lines ++ [newline]) = Utf8.lossy lines ++ [newline] :=
      Utf8.lossy_append_ascii newline_ascii lines []
    have hall : Utf8.lossy (lines ++ [newline] ++ rest) = Utf8.lossy (lines ++ [newline]) ++ Utf8.lossy rest := by
      rw [hlines, List.append_assoc, List.append_assoc, List.singleton_append, List.singleton_append,
        Utf8.lossy_append_ascii newline_ascii]
    rw [hall]
    refine LineFile.completePart_split ?_ hrest
    rw [hlines]
    exact LineFile.atLineStart_line _

/-- The position is past the last line exactly when replacement keeps the length of the lines. -/
theorem printTail_offset_iff (data : Bytes) (lines : Nat) :
    (printTail data lines).2 = LineFile.completeLen newline data ↔
      Utf8.KeepsLength (LineFile.completePart newline data) := by
  have hpos : (printTail data lines).2 = (Utf8.lossy (LineFile.completePart newline data)).length := by
    rw [← lossy_complete, LineFile.completePart_length]
    rfl
  rw [hpos, ← Utf8.lossy_length_eq_iff, LineFile.completePart_length]

theorem fresh_eq (content appended : Bytes) :
    content ++ appended = LineFile.completePart newline content ++ fresh content appended := by
  have hle : LineFile.completeLen newline content ≤ content.length := LineFile.completeLen_le content
  conv_lhs => rw [← List.take_append_drop (LineFile.completeLen newline content) (content ++ appended)]
  rw [List.take_append_of_le_length hle]
  rfl

theorem completeLen_append_fresh (content appended : Bytes) :
    LineFile.completeLen newline (content ++ appended) =
      LineFile.completeLen newline content + (LineFile.completePart newline (fresh content appended)).length := by
  rw [← LineFile.completePart_length, fresh_eq,
    LineFile.completePart_append (LineFile.atLineStart_completePart content), List.length_append,
    LineFile.completePart_length]

theorem linesSince_self (initial : Bytes) : linesSince initial initial = [] := by simp [linesSince]

theorem completeLines_append_fresh (content appended : Bytes) :
    LineFile.completeLines newline (content ++ appended) =
      LineFile.completeLines newline content ++ LineFile.completeLines newline (fresh content appended) := by
  have hsplit := fresh_eq content []
  have hnone : LineFile.completeLines newline (fresh content []) = [] := by
    refine congrArg Prod.fst (LineFile.splitLines_of_not_mem ?_)
    rw [fresh, List.append_nil]
    exact LineFile.not_mem_drop_completeLen content
  have hcontent : LineFile.completeLines newline content =
      LineFile.completeLines newline (LineFile.completePart newline content) := by
    conv_lhs => rw [← List.append_nil content, hsplit]
    rw [LineFile.completeLines_append (LineFile.atLineStart_completePart content), hnone, List.append_nil]
  rw [fresh_eq content appended, LineFile.completeLines_append (LineFile.atLineStart_completePart content),
    hcontent]

theorem completeLines_length_le (initial more : Bytes) :
    (LineFile.completeLines newline initial).length ≤
      (LineFile.completeLines newline (initial ++ more)).length := by
  rw [completeLines_append_fresh, List.length_append]
  exact Nat.le_add_right _ _

/-- An append completes the lines of what stands after the last line. -/
theorem linesSince_append (initial more appended : Bytes) :
    linesSince initial (initial ++ more ++ appended) = linesSince initial (initial ++ more) ++
      LineFile.completePart newline (fresh (initial ++ more) appended) := by
  have hle := completeLines_length_le initial more
  rw [linesSince, completeLines_append_fresh, List.drop_append_of_le_length hle, List.flatten_append,
    LineFile.flatten_completeLines]
  rfl

/-- The follower has read up to the last line of the content and printed what it should. -/
structure Caught (id : Nat × Nat) (initial content out : Bytes) (s : FollowState) : Prop where
  pos : s.pos = LineFile.completeLen newline content
  sameFile : s.lastId = none ∨ s.lastId = some id
  out : s.out = out ++ linesSince initial content

theorem readsWell_iff (content appended : Bytes) :
    ReadsWell content appended ↔
      LineFile.completePart newline (if Utf8.Valid (fresh content appended) then fresh content appended else []) =
        LineFile.completePart newline (fresh content appended) := by
  unfold ReadsWell
  split
  next hv => simp [hv]
  next hv =>
    rw [or_iff_left hv, LineFile.completePart_of_atLineStart LineFile.atLineStart_nil]
    constructor
    · exact fun h => (LineFile.completePart_split LineFile.atLineStart_nil h).symm
    · intro h hmem
      have hsplit : newline ∉ (fresh content appended).drop (LineFile.completeLen newline (fresh content appended)) :=
        LineFile.not_mem_drop_completeLen _
      have hdata := List.take_append_drop (LineFile.completeLen newline (fresh content appended))
        (fresh content appended)
      rw [← LineFile.completePart, ← h, List.nil_append] at hdata
      rw [hdata] at hsplit
      exact hsplit hmem

theorem poll_eq {id : Nat × Nat} {content out appended : Bytes} {initial : Bytes} {s : FollowState}
    (h : Caught id initial content out s) :
    let emit := LineFile.completePart newline
      (if Utf8.Valid (fresh content appended) then fresh content appended else [])
    poll s (some ⟨id, content ++ appended, true⟩) = some ⟨s.pos + emit.length, some id, s.out ++ emit⟩ := by
  intro emit
  have hle : s.pos ≤ (content ++ appended).length := by
    rw [h.pos, List.length_append]
    exact (LineFile.completeLen_le content).trans (Nat.le_add_right _ _)
  have hstays : s.restarts ⟨id, content ++ appended, true⟩ = false := by
    have hshrunk : decide ((content ++ appended).length < s.pos) = false := decide_eq_false (Nat.not_lt.mpr hle)
    rcases h.sameFile with hid | hid <;> simp only [FollowState.restarts, hshrunk, hid] <;> simp
  have hrest : (content ++ appended).drop s.pos = fresh content appended := by rw [h.pos, fresh]
  simp only [poll, hstays, Bool.false_eq_true, if_false]
  by_cases hmore : s.pos < (content ++ appended).length
  next => simp only [if_pos hmore, if_true, hrest, emit]
  next =>
    have hnil : fresh content appended = [] := by
      rw [← hrest]
      exact List.drop_eq_nil_of_le (Nat.not_lt.mp hmore)
    have hemit : emit = [] := by
      simp only [emit, hnil, ite_self]
      exact LineFile.completePart_of_atLineStart LineFile.atLineStart_nil
    rw [if_neg hmore, hemit, List.append_nil, List.length_nil, Nat.add_zero]

/-- One poll after an append prints the lines it completed, exactly when what stands there reads well. -/
theorem poll_append {id : Nat × Nat} {initial more out : Bytes} {s : FollowState}
    (h : Caught id initial (initial ++ more) out s) (appended : Bytes) :
    ∃ s', poll s (some ⟨id, initial ++ more ++ appended, true⟩) = some s' ∧
      (s'.out = out ++ linesSince initial (initial ++ more ++ appended) ↔ ReadsWell (initial ++ more) appended) ∧
      (ReadsWell (initial ++ more) appended → Caught id initial (initial ++ more ++ appended) out s') := by
  refine ⟨_, poll_eq h, ?_, fun hread => ?_⟩
  next =>
    rw [linesSince_append, readsWell_iff]
    dsimp only
    rw [h.out, List.append_assoc, List.append_cancel_left_eq, List.append_cancel_left_eq]
  next =>
    rw [readsWell_iff] at hread
    refine ⟨?_, Or.inr rfl, ?_⟩
    · rw [completeLen_append_fresh, ← hread, ← h.pos]
    · rw [linesSince_append, ← hread, ← List.append_assoc, ← h.out]

theorem growingViews_append (id : Nat × Nat) (content : Bytes) (done : List Bytes) (a : Bytes) :
    growingViews id content (done ++ [a]) =
      growingViews id content done ++ [some ⟨id, content ++ done.flatten ++ a, true⟩] := by
  induction done generalizing content with
  | nil => simp [growingViews]
  | cons b done ih => simp [growingViews, ih, List.append_assoc]

theorem followAppends_append (id : Nat × Nat) (initial : Bytes) (lines : Nat) (done : List Bytes) (a : Bytes) :
    followAppends id initial lines (done ++ [a]) =
      (followAppends id initial lines done).bind
        (fun s => poll s (some ⟨id, initial ++ done.flatten ++ a, true⟩)) := by
  rw [followAppends, growingViews_append, List.foldlM_append]
  simp only [List.foldlM_cons, List.foldlM_nil, bind_pure]
  rfl

theorem followStart_caught {initial : Bytes} {lines : Nat} (id : Nat × Nat)
    (h : (printTail initial lines).2 = LineFile.completeLen newline initial) :
    Caught id initial initial (printTail initial lines).1 (followStart initial lines) :=
  ⟨h, Or.inl rfl, by rw [linesSince_self, List.append_nil]; rfl⟩

/-- While every append reads well, the follower catches up at every poll. -/
theorem followAppends_caught (id : Nat × Nat) {initial : Bytes} {lines : Nat} {appends : List Bytes}
    (hoffset : (printTail initial lines).2 = LineFile.completeLen newline initial)
    (hreads : ∀ done a, done ++ [a] <+: appends → ReadsWell (initial ++ done.flatten) a) :
    ∃ s, followAppends id initial lines appends = some s ∧
      Caught id initial (initial ++ appends.flatten) (printTail initial lines).1 s := by
  induction appends using List.reverseRecOn with
  | nil =>
    refine ⟨followStart initial lines, rfl, ?_⟩
    rw [List.flatten_nil, List.append_nil]
    exact followStart_caught id hoffset
  | append_singleton done a ih =>
    obtain ⟨s, hs, hcaught⟩ := ih (fun d b h => hreads d b (h.trans (List.prefix_append done [a])))
    obtain ⟨s', hpoll, -, hnext⟩ := poll_append hcaught a
    refine ⟨s', ?_, ?_⟩
    · rw [followAppends_append, hs, Option.bind_some, hpoll]
    · rw [List.flatten_append, List.flatten_singleton, ← List.append_assoc]
      exact hnext (hreads done a (List.prefix_refl _))

theorem readsWell_of_followsLines {id : Nat × Nat} {initial : Bytes} {lines : Nat} {appends done : List Bytes}
    {a : Bytes} {s : FollowState} (h : FollowsLines id initial lines appends) (hdone : done ++ [a] <+: appends)
    (hs : followAppends id initial lines done = some s)
    (hcaught : Caught id initial (initial ++ done.flatten) (printTail initial lines).1 s) :
    ReadsWell (initial ++ done.flatten) a := by
  obtain ⟨s', hpoll, hout, -⟩ := poll_append hcaught a
  obtain ⟨t, ht, hemitted⟩ := h.emitted _ hdone
  rw [followAppends_append, hs, Option.bind_some, hpoll] at ht
  cases ht
  rw [List.flatten_append, List.flatten_singleton, ← List.append_assoc] at hemitted
  exact hout.mp hemitted

theorem caught_of_followsLines {id : Nat × Nat} {initial : Bytes} {lines : Nat} {appends done : List Bytes}
    (h : FollowsLines id initial lines appends) (hdone : done <+: appends) :
    ∃ s, followAppends id initial lines done = some s ∧
      Caught id initial (initial ++ done.flatten) (printTail initial lines).1 s := by
  refine followAppends_caught id h.offset ?_
  induction done using List.reverseRecOn with
  | nil =>
    intro d a hd
    exact absurd (List.prefix_nil.mp hd) (by simp)
  | append_singleton done b ih =>
    have hbefore := ih ((List.prefix_append done [b]).trans hdone)
    intro d a hd
    rcases List.prefix_concat_iff.mp hd with heq | hd
    · obtain ⟨rfl, hab⟩ := List.append_inj' heq rfl
      obtain rfl := List.singleton_inj.mp hab
      obtain ⟨s, hs, hcaught⟩ := followAppends_caught id h.offset hbefore
      exact readsWell_of_followsLines h hdone hs hcaught
    · exact hbefore d a hd

/-- Followed lines are neither lost nor repeated nor late exactly when the ill-formed bytes among the
initial lines are as long as their replacements and every append reads well. -/
theorem followsLines_iff (id : Nat × Nat) (initial : Bytes) (lines : Nat) (appends : List Bytes) :
    FollowsLines id initial lines appends ↔
      Utf8.KeepsLength (LineFile.completePart newline initial) ∧
        ∀ done a, done ++ [a] <+: appends → ReadsWell (initial ++ done.flatten) a := by
  constructor
  · intro h
    refine ⟨(printTail_offset_iff initial lines).mp h.offset, fun done a hdone => ?_⟩
    obtain ⟨s, hs, hcaught⟩ := caught_of_followsLines h ((List.prefix_append done [a]).trans hdone)
    exact readsWell_of_followsLines h hdone hs hcaught
  · rintro ⟨hkeeps, hreads⟩
    have hoffset := (printTail_offset_iff initial lines).mpr hkeeps
    refine ⟨hoffset, fun done hdone => ?_⟩
    obtain ⟨s, hs, hcaught⟩ := followAppends_caught id hoffset
      (fun d a h => hreads d a (h.trans hdone))
    exact ⟨s, hs, hcaught.out⟩

/-- After a line with one byte that is not UTF-8 the position is two bytes past the line; and a poll that
finds a line and half a character prints nothing. -/
theorem follow_loses_place :
    (¬ ∀ (id : Nat × Nat) (initial : Bytes) (lines : Nat) (appends : List Bytes),
      FollowsLines id initial lines appends) ∧
    ¬ FollowsLines (0, 0) [] 20 [[97, 10, 0xC3], [0xA9, 10]] := by
  refine ⟨fun h => ?_, fun h => ?_⟩
  next => exact absurd (h (0, 0) [0xFF, 10] 20 []).offset (by decide)
  next =>
    have hpoll : followAppends (0, 0) [] 20 [[97, 10, 0xC3]] = some ⟨0, some (0, 0), []⟩ := by decide
    obtain ⟨s, hs, hout⟩ := h.emitted [[97, 10, 0xC3]] (by decide)
    rw [hpoll] at hs
    cases hs
    exact absurd hout (by decide)

end KeepAt
