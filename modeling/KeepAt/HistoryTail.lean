import KeepAt.HistoryRotation

namespace KeepAt

namespace HistoryWriter

/-- A successful write of this event's line begins at the start of a line of the file. -/
def startsLine (json : EventJson) (w : HistoryWriter) (ev : Event) (env : HistoryEnv) : Bool :=
  match json.toText ev with
  | none => false
  | some text =>
    let line := text ++ [newline]
    decide (LineFile.AtLineStart newline ((w.beforeWrite line env).appendedTo line env))

end HistoryWriter

/-- One record of a run with failures, next to the events whose line was written from the start of a
line on, by generation. -/
def recordKept (json : EventJson) (x : HistoryWriter × Generations) (r : Event × HistoryEnv) :
    HistoryWriter × Generations :=
  let out := x.1.record json r.1 r.2
  let generations := if x.1.recordRotates json r.1 r.2 then x.2.rotate else x.2
  (out.1, if out.2 && x.1.startsLine json r.1 r.2 then generations.push r.1 else generations)

variable {json : EventJson}

/-- What a record does to the content of the live file, `before` being what a rotation leaves of it. -/
theorem record_content (w : HistoryWriter) {ev : Event} {text : Bytes} (env : HistoryEnv)
    (ht : json.toText ev = some text) :
    let r := w.record json ev env
    let line := text ++ [newline]
    let before := w.beforeWrite line env
    r.1.previous = before.previous ∧
      ((r.2 = true ∧ r.1.live.getD [] = before.appendedTo line env ++ line) ∨
        (r.2 = false ∧ ∃ torn, r.1.live.getD [] = before.live.getD [] ++ torn)) := by
  intro r line before
  have hr : r = before.writeLine line env := by
    simp only [r, before, line, HistoryWriter.record, ht]
  obtain ⟨hprev, -, hwrite⟩ := HistoryWriter.writeLine_cases before line env
  rw [hr]
  exact ⟨hprev, hwrite⟩

/-- After a successful write the next one begins at the start of a line: only a write that failed after
it, or a crash, can leave a fragment in between. -/
theorem record_written_atLineStart (w : HistoryWriter) {ev : Event} {env : HistoryEnv}
    (h : (w.record json ev env).2 = true) :
    LineFile.AtLineStart newline ((w.record json ev env).1.live.getD []) := by
  cases ht : json.toText ev with
  | none =>
    simp only [HistoryWriter.record, ht] at h
    cases h
  | some text =>
    obtain ⟨-, ⟨-, hlive⟩ | ⟨hfalse, -⟩⟩ := record_content w env ht
    · rw [hlive]
      exact LineFile.atLineStart_append_line _ _
    · rw [h] at hfalse
      cases hfalse

/-- The kept events are read back from the previous generation and from the complete lines of the live
file, whatever fragment it ends in. -/
structure ReadsKept (json : EventJson) (x : HistoryWriter × Generations) : Prop where
  previous : x.2.previous.Sublist (LineFile.read newline json.fromSlice (x.1.previous.getD [])).1
  current : ∃ front torn, x.1.live.getD [] = front ++ torn ∧ LineFile.AtLineStart newline front ∧
    x.2.current.Sublist (LineFile.read newline json.fromSlice front).1

theorem read_sublist_append {kept : List Event} {front : Bytes} (hstart : LineFile.AtLineStart newline front)
    (h : kept.Sublist (LineFile.read newline json.fromSlice front).1) (torn : Bytes) :
    kept.Sublist (LineFile.read newline json.fromSlice (front ++ torn)).1 := by
  rw [LineFile.read_append hstart]
  exact h.trans (List.sublist_append_left _ _)

theorem ReadsKept.live {x : HistoryWriter × Generations} (h : ReadsKept json x) :
    x.2.current.Sublist (LineFile.read newline json.fromSlice (x.1.live.getD [])).1 := by
  obtain ⟨front, torn, hlive, hstart, hkept⟩ := h.current
  rw [hlive]
  exact read_sublist_append hstart hkept torn

/-- Before the write, a rotation has moved the kept events along with the file. -/
theorem beforeWrite_readsKept {x : HistoryWriter × Generations} (line : Bytes) (env : HistoryEnv)
    (h : ReadsKept json x) :
    ReadsKept json (x.1.beforeWrite line env, if x.1.rotates line env then x.2.rotate else x.2) := by
  obtain ⟨-, ⟨hrot, hlive, hprev⟩ | ⟨hrot, hlive, hprev⟩⟩ := HistoryWriter.beforeWrite_cases x.1 line env
  · rw [hrot]
    refine ⟨?_, [], [], ?_, LineFile.atLineStart_nil, List.Sublist.refl _⟩
    · dsimp only
      rw [hprev]
      exact h.live
    · rw [hlive]
      rfl
  · rw [hrot]
    obtain ⟨front, torn, hfront, hstart, hkept⟩ := h.current
    refine ⟨?_, front, torn, ?_, hstart, hkept⟩
    · dsimp only
      rw [hprev]
      exact h.previous
    · rw [hlive]
      exact hfront

theorem recordKept_reads {x : HistoryWriter × Generations} {r : Event × HistoryEnv}
    (encodes : ∀ text, json.toText r.1 = some text → LineFile.Encodes newline json.fromSlice text r.1)
    (h : ReadsKept json x) : ReadsKept json (recordKept json x r) := by
  obtain ⟨ev, env⟩ := r
  cases ht : json.toText ev with
  | none =>
    have hkept : recordKept json x (ev, env) = x := by
      simp only [recordKept, HistoryWriter.record, HistoryWriter.recordRotates, ht]
      rfl
    rw [hkept]
    exact h
  | some text =>
    obtain ⟨hprev, hcontent⟩ := record_content x.1 env ht
    have hbefore := beforeWrite_readsKept (text ++ [newline]) env h
    have hrot : x.1.recordRotates json ev env = x.1.rotates (text ++ [newline]) env := by
      simp only [HistoryWriter.recordRotates, ht]
    simp only [recordKept, hrot]
    generalize (if x.1.rotates (text ++ [newline]) env then x.2.rotate else x.2) = g at hbefore ⊢
    obtain ⟨hkprev, front, torn, hfront, hstart, hkept⟩ := hbefore
    dsimp only at hkprev hfront hkept
    have hprevious : g.previous.Sublist
        (LineFile.read newline json.fromSlice ((x.1.record json ev env).1.previous.getD [])).1 := by
      rw [hprev]
      exact hkprev
    rcases hcontent with ⟨hwritten, hlive⟩ | ⟨hfailed, torn', hlive⟩
    · have happended : (x.1.beforeWrite (text ++ [newline]) env).appendedTo (text ++ [newline]) env =
          front ++ (torn ++ (text ++ [newline]).take (env.first.failsAfter.getD 0)) := by
        rw [HistoryWriter.appendedTo, hfront, List.append_assoc]
      cases hs : x.1.startsLine json ev env with
      | true =>
        simp only [HistoryWriter.startsLine, ht, decide_eq_true_iff] at hs
        rw [hwritten]
        refine ⟨hprevious, _, [], by rw [hlive, List.append_nil], LineFile.atLineStart_append_line _ _, ?_⟩
        have hbefore := read_sublist_append hstart hkept
          (torn ++ (text ++ [newline]).take (env.first.failsAfter.getD 0))
        rw [LineFile.read_append hs, LineFile.read_line (encodes text ht)]
        rw [← happended] at hbefore
        exact hbefore.append (List.Sublist.refl [ev])
      | false =>
        rw [Bool.and_false]
        rw [happended, List.append_assoc] at hlive
        exact ⟨hprevious, front, _, hlive, hstart, hkept⟩
    · rw [hfailed]
      refine ⟨hprevious, front, torn ++ torn', ?_, hstart, hkept⟩
      rw [hlive, hfront, List.append_assoc]

theorem recordKept_run {x : HistoryWriter × Generations} {records : List (Event × HistoryEnv)}
    (encodes : ∀ r ∈ records, ∀ text, json.toText r.1 = some text →
      LineFile.Encodes newline json.fromSlice text r.1)
    (h : ReadsKept json x) : ReadsKept json (records.foldl (recordKept json) x) := by
  induction records generalizing x with
  | nil => exact h
  | cons r records ih =>
    exact ih (fun r' hr' => encodes r' (List.mem_cons_of_mem r hr'))
      (recordKept_reads (encodes r List.mem_cons_self) h)

theorem readsKept_start (json : EventJson) (w : HistoryWriter) : ReadsKept json (w, {}) :=
  ⟨List.nil_sublist _, [], w.live.getD [], rfl, LineFile.atLineStart_nil, List.nil_sublist _⟩

/-- Whatever the files hold at the start and whatever fails on the way, the events whose line was
written from the start of a line on are read back in order, unless two rotations have taken them away. -/
theorem history_keeps_whole_lines (w : HistoryWriter) (records : List (Event × HistoryEnv))
    (encodes : ∀ r ∈ records, ∀ text, json.toText r.1 = some text →
      LineFile.Encodes newline json.fromSlice text r.1) :
    let x := records.foldl (recordKept json) (w, {})
    (x.2.previous ++ x.2.current).Sublist (x.1.readEvents json).1 := by
  intro x
  have hreads : ReadsKept json x := recordKept_run encodes (readsKept_start json w)
  rw [HistoryWriter.readEvents_eq]
  exact hreads.previous.append hreads.live

/-- The first line is appended to a fragment, the second starts at the start of a line, and of the third a part is
written. -/
theorem history_keeps_whole_lines_one :
    let partly : HistoryEnv := ⟨true, true, true, ⟨true, some 5⟩, ⟨false, none⟩⟩
    let x := [(Reference.removal "a", succeeding), (Reference.removal "b", succeeding),
      (Reference.removal "c", partly)].foldl (recordKept Reference.eventJson) (.new 1000 (some [123]) none true, {})
    x.2.current = [Reference.removal "b"] ∧
      (x.2.previous ++ x.2.current).Sublist (x.1.readEvents Reference.eventJson).1 := by
  intro partly x
  refine ⟨by decide +kernel, history_keeps_whole_lines _ _ fun r hr text ht => ?_⟩
  have hev : r.1 ∈ Reference.removals.map Prod.fst := by
    simp only [List.mem_cons, List.not_mem_nil, or_false] at hr
    rcases hr with rfl | rfl | rfl <;> decide +kernel
  obtain ⟨text', ht', he⟩ := Reference.serialises r.1 hev
  obtain rfl := Option.some.inj (ht.symm.trans ht')
  exact he

namespace Reference

/-- A start on a live file that a crash has left with the fragment of one byte. -/
def tornWriter : HistoryWriter := .new 1000 (some [123]) none true

end Reference

/-- With all writes succeeding, the second rotation takes the first event away; and a line appended to
a fragment does not parse, so its event is not read either. -/
theorem history_loses_written_events :
    (recordAll Reference.eventJson 1 (Reference.removals.map Prod.fst)).1.readEvents Reference.eventJson =
        ([Reference.removal "b", Reference.removal "c"], 0) ∧
      (Reference.tornWriter.record Reference.eventJson (Reference.removal "a") succeeding).2 = true ∧
      (Reference.tornWriter.record Reference.eventJson (Reference.removal "a") succeeding).1.readEvents
        Reference.eventJson = ([], 1) :=
  ⟨by decide +kernel, by decide +kernel, by decide +kernel⟩

end KeepAt
