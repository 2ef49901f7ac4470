import KeepAt.HistoryFile

namespace KeepAt

/-- Events by the generation of the file they went to: those before the last two, since the last but
one rotation, and since the last one. -/
structure Generations where
  older : List Event := []
  previous : List Event := []
  current : List Event := []

namespace Generations

def rotate (g : Generations) : Generations := ⟨g.older ++ g.previous, g.current, []⟩

def push (g : Generations) (ev : Event) : Generations := { g with current := g.current ++ [ev] }

def all (g : Generations) : List Event := g.older ++ (g.previous ++ g.current)

@[simp] theorem rotate_all (g : Generations) : g.rotate.all = g.all := by
  simp [rotate, all]

@[simp] theorem push_all (g : Generations) (ev : Event) : (g.push ev).all = g.all ++ [ev] := by
  simp [push, all]

end Generations

namespace HistoryWriter

/-- Recording this event renames the live file first. -/
def recordRotates (json : EventJson) (w : HistoryWriter) (ev : Event) (env : HistoryEnv) : Bool :=
  match json.toText ev with
  | none => false
  | some text => w.rotates (text ++ [newline]) env

end HistoryWriter

def succeeding : HistoryEnv := ⟨true, true, true, ⟨true, none⟩, ⟨true, none⟩⟩

/-- One record of a run without failures, next to the events by generation. -/
def recordNext (json : EventJson) (x : HistoryWriter × Generations) (ev : Event) :
    HistoryWriter × Generations :=
  let rotated := x.1.recordRotates json ev succeeding
  ((x.1.record json ev succeeding).1, (if rotated then x.2.rotate else x.2).push ev)

def recordAll (json : EventJson) (cap : Nat) (events : List Event) : HistoryWriter × Generations :=
  events.foldl (recordNext json) (.new cap none none true, {})

/-- The event is serialised to a line that reads back as it. -/
def Serialises (json : EventJson) (ev : Event) : Prop :=
  ∃ text, json.toText ev = some text ∧ LineFile.Encodes newline json.fromSlice text ev

def encodeEvent (json : EventJson) (ev : Event) : Bytes := (json.toText ev).getD []

variable {json : EventJson} {cap : Nat}

theorem Serialises.encodes {ev : Event} (h : Serialises json ev) :
    json.toText ev = some (encodeEvent json ev) ∧
      LineFile.Encodes newline json.fromSlice (encodeEvent json ev) ev := by
  obtain ⟨text, ht, he⟩ := h
  have heq : encodeEvent json ev = text := by rw [encodeEvent, ht, Option.getD_some]
  rw [heq]
  exact ⟨ht, he⟩

theorem writeLine_succeeding (w : HistoryWriter) (line : Bytes) :
    (w.writeLine line succeeding).2 = true := by
  obtain ⟨c, isOpen, live, previous⟩ := w
  cases isOpen <;> rfl

theorem record_succeeding (w : HistoryWriter) {ev : Event} (h : Serialises json ev) :
    let r := w.record json ev succeeding
    let line := encodeEvent json ev ++ [newline]
    r.2 = true ∧ r.1.cap = w.cap ∧
      ((w.recordRotates json ev succeeding = true ∧ r.1.live.getD [] = line ∧ r.1.previous = w.live) ∨
        (w.recordRotates json ev succeeding = false ∧ r.1.live.getD [] = w.live.getD [] ++ line ∧
          r.1.previous = w.previous)) := by
  intro r line
  obtain ⟨ht, -⟩ := h.encodes
  have hr : r = (w.beforeWrite line succeeding).writeLine line succeeding := by
    simp only [r, HistoryWriter.record, ht, line]
  have hrot : w.recordRotates json ev succeeding = w.rotates line succeeding := by
    simp only [HistoryWriter.recordRotates, ht, line]
  have hwritten : r.2 = true := hr ▸ writeLine_succeeding _ line
  obtain ⟨hcap, hbefore⟩ := HistoryWriter.beforeWrite_cases w line succeeding
  obtain ⟨hprev, hcap', hwrite⟩ :=
    HistoryWriter.writeLine_cases (w.beforeWrite line succeeding) line succeeding
  rw [← hr] at hprev hcap' hwrite
  have hlive : r.1.live.getD [] = (w.beforeWrite line succeeding).live.getD [] ++ line := by
    rcases hwrite with ⟨-, hlive⟩ | ⟨hfalse, -⟩
    · simpa [HistoryWriter.appendedTo, succeeding] using hlive
    · rw [hwritten] at hfalse
      cases hfalse
  refine ⟨hwritten, hcap'.trans hcap, ?_⟩
  rw [hrot, hlive, hprev]
  rcases hbefore with ⟨h1, h2, h3⟩ | ⟨h1, h2, h3⟩
  · exact Or.inl ⟨h1, by rw [h2, List.nil_append], h3⟩
  · exact Or.inr ⟨h1, by rw [h2], h3⟩

/-- The files hold the last two generations, line by line. -/
structure KeepsGenerations (json : EventJson) (x : HistoryWriter × Generations) : Prop where
  live : x.1.live.getD [] = LineFile.write newline (encodeEvent json) x.2.current
  previous : x.1.previous.getD [] = LineFile.write newline (encodeEvent json) x.2.previous

theorem recordNext_keeps {x : HistoryWriter × Generations} {ev : Event} (h : Serialises json ev)
    (keeps : KeepsGenerations json x) : KeepsGenerations json (recordNext json x ev) := by
  obtain ⟨-, -, hrecord⟩ := record_succeeding x.1 h
  unfold recordNext
  rcases hrecord with ⟨hrot, hlive, hprev⟩ | ⟨hrot, hlive, hprev⟩
  · rw [hrot]
    refine ⟨?_, ?_⟩
    · rw [hlive]
      exact (LineFile.write_singleton _ ev).symm
    · rw [hprev]
      exact keeps.live
  · rw [hrot]
    refine ⟨?_, ?_⟩
    · rw [hlive, keeps.live, ← LineFile.write_singleton, ← LineFile.write_append]
      rfl
    · rw [hprev]
      exact keeps.previous

theorem recordNext_all (x : HistoryWriter × Generations) (ev : Event) :
    (recordNext json x ev).2.all = x.2.all ++ [ev] := by
  unfold recordNext
  dsimp only
  split <;> simp

theorem fileLen_append_le {data line : Bytes}
    (h : saturatingAdd (HistoryWriter.fileLen data) line.length ≤ cap) :
    HistoryWriter.fileLen (data ++ line) ≤ cap := by
  unfold saturatingAdd HistoryWriter.fileLen at h
  unfold HistoryWriter.fileLen
  rw [List.length_append]
  omega

theorem recordNext_fileLen {x : HistoryWriter × Generations} {ev : Event} (h : Serialises json ev)
    (fits : (encodeEvent json ev).length + 1 ≤ x.1.cap) :
    HistoryWriter.fileLen ((recordNext json x ev).1.live.getD []) ≤ x.1.cap := by
  obtain ⟨-, -, hrecord⟩ := record_succeeding x.1 h
  have hline : (encodeEvent json ev ++ [newline]).length ≤ x.1.cap := by simpa using fits
  rcases hrecord with ⟨-, hlive, -⟩ | ⟨hrot, hlive, -⟩
  · rw [recordNext, hlive]
    exact (min_le_left _ _).trans hline
  · rw [recordNext, hlive]
    simp only [HistoryWriter.recordRotates, h.encodes.1, HistoryWriter.rotates, succeeding,
      Bool.true_and, Bool.and_true] at hrot
    cases hl : x.1.live with
    | none => exact (min_le_left _ _).trans hline
    | some data =>
      simp only [HistoryWriter.crosses, hl, gt_iff_lt, decide_eq_false_iff_not, not_lt] at hrot
      exact fileLen_append_le hrot

theorem recordAll_concat (events : List Event) (ev : Event) :
    recordAll json cap (events ++ [ev]) = recordNext json (recordAll json cap events) ev :=
  List.foldl_concat _ _ _ _

theorem recordAll_keeps (cap : Nat) {events : List Event} (serialises : ∀ ev ∈ events, Serialises json ev) :
    KeepsGenerations json (recordAll json cap events) ∧ (recordAll json cap events).2.all = events ∧
      (recordAll json cap events).1.cap = cap := by
  induction events using List.reverseRecOn with
  | nil => exact ⟨⟨rfl, rfl⟩, rfl, rfl⟩
  | append_singleton events ev ih =>
    obtain ⟨hkeeps, hall, hcap⟩ := ih fun x hx => serialises x (List.mem_append_left _ hx)
    have hev := serialises ev (List.mem_append_right _ (List.mem_singleton_self ev))
    obtain ⟨-, hcap', -⟩ := record_succeeding (recordAll json cap events).1 hev
    rw [recordAll_concat]
    exact ⟨recordNext_keeps hev hkeeps, by rw [recordNext_all, hall], hcap'.trans hcap⟩

theorem recordAll_fileLen {events : List Event} (serialises : ∀ ev ∈ events, Serialises json ev)
    (fits : ∀ ev ∈ events, (encodeEvent json ev).length + 1 ≤ cap) :
    HistoryWriter.fileLen ((recordAll json cap events).1.live.getD []) ≤ cap := by
  cases events using List.reverseRecOn with
  | nil => exact Nat.zero_le _
  | append_singleton events ev =>
    obtain ⟨-, -, hcap⟩ := recordAll_keeps cap fun x hx => serialises x (List.mem_append_left _ hx)
    have hmem : ev ∈ events ++ [ev] := List.mem_append_right _ (List.mem_singleton_self ev)
    have hlen := recordNext_fileLen (serialises ev hmem) (hcap.symm ▸ fits ev hmem)
    rw [recordAll_concat]
    rwa [hcap] at hlen

/-- In a run from no files in which every operation succeeds, the history reads back as the events
recorded since the last but one rotation, in order and with nothing skipped. -/
theorem history_keeps_recent_suffix (cap : Nat) (events : List Event)
    (serialises : ∀ ev ∈ events, Serialises json ev) :
    let r := recordAll json cap events
    r.2.older ++ (r.2.previous ++ r.2.current) = events ∧
      r.1.readEvents json = (r.2.previous ++ r.2.current, 0) ∧
      ((∀ ev ∈ events, (encodeEvent json ev).length + 1 ≤ cap) →
        HistoryWriter.fileLen (r.1.live.getD []) ≤ cap) := by
  intro r
  obtain ⟨hkeeps, hall, -⟩ := recordAll_keeps cap serialises
  have hencodes : ∀ ev ∈ events, LineFile.Encodes newline json.fromSlice (encodeEvent json ev) ev :=
    fun ev hev => (serialises ev hev).encodes.2
  have hprevious : ∀ ev ∈ r.2.previous, ev ∈ events := fun ev hev => by
    rw [← hall]
    exact List.mem_append_right _ (List.mem_append_left _ hev)
  have hcurrent : ∀ ev ∈ r.2.current, ev ∈ events := fun ev hev => by
    rw [← hall]
    exact List.mem_append_right _ (List.mem_append_right _ hev)
  refine ⟨hall, ?_, recordAll_fileLen serialises⟩
  rw [HistoryWriter.readEvents_eq, hkeeps.live, hkeeps.previous,
    LineFile.read_write fun ev hev => hencodes ev (hprevious ev hev),
    LineFile.read_write fun ev hev => hencodes ev (hcurrent ev hev)]
  rfl

namespace Reference

def removal (title : String) : Event :=
  .remove 0 "aa" title 1 0 ["/", "mnt"] .stalled "idle"

/-- The line of `removal`: an object of `event`, `ts`, `hash`, `title`, `size_bytes`, `seeders`,
`location`, `cause` and `reason`. -/
def removalText (title : UInt8) : Bytes :=
  [123, 34, 101, 118, 101, 110, 116, 34, 58, 34, 114, 101, 109, 111, 118, 101, 34, 44, 34, 116, 115,
   34, 58, 34, 49, 57, 55, 48, 45, 48, 49, 45, 48, 49, 84, 48, 48, 58, 48, 48, 58, 48, 48, 46, 48,
   48, 48, 90, 34, 44, 34, 104, 97, 115, 104, 34, 58, 34, 97, 97, 34, 44, 34, 116, 105, 116, 108,
   101, 34, 58, 34] ++
    title ::
  [34, 44, 34, 115, 105, 122, 101, 95, 98, 121, 116, 101, 115, 34, 58, 49, 44, 34, 115, 101, 101,
   100, 101, 114, 115, 34, 58, 48, 44, 34, 108, 111, 99, 97, 116, 105, 111, 110, 34, 58, 34, 47,
   109, 110, 116, 34, 44, 34, 99, 97, 117, 115, 101, 34, 58, 34, 115, 116, 97, 108, 108, 101, 100,
   34, 44, 34, 114, 101, 97, 115, 111, 110, 34, 58, 34, 105, 100, 108, 101, 34, 125]

def removals : List (Event × Bytes) :=
  [(removal "a", removalText 97), (removal "b", removalText 98), (removal "c", removalText 99)]

/-- The serialiser on the three removals in use here. -/
def eventJson : EventJson where
  toText ev := (removals.find? fun r => r.1 = ev).map Prod.snd
  fromSlice line := (removals.find? fun r => r.2 = line).map Prod.fst

theorem serialises : ∀ ev ∈ removals.map Prod.fst, Serialises eventJson ev := by
  have hmem : ∀ r ∈ removals, eventJson.toText r.1 = some r.2 ∧ newline ∉ r.2 ∧ r.2 ≠ [] ∧
      eventJson.fromSlice r.2 = some r.1 := by decide +kernel
  intro ev hev
  obtain ⟨r, hr, rfl⟩ := List.mem_map.mp hev
  obtain ⟨htext, hsingle, hne, hparse⟩ := hmem r hr
  exact ⟨r.2, htext, hsingle, hne, hparse⟩

end Reference

/-- With a cap of one byte every record rotates, and the last two events are read. -/
theorem history_keeps_recent_suffix_tiny_cap :
    let r := recordAll Reference.eventJson 1 (Reference.removals.map Prod.fst)
    r.2.older = [Reference.removal "a"] ∧
      r.1.readEvents Reference.eventJson = (r.2.previous ++ r.2.current, 0) :=
  ⟨by decide +kernel, (history_keeps_recent_suffix 1 _ Reference.serialises).2.1⟩

end KeepAt
