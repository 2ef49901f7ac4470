import KeepAt.CompleteLines
import KeepAt.HistoryRotation

namespace KeepAt

structure HistoryArgs where
  all : Bool
  noFollow : Bool
  lines : Nat

/-- What the command has shown before it follows the file: the events, in order, the number of lines it
reports as unparseable, and the offset from which it follows, if it does. -/
structure HistoryShown where
  events : List Event
  skipped : Nat
  followFrom : Option Nat

/-- Without a history the command stops with an error. -/
def cmdHistory (json : EventJson) (args : HistoryArgs) (w : HistoryWriter) : Option HistoryShown :=
  match w.live with
  | none => none
  | some data =>
    let completeLen := LineFile.completeLen newline data
    let (events, skipped) := LineFile.read newline json.fromSlice (data.take completeLen)
    if args.all then some ⟨events, skipped, none⟩
    else
      some ⟨(events.reverse.take args.lines).reverse, skipped,
        if args.noFollow then none else some completeLen⟩

/-- No line of the file is an event. -/
def NoEventLine (json : EventJson) (file : Option Bytes) : Prop :=
  ∀ data, file = some data → ∀ line ∈ data.splitOn newline, line ≠ [] → json.fromSlice line = none

theorem collect_eq_nil_iff {parse : Bytes → Option Event} (lines : List Bytes) :
    (LineFile.collect parse lines).1 = [] ↔ ∀ line ∈ lines, line ≠ [] → parse line = none := by
  induction lines with
  | nil => simp [LineFile.collect]
  | cons line rest ih =>
    simp only [LineFile.collect, List.forall_mem_cons]
    by_cases hl : line = []
    next => simp [hl, ih]
    next =>
      cases hp : parse line with
      | none => simp [hl, ih]
      | some ev => simp [hl]

theorem noEventLine_iff (json : EventJson) (file : Option Bytes) :
    NoEventLine json file ↔ (LineFile.read newline json.fromSlice (file.getD [])).1 = [] := by
  cases file with
  | none => simp [NoEventLine]
  | some data =>
    simp only [NoEventLine, Option.some.injEq, forall_eq', Option.getD_some]
    exact (collect_eq_nil_iff _).symm

theorem cmdHistory_all {json : EventJson} {args : HistoryArgs} (hall : args.all = true) {w : HistoryWriter}
    {live : Bytes} (hlive : w.live = some live) (hend : LineFile.AtLineStart newline live) :
    (cmdHistory json args w).map HistoryShown.events =
      some (LineFile.read newline json.fromSlice live).1 := by
  have hpart : live.take (LineFile.completeLen newline live) = live := LineFile.completePart_of_atLineStart hend
  simp only [cmdHistory, hlive, hall, if_true, hpart, Option.map_some]

/-- The command for the whole history shows what both generations hold exactly when the previous one
holds no event. -/
theorem cmdHistory_all_eq_readEvents_iff (json : EventJson) {args : HistoryArgs} (hall : args.all = true)
    {w : HistoryWriter} {live : Bytes} (hlive : w.live = some live)
    (hend : LineFile.AtLineStart newline live) :
    (cmdHistory json args w).map HistoryShown.events = some (w.readEvents json).1 ↔ NoEventLine json w.previous := by
  rw [cmdHistory_all hall hlive hend, noEventLine_iff, HistoryWriter.readEvents_eq]
  simp only [Option.some.injEq, hlive, Option.getD_some]
  constructor
  · exact fun h => List.append_left_eq_self.mp h.symm
  · exact fun h => by rw [h, List.nil_append]

/-- The previous generation holds a fragment and a line that is no event. -/
theorem cmdHistory_all_eq_readEvents_single :
    (cmdHistory Reference.eventJson ⟨true, false, 20⟩
        ⟨1, true, some (Reference.removalText 98 ++ [newline]), some [123, newline, 91, newline]⟩).map
          HistoryShown.events =
      some (HistoryWriter.readEvents Reference.eventJson
        ⟨1, true, some (Reference.removalText 98 ++ [newline]), some [123, newline, 91, newline]⟩).1 := by
  have hend : LineFile.AtLineStart newline (Reference.removalText 98 ++ [newline]) :=
    LineFile.atLineStart_line _
  have hnone : NoEventLine Reference.eventJson (some [123, newline, 91, newline]) :=
    (noEventLine_iff _ _).mpr (by decide +kernel)
  exact (cmdHistory_all_eq_readEvents_iff Reference.eventJson rfl rfl hend).mpr hnone

/-- After two removals under a cap of one byte, the first is in the previous generation and the command
leaves it out. -/
theorem cmdHistory_all_misses_previous :
    ¬ ∀ (json : EventJson) (args : HistoryArgs) (w : HistoryWriter) (live : Bytes), args.all = true →
      w.live = some live → live ≠ [] → LineFile.AtLineStart newline live →
      (cmdHistory json args w).map HistoryShown.events = some (w.readEvents json).1 := by
  intro h
  have hrun := h Reference.eventJson ⟨true, false, 20⟩
    (recordAll Reference.eventJson 1 [Reference.removal "a", Reference.removal "b"]).1
    (Reference.removalText 98 ++ [newline]) rfl (by decide +kernel) (by decide) (by decide)
  exact absurd hrun (by decide +kernel)

end KeepAt
