import KeepAt.Engine
import KeepAt.LineFile

namespace KeepAt

def newline : UInt8 := 10

/-- `serde_json` on events: the text of one, and the event of a text. -/
structure EventJson where
  toText : Event → Option Bytes
  fromSlice : Bytes → Option Event

/-- The live file, the previous generation, and whether the daemon has the live file open. Only the
daemon changes the two files. -/
structure HistoryWriter where
  cap : Nat
  isOpen : Bool
  live : Option Bytes
  previous : Option Bytes
  deriving DecidableEq

/-- One try at appending a line: it may not open the file, or fail after some bytes of the line. -/
structure WriteAttempt where
  openOk : Bool
  failsAfter : Option Nat

structure HistoryEnv where
  metadataOk : Bool
  renameOk : Bool
  reopenOk : Bool
  first : WriteAttempt
  second : WriteAttempt

namespace HistoryWriter

/-- Opening for append creates a missing file. -/
def openAppend (w : HistoryWriter) (ok : Bool) : HistoryWriter :=
  if ok then { w with isOpen := true, live := some (w.live.getD []) } else { w with isOpen := false }

/-- The writer a start builds over what the last run left. -/
def new (cap : Nat) (live previous : Option Bytes) (openOk : Bool) : HistoryWriter :=
  openAppend ⟨cap, false, live, previous⟩ openOk

/-- The length that the file system reports, a `u64`. -/
def fileLen (data : Bytes) : Nat := min data.length u64Max

def crosses (w : HistoryWriter) (line : Bytes) : Bool :=
  match w.live with
  | some data => decide (saturatingAdd (fileLen data) line.length > w.cap)
  | none => false

def rotate (w : HistoryWriter) (renameOk reopenOk : Bool) : HistoryWriter :=
  openAppend (if renameOk then { w with live := none, previous := w.live } else w) reopenOk

/-- Rotate on the write that would cross the cap. -/
def beforeWrite (w : HistoryWriter) (line : Bytes) (env : HistoryEnv) : HistoryWriter :=
  if env.metadataOk && w.crosses line then w.rotate env.renameOk env.reopenOk else w

/-- Whether the line was written, or nothing where the file does not open. -/
def writeAttempt (w : HistoryWriter) (line : Bytes) (a : WriteAttempt) : HistoryWriter × Option Bool :=
  let w := if w.isOpen then w else w.openAppend a.openOk
  if w.isOpen then
    match a.failsAfter with
    | none => ({ w with live := some (w.live.getD [] ++ line) }, some true)
    | some k => ({ w with isOpen := false, live := some (w.live.getD [] ++ line.take k) }, some false)
  else (w, none)

/-- One retry through a fresh handle. -/
def writeLine (w : HistoryWriter) (line : Bytes) (env : HistoryEnv) : HistoryWriter × Bool :=
  match w.writeAttempt line env.first with
  | (w, some true) => (w, true)
  | (w, none) => (w, false)
  | (w, some false) =>
    let (w, result) := w.writeAttempt line env.second
    (w, result == some true)

/-- Append one event, and whether its line was written. -/
def record (json : EventJson) (w : HistoryWriter) (ev : Event) (env : HistoryEnv) : HistoryWriter × Bool :=
  match json.toText ev with
  | none => (w, false)
  | some text => (w.beforeWrite (text ++ [newline]) env).writeLine (text ++ [newline]) env

/-- The previous generation and then the live file, with the number of lines that do not parse. -/
def readEvents (json : EventJson) (w : HistoryWriter) : List Event × Nat :=
  let parseLines := fun file : Option Bytes =>
    match file with
    | some data => LineFile.read newline json.fromSlice data
    | none => ([], 0)
  let (previous, skipped) := parseLines w.previous
  let (live, skipped') := parseLines w.live
  (previous ++ live, skipped + skipped')

theorem readEvents_eq (json : EventJson) (w : HistoryWriter) :
    let previous := LineFile.read newline json.fromSlice (w.previous.getD [])
    let live := LineFile.read newline json.fromSlice (w.live.getD [])
    w.readEvents json = (previous.1 ++ live.1, previous.2 + live.2) := by
  obtain ⟨cap, isOpen, live, previous⟩ := w
  cases live <;> cases previous <;> rfl

@[simp] theorem openAppend_content (w : HistoryWriter) (ok : Bool) :
    (w.openAppend ok).live.getD [] = w.live.getD [] := by
  unfold openAppend
  split <;> rfl

@[simp] theorem openAppend_previous (w : HistoryWriter) (ok : Bool) :
    (w.openAppend ok).previous = w.previous := by
  unfold openAppend
  split <;> rfl

@[simp] theorem openAppend_cap (w : HistoryWriter) (ok : Bool) : (w.openAppend ok).cap = w.cap := by
  unfold openAppend
  split <;> rfl

/-- The renaming takes place: the live file becomes the previous generation. -/
def rotates (w : HistoryWriter) (line : Bytes) (env : HistoryEnv) : Bool :=
  env.metadataOk && w.crosses line && env.renameOk

theorem beforeWrite_cases (w : HistoryWriter) (line : Bytes) (env : HistoryEnv) :
    let v := w.beforeWrite line env
    v.cap = w.cap ∧
      ((w.rotates line env = true ∧ v.live.getD [] = [] ∧ v.previous = w.live) ∨
        (w.rotates line env = false ∧ v.live.getD [] = w.live.getD [] ∧ v.previous = w.previous)) := by
  intro v
  simp only [v, beforeWrite, rotates]
  cases hc : env.metadataOk && w.crosses line with
  | false => simp
  | true => cases hr : env.renameOk <;> simp [rotate]

/-- An attempt appends the whole line, a part of it, or nothing. -/
theorem writeAttempt_cases (w : HistoryWriter) (line : Bytes) (a : WriteAttempt) :
    let r := w.writeAttempt line a
    r.1.previous = w.previous ∧ r.1.cap = w.cap ∧
      ((r.2 = some true ∧ r.1.live.getD [] = w.live.getD [] ++ line ∧ a.failsAfter = none) ∨
        (r.2 = some false ∧ ∃ k, a.failsAfter = some k ∧
          r.1.live.getD [] = w.live.getD [] ++ line.take k) ∨
        (r.2 = none ∧ r.1.live.getD [] = w.live.getD [])) := by
  intro r
  have hopened : ∃ v : HistoryWriter, v = (if w.isOpen then w else w.openAppend a.openOk) ∧
      v.live.getD [] = w.live.getD [] ∧ v.previous = w.previous ∧ v.cap = w.cap := by
    refine ⟨_, rfl, ?_⟩
    split <;> simp
  obtain ⟨v, hv, hlive, hprevious, hcap⟩ := hopened
  simp only [r, writeAttempt, ← hv]
  split
  next =>
    cases ha : a.failsAfter with
    | none => simp [hlive, hprevious, hcap]
    | some k => simp [hlive, hprevious, hcap]
  next => simp [hlive, hprevious, hcap]

/-- What a successful write appends to: the file as it is, and the part of the line that a failed first
attempt left. -/
def appendedTo (w : HistoryWriter) (line : Bytes) (env : HistoryEnv) : Bytes :=
  w.live.getD [] ++ line.take (env.first.failsAfter.getD 0)

theorem writeLine_cases (w : HistoryWriter) (line : Bytes) (env : HistoryEnv) :
    let r := w.writeLine line env
    r.1.previous = w.previous ∧ r.1.cap = w.cap ∧
      ((r.2 = true ∧ r.1.live.getD [] = w.appendedTo line env ++ line) ∨
        (r.2 = false ∧ ∃ torn, r.1.live.getD [] = w.live.getD [] ++ torn)) := by
  intro r
  obtain ⟨hp, hc, hfirst⟩ := writeAttempt_cases w line env.first
  simp only [r, writeLine]
  generalize w.writeAttempt line env.first = out at hp hc hfirst
  obtain ⟨v, result⟩ := out
  rcases hfirst with ⟨hres, hlive, ha⟩ | ⟨hres, k, ha, hlive⟩ | ⟨hres, hlive⟩
  · simp only at hres
    subst hres
    refine ⟨hp, hc, Or.inl ⟨rfl, ?_⟩⟩
    simpa [appendedTo, ha] using hlive
  · simp only at hres
    subst hres
    have htorn : v.live.getD [] = w.appendedTo line env := by simpa [appendedTo, ha] using hlive
    obtain ⟨hp', hc', hsecond⟩ := writeAttempt_cases v line env.second
    refine ⟨hp'.trans hp, hc'.trans hc, ?_⟩
    rcases hsecond with ⟨hres, hlive', -⟩ | ⟨hres, k', -, hlive'⟩ | ⟨hres, hlive'⟩
    · exact Or.inl ⟨by simp [hres], by rw [hlive', htorn]⟩
    · refine Or.inr ⟨by simp [hres], line.take k ++ line.take k', ?_⟩
      rw [hlive', hlive, List.append_assoc]
    · exact Or.inr ⟨by simp [hres], line.take k, by rw [hlive', hlive]⟩
  · simp only at hres
    subst hres
    exact ⟨hp, hc, Or.inr ⟨rfl, [], by rw [hlive, List.append_nil]⟩⟩

end HistoryWriter

end KeepAt
