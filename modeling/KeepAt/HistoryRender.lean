import KeepAt.ByteTotals
import KeepAt.PathText
import KeepAt.SizeText

namespace KeepAt

/-- No character of the text is a control character: shown, it stays on its line and moves no cursor. -/
def ControlFree (s : String) : Prop := ∀ c ∈ s.toList, isControl c = false

instance (s : String) : Decidable (ControlFree s) := List.decidableBAll (fun c => isControl c = false) s.toList

/-- The display form of a timestamp, which the time library writes. -/
structure HistoryText where
  fmtTs : Time → String
  fmtTs_controlFree : ∀ ts, ControlFree (fmtTs ts)

def green : String := "\x1b[32m"

def yellow : String := "\x1b[33m"

def red : String := "\x1b[31m"

def colorReset : String := "\x1b[0m"

def paint (color : Bool) (code s : String) : String := if color then code ++ s ++ colorReset else s

def Cause.label : Cause → String
  | .fill => "fill"
  | .swap => "swap"
  | .stalled => "stalled"
  | .deletedFromCatalog => "deleted-from-catalog"
  | .quarantined => "quarantined"

/-- `{v:.2}`: the exact value to two decimals, a tie going to the even digit. -/
def formatHundredths : F64 → String
  | .nan => "NaN"
  | .inf negative => if negative then "-inf" else "inf"
  | .fin q _ =>
    let hundredths := (roundHalfEven (100 * |q|)).toNat
    (if q < 0 then "-" else "") ++ toString (hundredths / 100) ++ "." ++ toString (hundredths / 10 % 10) ++
      toString (hundredths % 10)

/-- At most the first bytes of a text. There is none where a character lies across the cut. -/
def bytePrefix : Nat → List Char → Option (List Char)
  | _, [] => some []
  | n, c :: cs =>
    if n = 0 then some []
    else if c.utf8Size ≤ n then (bytePrefix (n - c.utf8Size) cs).map (c :: ·)
    else none

def shortHash (hash : String) : Option String := (bytePrefix 8 hash.toList).map String.ofList

/-- What a line says of a torrent, up to where it went. -/
def torrentText (title size : String) (seeders : Nat) : String :=
  sanitizeTitle title ++ " (" ++ size ++ ", " ++ toString seeders ++ " seeders)"

def renderDisplaced (color : Bool) (code ts : String) (d : Displaced) : Option String := do
  let size ← humanBytes (asI64 d.sizeBytes)
  let hash ← shortHash d.hash
  some (paint color code (ts ++ "   displaced " ++ torrentText d.title size d.seeders ++ " [" ++ hash ++ "]"))

/-- The lines for an event, a swap's displaced torrents below the winner. There are none where the program dies: in a
recursion without end over a size, or in cutting a hash inside of a character. -/
def render (text : HistoryText) (color : Bool) : Event → Option (List String)
  | .add ts hash title sizeBytes seeders location cause chance roll seederFloor reason displaced => do
    let ts := text.fmtTs ts
    let code := if cause = .swap then yellow else green
    let verb := if cause = .swap then "swapped in " else "added     "
    let size ← humanBytes (asI64 sizeBytes)
    let hash ← shortHash hash
    let rest ← displaced.mapM (renderDisplaced color code ts)
    some (paint color code
      (ts ++ " " ++ verb ++ torrentText title size seeders ++ " at " ++ pathText location ++ " — " ++ cause.label ++
        ": " ++ reason ++ " (chance " ++ formatHundredths chance ++ ", roll " ++ formatHundredths roll ++
        ", seeder floor " ++ toString seederFloor ++ ") [" ++ hash ++ "]") :: rest)
  | .remove ts hash title sizeBytes seeders location cause reason => do
    let ts := text.fmtTs ts
    let size ← humanBytes (asI64 sizeBytes)
    let hash ← shortHash hash
    some [paint color red
      (ts ++ " dropped   " ++ torrentText title size seeders ++ " from " ++ pathText location ++ " — " ++
        cause.label ++ ": " ++ reason ++ " [" ++ hash ++ "]")]

/-- A line as it may be shown: control characters only where the program paints it. -/
def Painted (color : Bool) (line : String) : Prop :=
  ∃ code ∈ [green, yellow, red], ∃ body, ControlFree body ∧ line = paint color code body

theorem controlFree_append {s t : String} : ControlFree (s ++ t) ↔ ControlFree s ∧ ControlFree t := by
  simp only [ControlFree, String.toList_append, List.mem_append, or_imp, forall_and]

theorem isControl_of_isDigit {c : Char} (h : c.isDigit = true) : isControl c = false := by
  have hr := Char.isDigit_iff_toNat.mp h
  have h0 : '0'.toNat = 48 := rfl
  have h9 : '9'.toNat = 57 := rfl
  rw [isControl, decide_eq_false_iff_not]
  omega

theorem controlFree_toString (n : Nat) : ControlFree (toString n) := by
  intro c hc
  rw [Nat.toString_eq_ofList_toDigits, String.toList_ofList] at hc
  exact isControl_of_isDigit (isDigit_of_mem_toDigits hc)

theorem controlFree_sanitizeTitle (s : String) : ControlFree (sanitizeTitle s) := by
  intro c hc
  rw [sanitizeTitle, String.toList_ofList] at hc
  simpa using (List.mem_filter.mp hc).2

theorem controlFree_formatTenths (v : F64) : ControlFree (formatTenths v) := by
  cases v with
  | nan => decide
  | inf negative => cases negative <;> decide
  | fin q valid =>
    have hsign : ControlFree (if q < 0 then "-" else "") := by split <;> decide
    have hdot : ControlFree "." := by decide
    simp only [formatTenths, controlFree_append, hsign, hdot, controlFree_toString, and_self]

theorem controlFree_formatHundredths (v : F64) : ControlFree (formatHundredths v) := by
  cases v with
  | nan => decide
  | inf negative => cases negative <;> decide
  | fin q valid =>
    have hsign : ControlFree (if q < 0 then "-" else "") := by split <;> decide
    have hdot : ControlFree "." := by decide
    simp only [formatHundredths, controlFree_append, hsign, hdot, controlFree_toString, and_self]

theorem controlFree_unitName (u : Nat) : ControlFree (unitNames.getD u "") := by
  have hall : ∀ name ∈ unitNames, ControlFree name := by decide
  rw [List.getD_eq_getElem?_getD]
  cases hu : unitNames[u]? with
  | none => decide
  | some name => exact hall name (List.mem_of_getElem? hu)

theorem controlFree_humanMagnitude (n : Nat) : ControlFree (humanMagnitude n) := by
  have hblank : ControlFree " " := by decide
  have hbytes : ControlFree " B" := by decide
  unfold humanMagnitude
  split
  next => simp only [controlFree_append, controlFree_toString, hbytes, and_self]
  next => simp only [controlFree_append, controlFree_formatTenths, controlFree_unitName, hblank, and_self]

theorem controlFree_humanBytesFuel {depth : Nat} {n : Int} {s : String} (h : humanBytesFuel depth n = some s) :
    ControlFree s := by
  induction depth generalizing n s with
  | zero => cases h
  | succ depth ih =>
    have hminus : ControlFree "-" := by decide
    rw [humanBytesFuel] at h
    split at h
    next =>
      obtain ⟨t, ht, rfl⟩ := Option.map_eq_some_iff.mp h
      exact controlFree_append.mpr ⟨hminus, ih ht⟩
    next =>
      obtain rfl := Option.some.inj h
      exact controlFree_humanMagnitude _

theorem controlFree_humanBytesText (n : Nat) : ControlFree (humanBytesText n) := by
  rw [humanBytesText]
  cases h : humanBytes (asI64 n) with
  | none => decide
  | some s => exact controlFree_humanBytesFuel h

theorem controlFree_appendPart {acc : String × Nat} {part : Nat × String} (hacc : ControlFree acc.1)
    (hpart : ControlFree part.2) : ControlFree (appendPart acc part).1 := by
  unfold appendPart
  dsimp only
  split
  next => simp only [controlFree_append, hacc, hpart, controlFree_toString, and_self]
  next => exact hacc

theorem controlFree_humanDuration (d : Nat) : ControlFree (humanDuration d) := by
  have hms : ControlFree "ms" := by decide
  have hparts : ∀ part ∈ durationParts, ControlFree part.2 := by decide
  have hfold : ∀ (parts : List (Nat × String)) (acc : String × Nat), (∀ part ∈ parts, ControlFree part.2) →
      ControlFree acc.1 → ControlFree (parts.foldl appendPart acc).1 := by
    intro parts
    induction parts with
    | nil => exact fun _ _ hacc => hacc
    | cons part rest ih =>
      intro acc hall hacc
      obtain ⟨hpart, hrest⟩ := List.forall_mem_cons.mp hall
      exact ih _ hrest (controlFree_appendPart hacc hpart)
  have hempty : ControlFree "" := by decide
  unfold humanDuration
  split
  next => simp only [controlFree_append, controlFree_toString, hms, and_self]
  next => exact hfold durationParts _ hparts hempty

theorem controlFree_label (cause : Cause) : ControlFree cause.label := by cases cause <;> decide

theorem controlFree_torrentText {title size : String} (seeders : Nat) (hsize : ControlFree size) :
    ControlFree (torrentText title size seeders) := by
  have hopen : ControlFree " (" := by decide
  have hcomma : ControlFree ", " := by decide
  have hclose : ControlFree " seeders)" := by decide
  simp only [torrentText, controlFree_append, controlFree_sanitizeTitle, controlFree_toString, hsize, hopen, hcomma,
    hclose, and_self]

/-- A text of one-byte characters can be cut anywhere, and the cut takes none that it did not have. -/
theorem bytePrefix_ascii {cs : List Char} (h : ∀ c ∈ cs, c.utf8Size = 1) (n : Nat) :
    ∃ front, bytePrefix n cs = some front ∧ ∀ c ∈ front, c ∈ cs := by
  induction cs generalizing n with
  | nil => exact ⟨[], rfl, fun _ hc => hc⟩
  | cons c cs ih =>
    obtain ⟨hc, hcs⟩ := List.forall_mem_cons.mp h
    rw [bytePrefix]
    split
    next => exact ⟨[], rfl, fun _ hc => absurd hc List.not_mem_nil⟩
    next hn =>
      obtain ⟨front, hfront, hmem⟩ := ih hcs (n - c.utf8Size)
      rw [if_pos (by omega), hfront]
      refine ⟨c :: front, rfl, fun d hd => ?_⟩
      rcases List.mem_cons.mp hd with rfl | hd
      · exact List.mem_cons_self
      · exact List.mem_cons_of_mem _ (hmem d hd)

theorem hexDigit_shown : ∀ n < 16, (hexDigit n).utf8Size = 1 ∧ isControl (hexDigit n) = false := by decide

theorem mem_hexEncode {hash : InfoHash} {c : Char} (h : c ∈ (hexEncode hash).toList) :
    c.utf8Size = 1 ∧ isControl c = false := by
  rw [hexEncode, String.toList_ofList] at h
  obtain ⟨b, -, hc⟩ := List.mem_flatMap.mp h
  have hb := b.toNat_lt
  rcases List.mem_pair.mp hc with rfl | rfl
  · exact hexDigit_shown _ (by omega)
  · exact hexDigit_shown _ (by omega)

theorem shortHash_hexEncode (hash : InfoHash) : ∃ short, shortHash (hexEncode hash) = some short ∧ ControlFree short := by
  have hascii : ∀ c ∈ (hexEncode hash).toList, c.utf8Size = 1 := fun c hc => (mem_hexEncode hc).1
  obtain ⟨front, hfront, hmem⟩ := bytePrefix_ascii hascii 8
  refine ⟨String.ofList front, by rw [shortHash, hfront]; rfl, fun c hc => ?_⟩
  rw [String.toList_ofList] at hc
  exact (mem_hexEncode (hmem c hc)).2

/-- The least `i64` is the one value whose text `human_bytes` never finishes. -/
theorem humanBytes_asI64_eq_none_iff (n : Nat) : humanBytes (asI64 n) = none ↔ asI64 n = -2 ^ 63 := by
  constructor
  · intro h
    by_contra hne
    have hlow : -2 ^ 63 ≤ asI64 n := by unfold asI64; split <;> omega
    have hhigh : asI64 n < 2 ^ 63 := by unfold asI64; split <;> omega
    rcases Int.eq_nat_or_neg (asI64 n) with ⟨k, hk | hk⟩
    · rw [hk, humanBytes_of_nonneg] at h
      cases h
    · by_cases hzero : k = 0
      · rw [hk, hzero] at h
        cases h
      · rw [hk, humanBytes_of_neg (by omega) (by omega)] at h
        cases h
  · intro h
    rw [h]
    exact humanBytesFuel_min 2

def SpelledHash (hex : String) : Prop := ∃ hash, hex = hexEncode hash

/-- What the program itself puts into an event, beside the titles: hashes as it spells them, and a place and a
reason that can be shown. -/
def Event.Printable : Event → Prop
  | .add _ hash _ _ _ location _ _ _ _ reason displaced =>
    SpelledHash hash ∧ ControlFree (pathText location) ∧ ControlFree reason ∧ ∀ d ∈ displaced, SpelledHash d.hash
  | .remove _ hash _ _ _ location _ reason =>
    SpelledHash hash ∧ ControlFree (pathText location) ∧ ControlFree reason

def Event.sizes : Event → List Nat
  | .add _ _ _ sizeBytes _ _ _ _ _ _ _ displaced => sizeBytes :: displaced.map Displaced.sizeBytes
  | .remove _ _ _ sizeBytes _ _ _ _ => [sizeBytes]

def Event.displaced : Event → List Displaced
  | .add _ _ _ _ _ _ _ _ _ _ _ displaced => displaced
  | .remove _ _ _ _ _ _ _ _ => []

theorem Painted.of_body {color : Bool} {code body : String} (hcode : code ∈ [green, yellow, red])
    (h : ControlFree body) : Painted color (paint color code body) := ⟨code, hcode, body, h, rfl⟩

theorem renderDisplaced_shown {code ts : String} (color : Bool) (d : Displaced) (hcode : code ∈ [green, yellow, red])
    (hts : ControlFree ts) (hash : SpelledHash d.hash) :
    (renderDisplaced color code ts d = none ↔ asI64 d.sizeBytes = -2 ^ 63) ∧
      ∀ line, renderDisplaced color code ts d = some line → Painted color line := by
  obtain ⟨hash, hhash⟩ := hash
  obtain ⟨short, hshort, hfree⟩ := shortHash_hexEncode hash
  have hverb : ControlFree "   displaced " := by decide
  have hopen : ControlFree " [" := by decide
  have hclose : ControlFree "]" := by decide
  rw [← humanBytes_asI64_eq_none_iff]
  cases hsize : humanBytes (asI64 d.sizeBytes) with
  | none => simp [renderDisplaced, hsize]
  | some size =>
    have htorrent : ControlFree (torrentText d.title size d.seeders) :=
      controlFree_torrentText d.seeders (controlFree_humanBytesFuel hsize)
    simp only [renderDisplaced, hsize, hhash, hshort, Option.bind_eq_bind, Option.bind_some]
    refine ⟨by simp, fun line hline => ?_⟩
    obtain rfl := Option.some.inj hline
    refine .of_body hcode ?_
    simp only [controlFree_append, hts, hverb, htorrent, hopen, hfree, hclose, and_self]

theorem renderDisplaced_all {code ts : String} (color : Bool) (displaced : List Displaced)
    (hcode : code ∈ [green, yellow, red]) (hts : ControlFree ts) (hashes : ∀ d ∈ displaced, SpelledHash d.hash) :
    (displaced.mapM (renderDisplaced color code ts) = none ↔ ∃ d ∈ displaced, asI64 d.sizeBytes = -2 ^ 63) ∧
      ∀ lines, displaced.mapM (renderDisplaced color code ts) = some lines →
        lines.length = displaced.length ∧ ∀ line ∈ lines, Painted color line := by
  induction displaced with
  | nil => exact ⟨by simp, fun lines h => by obtain rfl := Option.some.inj h; simp⟩
  | cons d rest ih =>
    obtain ⟨hd, hrest⟩ := List.forall_mem_cons.mp hashes
    obtain ⟨hnone, hsome⟩ := renderDisplaced_shown color d hcode hts hd
    obtain ⟨ihnone, ihsome⟩ := ih hrest
    simp only [List.mapM_cons, Option.bind_eq_bind, Option.pure_def, List.exists_mem_cons_iff, ← hnone, ← ihnone]
    cases hline : renderDisplaced color code ts d with
    | none => exact ⟨by simp, fun lines h => by cases h⟩
    | some line =>
      cases hlines : rest.mapM (renderDisplaced color code ts) with
      | none => exact ⟨by simp, fun lines h => by cases h⟩
      | some others =>
        refine ⟨by simp, fun lines h => ?_⟩
        obtain rfl := Option.some.inj h
        obtain ⟨hlen, hall⟩ := ihsome others hlines
        exact ⟨by rw [List.length_cons, List.length_cons, hlen], List.forall_mem_cons.mpr ⟨hsome line hline, hall⟩⟩

/-- An event of the program's own has its lines, one for itself and one for each torrent that it displaced, and
nothing escapes from any of them, unless a size of it is one that `human_bytes` never finishes. -/
theorem render_shown (text : HistoryText) (color : Bool) {ev : Event} (h : ev.Printable) :
    (render text color ev = none ↔ ∃ n ∈ ev.sizes, asI64 n = -2 ^ 63) ∧
      ∀ lines, render text color ev = some lines →
        lines.length = ev.displaced.length + 1 ∧ ∀ line ∈ lines, Painted color line := by
  have hblank : ControlFree " " := by decide
  have hopen : ControlFree " [" := by decide
  have hclose : ControlFree "]" := by decide
  have hdash : ControlFree " — " := by decide
  have hcolon : ControlFree ": " := by decide
  cases ev with
  | add ts hash title sizeBytes seeders location cause chance roll seederFloor reason displaced =>
    obtain ⟨⟨hash, rfl⟩, hlocation, hreason, hashes⟩ := h
    obtain ⟨short, hshort, hfree⟩ := shortHash_hexEncode hash
    have hts := text.fmtTs_controlFree ts
    have hcode : (if cause = .swap then yellow else green) ∈ [green, yellow, red] := by split <;> decide
    have hverb : ControlFree (if cause = .swap then "swapped in " else "added     ") := by split <;> decide
    have hat : ControlFree " at " := by decide
    have hchance : ControlFree " (chance " := by decide
    have hroll : ControlFree ", roll " := by decide
    have hfloor : ControlFree ", seeder floor " := by decide
    have hend : ControlFree ") [" := by decide
    obtain ⟨hnone, hsome⟩ := renderDisplaced_all color displaced hcode hts hashes
    have hsizes : (∃ n ∈ displaced.map Displaced.sizeBytes, asI64 n = -2 ^ 63) ↔
        ∃ d ∈ displaced, asI64 d.sizeBytes = -2 ^ 63 := by simp
    have hown := humanBytes_asI64_eq_none_iff sizeBytes
    simp only [render, Event.sizes, Event.displaced, List.exists_mem_cons_iff, hsizes, ← hnone, ← hown, hshort,
      Option.bind_eq_bind]
    cases hsize : humanBytes (asI64 sizeBytes) with
    | none => exact ⟨by simp, fun lines h => by cases h⟩
    | some size =>
      have htorrent : ControlFree (torrentText title size seeders) :=
        controlFree_torrentText seeders (controlFree_humanBytesFuel hsize)
      cases hrest : displaced.mapM (renderDisplaced color (if cause = .swap then yellow else green) (text.fmtTs ts)) with
      | none => exact ⟨by simp, fun lines h => by cases h⟩
      | some others =>
        refine ⟨by simp, fun lines h => ?_⟩
        obtain rfl := Option.some.inj h
        obtain ⟨hlen, hall⟩ := hsome others hrest
        refine ⟨by rw [List.length_cons, hlen], List.forall_mem_cons.mpr ⟨.of_body hcode ?_, hall⟩⟩
        simp only [controlFree_append, hts, hblank, hverb, htorrent, hat, hlocation, hdash, controlFree_label, hcolon,
          hreason, hchance, controlFree_formatHundredths, hroll, hfloor, controlFree_toString, hend, hfree, hclose,
          and_self]
  | remove ts hash title sizeBytes seeders location cause reason =>
    obtain ⟨⟨hash, rfl⟩, hlocation, hreason⟩ := h
    obtain ⟨short, hshort, hfree⟩ := shortHash_hexEncode hash
    have hts := text.fmtTs_controlFree ts
    have hverb : ControlFree " dropped   " := by decide
    have hfrom : ControlFree " from " := by decide
    simp only [render, Event.sizes, Event.displaced, List.mem_singleton, exists_eq_left,
      ← humanBytes_asI64_eq_none_iff, hshort, Option.bind_eq_bind]
    cases hsize : humanBytes (asI64 sizeBytes) with
    | none => exact ⟨by simp, fun lines h => by cases h⟩
    | some size =>
      have htorrent : ControlFree (torrentText title size seeders) :=
        controlFree_torrentText seeders (controlFree_humanBytesFuel hsize)
      refine ⟨by simp, fun lines h => ?_⟩
      obtain rfl := Option.some.inj h
      refine ⟨rfl, List.forall_mem_singleton.mpr (.of_body (by decide) ?_)⟩
      simp only [controlFree_append, hts, hverb, htorrent, hfrom, hlocation, hdash, controlFree_label, hcolon, hreason,
        hopen, hfree, hclose, and_self]

end KeepAt
