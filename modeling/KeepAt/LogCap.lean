import KeepAt.HistoryFile

namespace KeepAt

/-- The file after a write at offset 0. -/
def writeAtStart (data written : Bytes) : Bytes := written ++ data.drop written.length

/-- Cut to a length, or filled up to it with zeros. -/
def setLen (data : Bytes) (n : Nat) : Bytes := data.take n ++ List.replicate (n - data.length) 0

def capKeep (maxBytes : Nat) : Nat := max (maxBytes / 2) 1

/-- The last bytes of the file. -/
def capBuf (data : Bytes) (maxBytes : Nat) : Bytes := data.drop (data.length - capKeep maxBytes)

/-- The last bytes, from the first start of a line among them on. -/
def capTail (data : Bytes) (maxBytes : Nat) : Bytes :=
  let buf := capBuf data maxBytes
  let cut := (buf.findIdx? (· = newline)).elim 0 (· + 1)
  buf.drop cut

/-- The capped file, and whether it was rewritten. -/
def capTextFile (data : Bytes) (maxBytes : Nat) : Bytes × Bool :=
  if data.length ≤ maxBytes then (data, false)
  else
    let tail := capTail data maxBytes
    (setLen (writeAtStart data tail) tail.length, true)

/-- How far a rewrite got: some bytes of the tail written, or the file truncated after them all. -/
inductive CapProgress
  | written (bytes : Nat)
  | truncated

/-- What a kill at this point of the rewrite of an over-long file leaves on disk. -/
def capKilled (data : Bytes) (maxBytes : Nat) : CapProgress → Bytes
  | .written n => writeAtStart data ((capTail data maxBytes).take n)
  | .truncated => setLen (writeAtStart data (capTail data maxBytes)) (capTail data maxBytes).length

/-- The bytes `tail` stand at this offset of the file. -/
def StandsAt (file tail : Bytes) (offset : Nat) : Prop := (file.drop offset).take tail.length = tail

variable {data : Bytes} {maxBytes : Nat}

theorem setLen_writeAtStart (data written : Bytes) : setLen (writeAtStart data written) written.length = written := by
  simp [setLen, writeAtStart]

theorem capTextFile_of_long (h : maxBytes < data.length) :
    capTextFile data maxBytes = (capTail data maxBytes, true) := by
  simp only [capTextFile, if_neg (Nat.not_le.mpr h), setLen_writeAtStart]

theorem capKeep_le (hpos : 1 ≤ maxBytes) : capKeep maxBytes ≤ maxBytes := by
  unfold capKeep
  omega

/-- The bytes kept are the second half of the file at most: they never overlap their copy. -/
theorem capKeep_two_mul_le (hpos : 1 ≤ maxBytes) (hlong : maxBytes < data.length) :
    2 * capKeep maxBytes ≤ data.length := by
  unfold capKeep
  omega

theorem capBuf_length (hpos : 1 ≤ maxBytes) (hlong : maxBytes < data.length) :
    (capBuf data maxBytes).length = capKeep maxBytes := by
  have hkeep := capKeep_le hpos
  rw [capBuf, List.length_drop]
  omega

theorem capTail_suffix (data : Bytes) (maxBytes : Nat) : capTail data maxBytes <:+ data :=
  (List.drop_suffix _ _).trans (List.drop_suffix _ _)

theorem capTail_length_le (data : Bytes) (maxBytes : Nat) : (capTail data maxBytes).length ≤ capKeep maxBytes := by
  simp only [capTail, capBuf, List.length_drop]
  omega

theorem findIdx?_newline_eq_none {text : Bytes} (h : newline ∉ text) : text.findIdx? (· = newline) = none := by
  refine List.findIdx?_eq_none_iff.mpr (fun x hx => decide_eq_false ?_)
  exact fun he => h (he ▸ hx)

theorem capTail_of_not_mem (h : newline ∉ capBuf data maxBytes) : capTail data maxBytes = capBuf data maxBytes := by
  simp only [capTail, findIdx?_newline_eq_none h, Option.elim_none, List.drop_zero]

theorem capTail_of_first {front rest : Bytes} (hbuf : capBuf data maxBytes = front ++ newline :: rest)
    (h : newline ∉ front) : capTail data maxBytes = rest := by
  have hcut : (front ++ newline :: rest).findIdx? (· = newline) = some front.length := by
    rw [List.findIdx?_append, findIdx?_newline_eq_none h]
    simp [List.findIdx?_cons]
  simp only [capTail, hbuf, hcut, Option.elim_some]
  simp [List.drop_append]

theorem standsAt_suffix {tail file : Bytes} (h : tail <:+ file) : StandsAt file tail (file.length - tail.length) := by
  rw [StandsAt, ← List.suffix_iff_eq_drop.mp h, List.take_length]

/-- A write that ends before the tail leaves the tail in its place. -/
theorem standsAt_writeAtStart {tail written : Bytes} (h : tail <:+ data)
    (hlen : written.length + tail.length ≤ data.length) :
    StandsAt (writeAtStart data written) tail (data.length - tail.length) := by
  have hdrop : (writeAtStart data written).drop (data.length - tail.length) =
      data.drop (data.length - tail.length) := by
    rw [writeAtStart, List.drop_append, List.drop_eq_nil_of_le (by omega), List.nil_append, List.drop_drop]
    congr 1
    omega
  rw [StandsAt, hdrop]
  exact standsAt_suffix h

/-- A kill at any point leaves the tail in its old place or, once the file is cut, at the start. -/
theorem capKilled_stands (hpos : 1 ≤ maxBytes) (hlong : maxBytes < data.length) (p : CapProgress) :
    StandsAt (capKilled data maxBytes p) (capTail data maxBytes) (data.length - (capTail data maxBytes).length) ∨
      StandsAt (capKilled data maxBytes p) (capTail data maxBytes) 0 := by
  have hlen := capTail_length_le data maxBytes
  cases p with
  | written n =>
    refine Or.inl ?_
    have hhalf := capKeep_two_mul_le hpos hlong
    have hpart : ((capTail data maxBytes).take n).length ≤ capKeep maxBytes :=
      (List.length_take_le' _ _).trans hlen
    exact standsAt_writeAtStart (capTail_suffix data maxBytes) (by omega)
  | truncated =>
    refine Or.inr ?_
    simp only [capKilled, setLen_writeAtStart, StandsAt, List.drop_zero, List.take_length]

/-- An over-long file is cut to the lines of its last part, a second call finds nothing to do, and at any
point of the rewrite the part kept stands in its old place or at the start. -/
theorem capTextFile_crash_safe (hpos : 1 ≤ maxBytes) (hlong : maxBytes < data.length) :
    (capBuf data maxBytes <:+ data ∧ (capBuf data maxBytes).length = max (maxBytes / 2) 1) ∧
    ∃ tail, capTextFile data maxBytes = (tail, true) ∧
      (newline ∉ capBuf data maxBytes → tail = capBuf data maxBytes) ∧
      (∀ front rest, capBuf data maxBytes = front ++ newline :: rest → newline ∉ front → tail = rest) ∧
      capTextFile tail maxBytes = (tail, false) ∧
      ∀ p : CapProgress, StandsAt (capKilled data maxBytes p) tail (data.length - tail.length) ∨
        StandsAt (capKilled data maxBytes p) tail 0 := by
  have hlen := (capTail_length_le data maxBytes).trans (capKeep_le hpos)
  refine ⟨⟨List.drop_suffix _ _, capBuf_length hpos hlong⟩, capTail data maxBytes, capTextFile_of_long hlong,
    fun h => ?_, fun front rest hbuf h => ?_, if_pos hlen, fun p => ?_⟩
  next => exact capTail_of_not_mem h
  next => exact capTail_of_first hbuf h
  next => exact capKilled_stands hpos hlong p

theorem capTextFile_crash_safe_short :
    capTextFile [97, 97, 97, 10, 98, 10, 99, 10, 100, 10] 8 = ([100, 10], true) ∧
      (StandsAt (capKilled [97, 97, 97, 10, 98, 10, 99, 10, 100, 10] 8 (.written 1)) [100, 10] 8 ∨
        StandsAt (capKilled [97, 97, 97, 10, 98, 10, 99, 10, 100, 10] 8 (.written 1)) [100, 10] 0) := by
  obtain ⟨-, tail, hcap, -, hcut, -, hkill⟩ :=
    @capTextFile_crash_safe [97, 97, 97, 10, 98, 10, 99, 10, 100, 10] 8 (by decide) (by decide)
  obtain rfl := hcut [99] [100, 10] (by decide) (by decide)
  exact ⟨hcap, hkill (.written 1)⟩

end KeepAt
