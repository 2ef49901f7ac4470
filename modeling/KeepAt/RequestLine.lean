import KeepAt.ChunkedRead

namespace KeepAt

inductive Request where
  | runtime
  | held
  deriving DecidableEq

def maxRequestBytes : Nat := 64 * 1024

def lineFeed : UInt8 := 10

def isAsciiWhitespace (b : UInt8) : Bool := b == 9 || b == 10 || b == 12 || b == 13 || b == 32

def trimAscii (s : List UInt8) : List UInt8 := (s.dropWhile isAsciiWhitespace).rdropWhile isAsciiWhitespace

/-- What `serve_one` makes of the reads of one client, up to the point where it answers. -/
def serveOne (fromSlice : List UInt8 → Option Request) (reads : List (List UInt8)) : Except String Request :=
  let (line, terminated) := ChunkedRead.readLoop lineFeed [] (maxRequestBytes + 1) reads
  if !terminated || decide (line.length > maxRequestBytes) then
    .error ("request too large or unterminated (" ++ toString line.length ++ " bytes)")
  else
    match fromSlice (trimAscii line) with
    | none => .error "parsing request"
    | some request => .ok request

theorem rdropWhile_append (p : UInt8 → Bool) (x z : List UInt8) :
    (x ++ z).rdropWhile p = if (z.rdropWhile p).isEmpty then x.rdropWhile p else x ++ z.rdropWhile p := by
  simp only [List.rdropWhile, List.reverse_append, List.dropWhile_append, List.isEmpty_reverse]
  split
  · rfl
  · rw [List.reverse_append, List.reverse_reverse]

theorem mem_dropWhile_of_not {p : UInt8 → Bool} {b : UInt8} {z : List UInt8} (hb : b ∈ z)
    (hp : p b = false) : b ∈ z.dropWhile p := by
  rw [← List.takeWhile_append_dropWhile (p := p) (l := z)] at hb
  rcases List.mem_append.mp hb with h | h
  · exact absurd (List.mem_takeWhile_imp h) (by rw [hp]; exact Bool.false_ne_true)
  · exact h

theorem mem_rdropWhile_of_not {p : UInt8 → Bool} {b : UInt8} {z : List UInt8} (hb : b ∈ z)
    (hp : p b = false) : b ∈ z.rdropWhile p :=
  List.mem_reverse.mpr (mem_dropWhile_of_not (List.mem_reverse.mpr hb) hp)

/-- Blanks after a line do not reach the parser. -/
theorem trimAscii_append_blank {line z : List UInt8} (h : ∀ b ∈ z, isAsciiWhitespace b = true) :
    trimAscii (line ++ z) = trimAscii line := by
  have hz : z.rdropWhile isAsciiWhitespace = [] := List.rdropWhile_eq_nil_iff.mpr h
  unfold trimAscii
  rw [List.dropWhile_append]
  split
  next hblank =>
    rw [List.dropWhile_eq_nil_iff.mpr h, List.isEmpty_iff.mp hblank]
  next => rw [rdropWhile_append, hz, List.isEmpty_nil, if_pos rfl]

/-- Anything else after it does, behind the whole of the line. -/
theorem trimAscii_append_mark {line z : List UInt8} (h : ∃ b ∈ z, isAsciiWhitespace b = false) :
    ∃ rest, trimAscii (line ++ z) = trimAscii line ++ rest ∧ ∃ b ∈ rest, isAsciiWhitespace b = false := by
  obtain ⟨b, hb, hmark⟩ := h
  unfold trimAscii
  rw [List.dropWhile_append]
  split
  next hblank =>
    refine ⟨(z.dropWhile isAsciiWhitespace).rdropWhile isAsciiWhitespace, ?_, b,
      mem_rdropWhile_of_not (mem_dropWhile_of_not hb hmark) hmark, hmark⟩
    rw [List.isEmpty_iff.mp hblank]
    rfl
  next =>
    have hkept := mem_rdropWhile_of_not hb hmark
    obtain ⟨blank, hsplit⟩ := List.rdropWhile_prefix isAsciiWhitespace (l := line.dropWhile isAsciiWhitespace)
    have hnonempty : ¬(z.rdropWhile isAsciiWhitespace).isEmpty = true := by
      rw [List.isEmpty_iff]
      exact List.ne_nil_of_mem hkept
    refine ⟨blank ++ z.rdropWhile isAsciiWhitespace, ?_, b, List.mem_append_right _ hkept, hmark⟩
    rw [rdropWhile_append, if_neg hnonempty, ← List.append_assoc, hsplit]

/-- `none` for any rejection. -/
def decision (fromSlice : List UInt8 → Option Request) (reads : List (List UInt8)) : Option Request :=
  (serveOne fromSlice reads).toOption

/-- However the stream is delivered, the same request is served or none is. -/
def SameDecision (cap : Nat) (fromSlice : List UInt8 → Option Request) (s : List UInt8) : Prop :=
  ∀ a b, ChunkedRead.SplitInto cap s a → ChunkedRead.SplitInto cap s b →
    decision fromSlice a = decision fromSlice b

/-- The decision on the first `n` bytes of a stream. -/
def decisionAt (fromSlice : List UInt8 → Option Request) (s : List UInt8) (n : Nat) : Option Request :=
  if n ≤ maxRequestBytes then fromSlice (trimAscii (s.take n)) else none

/-- Where the reading of a stream can stop with a newline in hand. -/
def Reached (cap : Nat) (s : List UInt8) (n : Nat) : Prop :=
  s.idxOf lineFeed < n ∧ n ≤ s.length ∧ n ≤ s.idxOf lineFeed + cap ∧ n ≤ maxRequestBytes + 1

section Framing

variable {cap : Nat} {fromSlice : List UInt8 → Option Request} {s : List UInt8}

theorem decision_of_terminated {reads : List (List UInt8)} {n : Nat} (within : n ≤ s.length)
    (h : ChunkedRead.readLoop lineFeed [] (maxRequestBytes + 1) reads = (s.take n, true)) :
    decision fromSlice reads = decisionAt fromSlice s n := by
  have hlen : (s.take n).length = n := List.length_take_of_le within
  simp only [decision, serveOne, h, decisionAt, Bool.not_true, Bool.false_or, hlen, decide_eq_true_eq]
  by_cases hn : n ≤ maxRequestBytes
  · rw [if_neg (by omega), if_pos hn]
    cases fromSlice (trimAscii (s.take n)) <;> rfl
  · rw [if_pos (by omega), if_neg hn]
    rfl

theorem decision_of_unterminated {reads : List (List UInt8)}
    (h : (ChunkedRead.readLoop lineFeed [] (maxRequestBytes + 1) reads).2 = false) :
    decision fromSlice reads = none := by
  simp only [decision, serveOne, h, Bool.not_false, Bool.true_or, if_true]
  rfl

theorem decision_cases {reads : List (List UInt8)} (split : ChunkedRead.SplitInto cap s reads) :
    (decision fromSlice reads = none ∧ ∀ n, ¬Reached cap s n) ∨
      ∃ n, Reached cap s n ∧ decision fromSlice reads = decisionAt fromSlice s n := by
  have hout := @ChunkedRead.readLoop_outcome _ _ lineFeed _ [] _ _ List.not_mem_nil
    (Nat.succ_pos maxRequestBytes) split.2
  simp only [List.nil_append, split.1, List.length_nil, Nat.zero_add] at hout
  rcases hout with ⟨hfalse, hnone⟩ | ⟨n, hloop, after, within, near, capped⟩
  · refine .inl ⟨decision_of_unterminated hfalse, ?_⟩
    rintro n ⟨after, within, -, capped⟩
    have hmem := (ChunkedRead.mem_take_iff within).mpr after
    exact hnone ((List.take_prefix_take_left capped).subset hmem)
  · exact .inr ⟨n, ⟨after, within, near, capped⟩, decision_of_terminated within hloop⟩

/-- The decisions on the ends that can be reached are all the decisions there are. -/
theorem sameDecision_iff (positive : 0 < cap) :
    SameDecision cap fromSlice s ↔
      ∀ m n, Reached cap s m → Reached cap s n → decisionAt fromSlice s m = decisionAt fromSlice s n := by
  constructor
  · rintro same m n ⟨ma, mw, mn, mc⟩ ⟨na, nw, nn, nc⟩
    obtain ⟨a, ha, hloopA⟩ := ChunkedRead.exists_split positive ma mw mn mc
    obtain ⟨b, hb, hloopB⟩ := ChunkedRead.exists_split positive na nw nn nc
    rw [← decision_of_terminated mw hloopA, ← decision_of_terminated nw hloopB]
    exact same a b ha hb
  · intro same a b ha hb
    rcases @decision_cases _ fromSlice _ _ ha with ⟨hrejA, hno⟩ | ⟨m, hm, hdecA⟩
    · rcases @decision_cases _ fromSlice _ _ hb with ⟨hrejB, -⟩ | ⟨n, hn, -⟩
      · rw [hrejA, hrejB]
      · exact absurd hn (hno n)
    · rcases @decision_cases _ fromSlice _ _ hb with ⟨-, hno⟩ | ⟨n, hn, hdecB⟩
      · exact absurd hm (hno m)
      · rw [hdecA, hdecB]
        exact same m n hm hn

/-- Where what comes after the first line cannot change the decision: there is no line within the cap, or the
line is a request and all that one read can bring along with its end is blank and within the cap, or the line
is no request and neither is anything longer that such a read can bring. -/
def FramedAlone (cap : Nat) (fromSlice : List UInt8 → Option Request) (s : List UInt8) : Prop :=
  lineFeed ∉ s.take maxRequestBytes ∨
  ((fromSlice (trimAscii (s.take (s.idxOf lineFeed + 1)))).isSome = true ∧
    min s.length (s.idxOf lineFeed + cap) ≤ maxRequestBytes ∧
    ∀ b ∈ (s.take (s.idxOf lineFeed + cap)).drop (s.idxOf lineFeed + 1), isAsciiWhitespace b = true) ∨
  (fromSlice (trimAscii (s.take (s.idxOf lineFeed + 1))) = none ∧
    ∀ n, s.idxOf lineFeed + 1 < n → n ≤ min s.length (s.idxOf lineFeed + cap) → n ≤ maxRequestBytes →
      fromSlice (trimAscii (s.take n)) = none)

theorem reached_first (positive : 0 < cap) (h : lineFeed ∈ s.take maxRequestBytes) :
    s.idxOf lineFeed + 1 ≤ maxRequestBytes ∧ Reached cap s (s.idxOf lineFeed + 1) := by
  have hlen := List.idxOf_lt_length_of_mem (List.mem_of_mem_take h)
  have hlt : s.idxOf lineFeed < maxRequestBytes := by
    rcases Nat.le_total maxRequestBytes s.length with hle | hle
    · exact (ChunkedRead.mem_take_iff hle).mp h
    · omega
  exact ⟨hlt, by omega, hlen, by omega, by omega⟩

theorem decisionAt_of_no_line (h : lineFeed ∉ s.take maxRequestBytes) {n : Nat} (hn : Reached cap s n) :
    decisionAt fromSlice s n = none := by
  obtain ⟨after, within, -, -⟩ := hn
  refine if_neg fun hle => h ?_
  exact (List.take_prefix_take_left hle).subset ((ChunkedRead.mem_take_iff within).mpr after)

theorem take_split {i n : Nat} (h : i ≤ n) : s.take n = s.take i ++ (s.take n).drop i := by
  conv_lhs => rw [← List.take_append_drop i (s.take n)]
  rw [List.take_take, Nat.min_eq_left h]

/-- After a request, more bytes keep the decision exactly when they are blank and within the cap. -/
theorem decisionAt_eq_request_iff {request : Request} (first : s.idxOf lineFeed + 1 ≤ maxRequestBytes)
    (reach : Reached cap s (s.idxOf lineFeed + 1))
    (trailing : ∀ t r z, fromSlice t = some r → (∃ b ∈ z, isAsciiWhitespace b = false) → fromSlice (t ++ z) = none)
    (h : fromSlice (trimAscii (s.take (s.idxOf lineFeed + 1))) = some request) :
    (∀ n, Reached cap s n → decisionAt fromSlice s n = some request) ↔
      min s.length (s.idxOf lineFeed + cap) ≤ maxRequestBytes ∧
      ∀ b ∈ (s.take (s.idxOf lineFeed + cap)).drop (s.idxOf lineFeed + 1), isAsciiWhitespace b = true := by
  obtain ⟨-, hw, hn, -⟩ := reach
  constructor
  · intro hall
    have hlast := hall (min (min s.length (s.idxOf lineFeed + cap)) (maxRequestBytes + 1))
      ⟨by omega, by omega, by omega, by omega⟩
    unfold decisionAt at hlast
    split at hlast
    next hle =>
      have hend : min s.length (s.idxOf lineFeed + cap) ≤ maxRequestBytes := by omega
      refine ⟨hend, fun b hb => ?_⟩
      rw [Nat.min_eq_left (by omega), Nat.min_comm, ← List.take_eq_take_min, take_split hn] at hlast
      by_contra hmark
      obtain ⟨rest, hrest, hmarked⟩ := @trimAscii_append_mark (s.take (s.idxOf lineFeed + 1)) _
        ⟨b, hb, Bool.eq_false_iff.mpr hmark⟩
      rw [hrest, trailing _ _ _ h hmarked] at hlast
      cases hlast
    next => cases hlast
  · rintro ⟨hend, hblank⟩ n ⟨after, within, near, -⟩
    rw [decisionAt, if_pos (by omega), take_split (show s.idxOf lineFeed + 1 ≤ n from after)]
    rw [trimAscii_append_blank fun b hb => hblank b ?_]
    · exact h
    · exact ((List.take_sublist_take_left near).drop _).subset hb

end Framing

/-- Requests do not depend on how the stream is cut into reads exactly where nothing after the first line can
count. -/
theorem request_framing_iff {cap : Nat} {fromSlice : List UInt8 → Option Request} (positive : 0 < cap)
    (trailing : ∀ t r z, fromSlice t = some r → (∃ b ∈ z, isAsciiWhitespace b = false) →
      fromSlice (t ++ z) = none) (s : List UInt8) :
    SameDecision cap fromSlice s ↔ FramedAlone cap fromSlice s := by
  rw [sameDecision_iff positive]
  by_cases hline : lineFeed ∈ s.take maxRequestBytes
  · obtain ⟨first, reach⟩ := reached_first positive hline
    have hsame : (∀ m n, Reached cap s m → Reached cap s n →
        decisionAt fromSlice s m = decisionAt fromSlice s n) ↔
        ∀ n, Reached cap s n → decisionAt fromSlice s n = decisionAt fromSlice s (s.idxOf lineFeed + 1) :=
      ⟨fun h n hn => h n _ hn reach, fun h m n hm hn => (h m hm).trans (h n hn).symm⟩
    have hfirst : decisionAt fromSlice s (s.idxOf lineFeed + 1) =
        fromSlice (trimAscii (s.take (s.idxOf lineFeed + 1))) := if_pos first
    rw [hsame, hfirst, FramedAlone]
    cases hparse : fromSlice (trimAscii (s.take (s.idxOf lineFeed + 1))) with
    | some request =>
      rw [decisionAt_eq_request_iff first reach trailing hparse]
      simp [hline]
    | none =>
      simp only [hline, not_true, Option.isSome_none, Bool.false_eq_true, false_and, false_or, true_and]
      constructor
      · intro h n hlt hle hcap
        have hn := h n ⟨by omega, by omega, by omega, by omega⟩
        rwa [decisionAt, if_pos hcap] at hn
      · rintro h n ⟨after, within, near, -⟩
        unfold decisionAt
        split
        next hcap =>
          rcases Nat.lt_or_ge (s.idxOf lineFeed + 1) n with hlt | hge
          · exact h n hlt (by omega) hcap
          · rw [show n = s.idxOf lineFeed + 1 by omega]
            exact hparse
        next => rfl
  · refine iff_of_true (fun m n hm hn => ?_) (.inl hline)
    rw [decisionAt_of_no_line hline hm, decisionAt_of_no_line hline hn]

namespace Reference

/-- `{"op":"runtime"}` -/
def runtimeText : List UInt8 := [123, 34, 111, 112, 34, 58, 34, 114, 117, 110, 116, 105, 109, 101, 34, 125]

/-- `{"op":"held"}` -/
def heldText : List UInt8 := [123, 34, 111, 112, 34, 58, 34, 104, 101, 108, 100, 34, 125]

def runtimeLine : List UInt8 := runtimeText ++ [lineFeed]

def heldLine : List UInt8 := heldText ++ [lineFeed]

def parseOp (t : List UInt8) : Option Request :=
  if t = runtimeText then some .runtime else if t = heldText then some .held else none

theorem parseOp_trailing (t : List UInt8) (r : Request) (z : List UInt8) (h : parseOp t = some r)
    (hz : ∃ b ∈ z, isAsciiWhitespace b = false) : parseOp (t ++ z) = none := by
  obtain ⟨b, hb, -⟩ := hz
  have hne : z ≠ [] := List.ne_nil_of_mem hb
  have hpos := List.length_pos_of_ne_nil hne
  have short : ∀ text : List UInt8, text.length ≤ t.length → t ++ z ≠ text := by
    rintro text hlen rfl
    rw [List.length_append] at hlen
    omega
  unfold parseOp at h
  split at h
  next ht =>
    rw [parseOp, if_neg (short _ (by rw [ht])), if_neg (short _ (by rw [ht]; decide))]
  next =>
    split at h
    next ht =>
      rw [parseOp, if_neg ?_, if_neg (short _ (by rw [ht]))]
      intro heq
      have hhead := congrArg (List.take 8) heq
      rw [ht, List.take_append_of_le_length (by decide)] at hhead
      exact absurd hhead (by decide)
    next => cases h

end Reference

theorem request_framing_runtime : SameDecision 8192 Reference.parseOp Reference.runtimeLine := by
  refine (request_framing_iff (by decide) Reference.parseOp_trailing _).mpr (.inr (.inl ⟨?_, ?_, ?_⟩))
  · decide
  · decide
  · have hnone : (Reference.runtimeLine.take (Reference.runtimeLine.idxOf lineFeed + 8192)).drop
        (Reference.runtimeLine.idxOf lineFeed + 1) = [] := by decide
    rw [hnone]
    simp

/-- Two request lines that arrive in one read are refused; in a read each the first one is served. -/
theorem request_framing_two_lines :
    decision Reference.parseOp [Reference.runtimeLine ++ Reference.heldLine] = none ∧
    decision Reference.parseOp [Reference.runtimeLine, Reference.heldLine] = some .runtime ∧
    ¬SameDecision 8192 Reference.parseOp (Reference.runtimeLine ++ Reference.heldLine) := by
  have hrefused : decision Reference.parseOp [Reference.runtimeLine ++ Reference.heldLine] = none := by decide
  have hserved : decision Reference.parseOp [Reference.runtimeLine, Reference.heldLine] = some .runtime := by
    decide
  refine ⟨hrefused, hserved, fun same => ?_⟩
  have heq := same [Reference.runtimeLine ++ Reference.heldLine] [Reference.runtimeLine, Reference.heldLine]
    ⟨by simp, List.forall_mem_singleton.mpr ⟨by decide, by decide⟩⟩
    ⟨by simp, List.forall_mem_cons.mpr
      ⟨⟨by decide, by decide⟩, List.forall_mem_singleton.mpr ⟨by decide, by decide⟩⟩⟩
  rw [hrefused, hserved] at heq
  cases heq

end KeepAt
