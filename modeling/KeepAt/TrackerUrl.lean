import KeepAt.TextSpan
import KeepAt.TorrentFile

namespace KeepAt

def digitAt (raw : Bytes) (m : Nat) : Bool := (raw[m]?).any isAsciiDigit

theorem digitAt_iff {raw : Bytes} {m : Nat} :
    digitAt raw m = true ↔ ∃ b, raw[m]? = some b ∧ isAsciiDigit b = true := by
  cases h : raw[m]? <;> simp [digitAt, h]

/-- No digit stands before the index. -/
def RunStart (raw : Bytes) (k : Nat) : Prop := k = 0 ∨ digitAt raw (k - 1) = false

/-- A run of digits with a colon after it starts at the index. -/
structure LeakAt (raw : Bytes) (stop k : Nat) : Prop where
  start : RunStart raw k
  run : ∃ j, k < j ∧ j < stop ∧ (∀ m, k ≤ m → m < j → digitAt raw m = true) ∧ raw[j]? = some 58

theorem takeWhile_index {p : UInt8 → Bool} (l : Bytes) :
    (∀ m < (l.takeWhile p).length, (l[m]?).any p = true) ∧ ((l[(l.takeWhile p).length]?).any p = false) := by
  induction l with
  | nil => simp
  | cons b l ih =>
    cases hb : p b with
    | false => simp [hb]
    | true =>
      rw [List.takeWhile_cons_of_pos hb, List.length_cons]
      refine ⟨fun m hm => ?_, by simpa using ih.2⟩
      cases m with
      | zero => simpa using hb
      | succ m => simpa using ih.1 m (by omega)

/-- `n` digits from the index on, and no digit after them. -/
structure DigitRun (raw : Bytes) (stop i n : Nat) : Prop where
  le : i + n ≤ stop
  digits : ∀ m, i ≤ m → m < i + n → digitAt raw m = true
  ends : i + n < stop → digitAt raw (i + n) = false

/-- What the inner loop of `trunc_url` counts is the run of digits from its index on. -/
theorem digitRun_takeWhile {raw : Bytes} {stop i : Nat} (hstop : stop ≤ raw.length) (hi : i ≤ stop) :
    DigitRun raw stop i (((raw.take stop).drop i).takeWhile isAsciiDigit).length := by
  obtain ⟨hdigits, hend⟩ := takeWhile_index (p := isAsciiDigit) ((raw.take stop).drop i)
  have hlen := (List.takeWhile_prefix (p := isAsciiDigit) (l := (raw.take stop).drop i)).length_le
  generalize (((raw.take stop).drop i).takeWhile isAsciiDigit).length = n at hdigits hend hlen ⊢
  rw [List.length_drop, List.length_take, Nat.min_eq_left hstop] at hlen
  have hget : ∀ m, i + m < stop → ((raw.take stop).drop i)[m]? = raw[i + m]? := fun m hm => by
    rw [List.getElem?_drop, List.getElem?_take_of_lt hm]
  refine ⟨by omega, fun m him hm => ?_, fun hlt => ?_⟩
  next =>
    have h := hdigits (m - i) (by omega)
    rwa [hget _ (by omega), Nat.add_sub_cancel' him] at h
  next => rwa [hget _ hlt] at hend

theorem colon_not_digit {raw : Bytes} {j : Nat} (h : raw[j]? = some 58) : digitAt raw j = false := by
  rw [digitAt, h]
  rfl

/-- The loop can stand at the index: it is past the end, or no run of digits goes through it. -/
def Boundary (raw : Bytes) (stop i : Nat) : Prop := stop ≤ i ∨ RunStart raw i ∨ digitAt raw i = false

/-- Where the loop stops: at the first leak that a URL stands before, or at the end without one. -/
def StopsAt (raw : Bytes) (authEnd stop i r : Nat) : Prop :=
  (∀ k, i ≤ k → k < r → LeakAt raw stop k → authEnd ≤ k → isUrl (raw.take k) = false) ∧
    (r = stop ∨ i ≤ r ∧ r < stop ∧ LeakAt raw stop r ∧ authEnd ≤ r ∧ isUrl (raw.take r) = true)

theorem LeakAt.digit {raw : Bytes} {stop k : Nat} (h : LeakAt raw stop k) : digitAt raw k = true := by
  obtain ⟨j, hkj, -, hdigits, -⟩ := h.run
  exact hdigits k le_rfl hkj

/-- Nothing is missed when the loop moves on over indices where no leak begins. -/
theorem StopsAt.of_later {raw : Bytes} {authEnd stop i i' r : Nat} (h : StopsAt raw authEnd stop i' r)
    (hle : i ≤ i') (hnone : ∀ k, i ≤ k → k < i' → LeakAt raw stop k → authEnd ≤ k → isUrl (raw.take k) = false) :
    StopsAt raw authEnd stop i r := by
  refine ⟨fun k hik hkr hleak hauth => ?_, ?_⟩
  next =>
    by_cases hk : k < i'
    next => exact hnone k hik hk hleak hauth
    next => exact h.1 k (Nat.not_lt.mp hk) hkr hleak hauth
  next => exact h.2.imp_right (fun hr => ⟨hle.trans hr.1, hr.2⟩)

/-- No leak begins at a byte that is not a digit. -/
theorem StopsAt.of_succ {raw : Bytes} {authEnd stop i r : Nat} (h : StopsAt raw authEnd stop (i + 1) r)
    (hdigit : digitAt raw i = false) : StopsAt raw authEnd stop i r := by
  refine h.of_later (Nat.le_succ i) (fun k hik hk hleak _ => ?_)
  obtain rfl : k = i := Nat.le_antisymm (Nat.le_of_lt_succ hk) hik
  exact absurd hleak.digit (by simp [hdigit])

namespace DigitRun

variable {raw : Bytes} {authEnd stop i n r : Nat}

theorem runStart (run : DigitRun raw stop i n) (hn : n ≠ 0) (hi : Boundary raw stop i) : RunStart raw i := by
  have hle := run.le
  rcases hi with hge | hstart | hdigit
  · omega
  · exact hstart
  · exact absurd (run.digits i le_rfl (by omega)) (by simp [hdigit])

/-- No leak begins inside the run. -/
theorem not_leakAt (run : DigitRun raw stop i n) {k : Nat} (hik : i < k) (hk : k < i + n) : ¬ LeakAt raw stop k := by
  intro hleak
  rcases hleak.start with hzero | hbefore
  · omega
  · exact absurd (run.digits (k - 1) (by omega) (by omega)) (by simp [hbefore])

theorem leakAt_iff (run : DigitRun raw stop i n) (hn : n ≠ 0) (hstart : RunStart raw i) :
    LeakAt raw stop i ↔ i + n < stop ∧ raw[i + n]? = some 58 := by
  constructor
  · rintro ⟨-, j, hij, hj, hrun, hcolon⟩
    have hjn : j = i + n := by
      rcases Nat.lt_trichotomy j (i + n) with h | h | h
      · exact absurd (run.digits j hij.le h) (by simp [colon_not_digit hcolon])
      · exact h
      · exact absurd (hrun (i + n) (by omega) h) (by simp [run.ends (by omega)])
    exact hjn ▸ ⟨hj, hcolon⟩
  · rintro ⟨hj, hcolon⟩
    exact ⟨hstart, i + n, by omega, hj, run.digits, hcolon⟩

theorem boundary (run : DigitRun raw stop i n) : Boundary raw stop (i + n) := by
  by_cases hj : i + n < stop
  next => exact Or.inr (Or.inr (run.ends hj))
  next => exact Or.inl (Nat.not_lt.mp hj)

/-- Over a run the loop may move on at once if no leak is cut at its start. -/
theorem stopsAt (run : DigitRun raw stop i n) (h : StopsAt raw authEnd stop (i + n) r)
    (hfirst : LeakAt raw stop i → authEnd ≤ i → isUrl (raw.take i) = false) : StopsAt raw authEnd stop i r := by
  refine h.of_later (Nat.le_add_right i n) (fun k hik hk hleak hauth => ?_)
  rcases Nat.lt_or_eq_of_le hik with hlt | rfl
  · exact absurd hleak (run.not_leakAt hlt hk)
  · exact hfirst hleak hauth

end DigitRun

theorem leakLoop_stopsAt {raw : Bytes} {authEnd stop : Nat} (hstop : stop ≤ raw.length) (fuel i : Nat)
    (hfuel : stop ≤ i + fuel) (hi : Boundary raw stop i) :
    StopsAt raw authEnd stop i (leakLoop raw authEnd stop fuel i) := by
  induction fuel generalizing i with
  | zero => exact ⟨fun k hik hk => absurd hk (by simp only [leakLoop]; omega), Or.inl rfl⟩
  | succ fuel ih =>
    rw [leakLoop]
    by_cases hlt : i < stop
    next =>
      have run := digitRun_takeWhile hstop hlt.le
      rw [if_pos hlt]
      dsimp only
      generalize (((raw.take stop).drop i).takeWhile isAsciiDigit).length = n at run
      by_cases hn : n = 0
      next =>
        subst hn
        have hdigit : digitAt raw i = false := run.ends hlt
        rw [if_pos rfl]
        exact (ih (i + 1) (by omega) (Or.inr (Or.inl (Or.inr hdigit)))).of_succ hdigit
      next =>
        have hstart := run.runStart hn hi
        rw [if_neg hn]
        by_cases hcut : i + n < stop ∧ raw[i + n]? = some 58 ∧ authEnd ≤ i
        next =>
          obtain ⟨hj, hcolon, hauth⟩ := hcut
          rw [if_pos ⟨hj, hcolon, hauth⟩]
          cases hurl : isUrl (raw.take i) with
          | true =>
            have hleak := (run.leakAt_iff hn hstart).mpr ⟨hj, hcolon⟩
            exact ⟨fun k hik hk => absurd hk (by simp; omega), Or.inr ⟨le_rfl, hlt, hleak, hauth, hurl⟩⟩
          | false =>
            have hdigit := colon_not_digit hcolon
            have hlater := ih (i + n + 1) (by omega) (Or.inr (Or.inl (Or.inr hdigit)))
            exact run.stopsAt (hlater.of_succ hdigit) fun _ _ => hurl
        next =>
          rw [if_neg hcut]
          refine run.stopsAt (ih (i + n) (by omega) run.boundary) (fun hleak hauth => ?_)
          obtain ⟨hj, hcolon⟩ := (run.leakAt_iff hn hstart).mp hleak
          exact absurd ⟨hj, hcolon, hauth⟩ hcut
    next =>
      rw [if_neg hlt]
      exact ⟨fun k hik hk => absurd hk (by omega), Or.inl rfl⟩

theorem isSchemeByte_ne_colon {b : UInt8} (h : isSchemeByte b = true) : b ≠ 58 := by
  rintro rfl
  exact absurd h (by decide)

theorem isUrl_iff (s : Bytes) :
    isUrl s = true ↔ ∃ scheme rest, s = scheme ++ (schemeSeparator ++ rest) ∧ scheme ≠ [] ∧
      (∀ b ∈ scheme, isSchemeByte b = true) ∧ rest ≠ [] := by
  constructor
  · intro h
    obtain ⟨hne, hsep, hlen⟩ := of_decide_eq_true h
    have hscheme := List.takeWhile_append_dropWhile (p := isSchemeByte) (l := s)
    have hdrop : s.drop (s.takeWhile isSchemeByte).length = s.dropWhile isSchemeByte :=
      (congrArg (List.drop (s.takeWhile isSchemeByte).length) hscheme).symm.trans List.drop_left
    have hafter := List.take_append_drop 3 (s.dropWhile isSchemeByte)
    rw [← hdrop, hsep] at hafter
    refine ⟨s.takeWhile isSchemeByte, (s.drop (s.takeWhile isSchemeByte).length).drop 3, ?_, ?_, ?_, ?_⟩
    · rw [hafter, hdrop, hscheme]
    · exact fun hnil => hne (by rw [hnil]; rfl)
    · exact List.all_eq_true.mp List.all_takeWhile
    · rw [List.drop_drop]
      exact List.ne_nil_of_length_pos (by rw [List.length_drop]; omega)
  · rintro ⟨scheme, rest, rfl, hne, hbytes, hrest⟩
    have htake : (scheme ++ (schemeSeparator ++ rest)).takeWhile isSchemeByte = scheme :=
      takeWhile_append_cons hbytes (by decide) _
    have hpos := List.length_pos_of_ne_nil hrest
    refine decide_eq_true ?_
    rw [htake, List.drop_left]
    refine ⟨fun hz => hne (List.length_eq_zero_iff.mp hz), rfl, ?_⟩
    simp only [List.length_append, schemeSeparator, List.length_cons, List.length_nil]
    omega

/-- The authority of a URL ends at the next slash. -/
theorem authorityEnd_eq {scheme : Bytes} (h : ∀ b ∈ scheme, isSchemeByte b = true) (rest : Bytes) :
    authorityEnd (scheme ++ (schemeSeparator ++ rest)) =
      scheme.length + 3 + (rest.takeWhile (· ≠ 47)).length := by
  have hfind : (List.range (scheme ++ (schemeSeparator ++ rest)).length).find?
      (fun p => ((scheme ++ (schemeSeparator ++ rest)).drop p).take 3 = schemeSeparator) = some scheme.length := by
    rw [List.find?_range_eq_some]
    refine ⟨?_, ?_, fun q hq => ?_⟩
    · rw [List.drop_left]
      rfl
    · simp [schemeSeparator]
    · obtain ⟨b, hb⟩ : ∃ b, scheme[q]? = some b := ⟨_, List.getElem?_eq_getElem hq⟩
      have hhead : ((scheme ++ (schemeSeparator ++ rest)).drop q).take 3 ≠ schemeSeparator := by
        intro hsep
        have hzero := congrArg (fun l => l[0]?) hsep
        simp only [List.getElem?_take_of_lt (by decide : 0 < 3), List.getElem?_drop, Nat.add_zero,
          List.getElem?_append_left hq, hb] at hzero
        exact isSchemeByte_ne_colon (h b (List.mem_of_getElem? hb)) (Option.some.inj hzero)
      simpa using hhead
  have hdrop : (scheme ++ (schemeSeparator ++ rest)).drop (scheme.length + 3) = rest := by
    rw [← List.drop_drop, List.drop_left]
    rfl
  rw [authorityEnd, hfind]
  simp only [hdrop]

theorem urlPrefix_of_isUrl {raw : Bytes} {e : Nat} (h : isUrl (raw.take e) = true) (fuel : Nat) :
    urlPrefix raw (fuel + 1) e = raw.take e := by
  have hne : e ≠ 0 := by
    rintro rfl
    rw [List.take_zero] at h
    exact absurd h (by decide)
  rw [urlPrefix, if_neg hne, if_pos h]

theorem urlPrefix_length_le (raw : Bytes) (fuel e : Nat) : (urlPrefix raw fuel e).length ≤ e := by
  induction fuel generalizing e with
  | zero => exact Nat.zero_le _
  | succ fuel ih =>
    simp only [urlPrefix]
    split
    next => exact Nat.zero_le _
    next =>
      split
      next => exact List.length_take_le e raw
      next =>
        split
        next p hp =>
          obtain ⟨idx, -, rfl⟩ := Option.map_eq_some_iff.mp hp
          have hlen := List.length_take_le (e - 1) raw
          exact (ih _).trans (by omega)
        next => exact Nat.zero_le _

/-- A loop run for at most so many rounds; nothing if it has not ended by then. -/
def loopWithin {α β : Type} (step : α → α ⊕ β) : Nat → α → Option β
  | 0, _ => none
  | rounds + 1, a =>
    match step a with
    | .inl a => loopWithin step rounds a
    | .inr b => some b

/-- One round of the loop over the digit runs: the next index, or the end it leaves. -/
def leakStep (raw : Bytes) (authEnd stop i : Nat) : Nat ⊕ Nat :=
  if i < stop then
    let digits := (((raw.take stop).drop i).takeWhile isAsciiDigit).length
    let j := i + digits
    if digits = 0 then .inl (i + 1)
    else if j < stop ∧ raw[j]? = some 58 ∧ authEnd ≤ i then
      if isUrl (raw.take i) then .inr i else .inl (j + 1)
    else .inl j
  else .inr stop

/-- One round of the loop over the path segments. -/
def prefixStep (raw : Bytes) (e : Nat) : Nat ⊕ Bytes :=
  if e = 0 then .inr []
  else if isUrl (raw.take e) then .inr (raw.take e)
  else
    match lastSlash (raw.take (e - 1)) with
    | some p => .inl p
    | none => .inr []

/-- `trunc_url` with both loops limited to so many rounds. -/
def truncUrlWithin (rounds : Nat) (raw : Bytes) : Option Bytes :=
  (loopWithin (leakStep raw (authorityEnd raw) (raw.takeWhile isPrintable).length) rounds 0).bind
    (loopWithin (prefixStep raw) rounds)

theorem leakLoop_succ (raw : Bytes) (authEnd stop fuel i : Nat) :
    leakLoop raw authEnd stop (fuel + 1) i =
      match leakStep raw authEnd stop i with
      | .inl next => leakLoop raw authEnd stop fuel next
      | .inr r => r := by
  rw [leakLoop, leakStep]
  dsimp only
  split_ifs <;> rfl

theorem leakStep_progress {raw : Bytes} {authEnd stop i next : Nat} (hstop : stop ≤ raw.length)
    (h : leakStep raw authEnd stop i = .inl next) : i < next ∧ next ≤ stop := by
  unfold leakStep at h
  split at h
  next hlt =>
    have hle := (digitRun_takeWhile hstop hlt.le).le
    dsimp only at h
    split_ifs at h <;> cases h <;> omega
  next => cases h

/-- Each round of the first loop moves on, so it ends, with what the model computes. -/
theorem leakLoop_within {raw : Bytes} {authEnd stop : Nat} (hstop : stop ≤ raw.length) {rounds fuel i : Nat}
    (hi : i ≤ stop) (hrounds : stop < i + rounds) (hfuel : stop ≤ i + fuel) :
    loopWithin (leakStep raw authEnd stop) rounds i = some (leakLoop raw authEnd stop fuel i) := by
  induction rounds generalizing fuel i with
  | zero => omega
  | succ rounds ih =>
    rw [loopWithin]
    cases fuel with
    | zero =>
      have hend : leakStep raw authEnd stop i = .inr stop := if_neg (by omega)
      rw [hend, leakLoop]
    | succ fuel =>
      rw [leakLoop_succ]
      cases hstep : leakStep raw authEnd stop i with
      | inl next =>
        have hnext := leakStep_progress hstop hstep
        exact ih hnext.2 (by omega) (by omega)
      | inr r => rfl

theorem lastSlash_lt {s : Bytes} {p : Nat} (h : lastSlash s = some p) : p < s.length := by
  obtain ⟨idx, hidx, rfl⟩ := Option.map_eq_some_iff.mp h
  have hlt := (List.findIdx?_eq_some_iff_getElem.mp hidx).1
  rw [List.length_reverse] at hlt
  omega

theorem urlPrefix_succ (raw : Bytes) (fuel e : Nat) :
    urlPrefix raw (fuel + 1) e =
      match prefixStep raw e with
      | .inl p => urlPrefix raw fuel p
      | .inr r => r := by
  rw [urlPrefix, prefixStep]
  split_ifs
  next => rfl
  next => rfl
  next => cases lastSlash (raw.take (e - 1)) <;> rfl

theorem prefixStep_progress {raw : Bytes} {e p : Nat} (h : prefixStep raw e = .inl p) : p < e := by
  unfold prefixStep at h
  split_ifs at h
  split at h
  next q hq =>
    cases h
    have hlt := lastSlash_lt hq
    rw [List.length_take] at hlt
    omega
  next => cases h

/-- Each round of the second loop leaves a shorter prefix. -/
theorem urlPrefix_within {raw : Bytes} {rounds fuel e : Nat} (hrounds : e < rounds) (hfuel : e < fuel) :
    loopWithin (prefixStep raw) rounds e = some (urlPrefix raw fuel e) := by
  induction rounds generalizing fuel e with
  | zero => omega
  | succ rounds ih =>
    cases fuel with
    | zero => omega
    | succ fuel =>
      rw [loopWithin, urlPrefix_succ]
      cases hstep : prefixStep raw e with
      | inl p =>
        have hlt := prefixStep_progress hstep
        exact ih (by omega) (by omega)
      | inr r => rfl

theorem leakLoop_le {raw : Bytes} {authEnd stop : Nat} (hstop : stop ≤ raw.length) :
    leakLoop raw authEnd stop raw.length 0 ≤ stop := by
  rcases (leakLoop_stopsAt hstop raw.length 0 (by omega) (Or.inr (Or.inl (Or.inl rfl)))).2 with hr | hr
  · exact hr.le
  · exact hr.2.1.le

theorem printable_length_le (raw : Bytes) : (raw.takeWhile isPrintable).length ≤ raw.length :=
  (List.takeWhile_prefix _).length_le

/-- Both loops end within one more round than the input has bytes. -/
theorem truncUrlWithin_length (raw : Bytes) : truncUrlWithin (raw.length + 1) raw = some (truncUrl raw) := by
  have hstop := printable_length_le raw
  have hleak : loopWithin (leakStep raw (authorityEnd raw) (raw.takeWhile isPrintable).length)
      (raw.length + 1) 0 = some (leakLoop raw (authorityEnd raw) (raw.takeWhile isPrintable).length raw.length 0) :=
    leakLoop_within hstop (Nat.zero_le _) (by omega) (by omega)
  have hle : leakLoop raw (authorityEnd raw) (raw.takeWhile isPrintable).length raw.length 0 ≤ _ :=
    leakLoop_le hstop
  rw [truncUrlWithin, hleak, Option.bind_some, urlPrefix_within (by omega) (Nat.lt_succ_self _)]
  rfl

/-- Where the first loop of `trunc_url` ends. -/
def urlStop (raw : Bytes) : Nat :=
  leakLoop raw (authorityEnd raw) (raw.takeWhile isPrintable).length raw.length 0

theorem urlStop_stopsAt (raw : Bytes) :
    StopsAt raw (authorityEnd raw) (raw.takeWhile isPrintable).length 0 (urlStop raw) :=
  leakLoop_stopsAt (printable_length_le raw) raw.length 0 (by have := printable_length_le raw; omega)
    (Or.inr (Or.inl (Or.inl rfl)))

theorem urlStop_le (raw : Bytes) : urlStop raw ≤ (raw.takeWhile isPrintable).length :=
  leakLoop_le (printable_length_le raw)

theorem truncUrl_of_stop {raw : Bytes} {e : Nat} (he : urlStop raw = e) (h : isUrl (raw.take e) = true) :
    truncUrl raw = raw.take e := by
  subst he
  exact urlPrefix_of_isUrl h _

theorem truncUrl_length_le (raw : Bytes) : (truncUrl raw).length ≤ urlStop raw := urlPrefix_length_le raw _ _

/-- A leak inside a prefix is a leak of the whole. -/
theorem leakAt_of_initial {raw v : Bytes} {stop k : Nat} (hv : v <+: raw) (hlen : v.length ≤ stop)
    (h : LeakAt v v.length k) : LeakAt raw stop k := by
  obtain ⟨more, rfl⟩ := hv
  have hget : ∀ m, m < v.length → (v ++ more)[m]? = v[m]? := fun m hm => List.getElem?_append_left hm
  have hdigit : ∀ m, m < v.length → digitAt (v ++ more) m = digitAt v m := fun m hm => by
    rw [digitAt, digitAt, hget m hm]
  obtain ⟨j, hkj, hj, hrun, hcolon⟩ := h.run
  refine ⟨?_, j, hkj, by omega, fun m hkm hmj => ?_, (hget j hj).trans hcolon⟩
  · exact h.start.imp_right (fun hb => (hdigit (k - 1) (by omega)).trans hb)
  · exact (hdigit m (by omega)).trans (hrun m hkm hmj)

theorem authorityEnd_le_of_initial {raw v : Bytes} {k : Nat} (hv : v <+: raw) (hurl : isUrl v = true)
    (hk : k < v.length) (h : authorityEnd v ≤ k) : authorityEnd raw ≤ k := by
  obtain ⟨more, rfl⟩ := hv
  obtain ⟨scheme, rest, rfl, -, hbytes, -⟩ := (isUrl_iff v).mp hurl
  have hassoc : scheme ++ (schemeSeparator ++ rest) ++ more = scheme ++ (schemeSeparator ++ (rest ++ more)) := by
    simp only [List.append_assoc]
  rw [authorityEnd_eq hbytes] at h
  rw [hassoc, authorityEnd_eq hbytes]
  have hshort : (rest.takeWhile (· ≠ 47)).length < rest.length := by
    simp only [List.length_append, schemeSeparator, List.length_cons, List.length_nil] at hk
    omega
  rw [List.takeWhile_append, if_neg (by omega)]
  exact h

/-- What is left is left as it is. -/
theorem truncUrl_idempotent (raw : Bytes) : truncUrl (truncUrl raw) = truncUrl raw := by
  obtain ⟨hinitial, hempty | hurl⟩ := truncUrl_spec raw
  next => rw [hempty]; rfl
  next =>
    have hnone := (urlStop_stopsAt raw).1
    have hbound := urlStop_le raw
    have hlen := truncUrl_length_le raw
    generalize truncUrl raw = v at hinitial hurl hlen
    have hprintable : v.takeWhile isPrintable = v := by
      have hin : v <+: raw.takeWhile isPrintable :=
        List.prefix_of_prefix_length_le hinitial (List.takeWhile_prefix _) (hlen.trans hbound)
      exact takeWhile_of_all (fun b hb => List.all_eq_true.mp List.all_takeWhile b (hin.subset hb))
    have hend : urlStop v = v.length := by
      have hstops := (urlStop_stopsAt v).2
      rw [hprintable] at hstops
      rcases hstops with hr | ⟨-, hr, hleak, hauth, hcut⟩
      · exact hr
      · have hwhole := leakAt_of_initial hinitial (hlen.trans hbound) hleak
        have hsame : raw.take (urlStop v) = v.take (urlStop v) := by
          obtain ⟨more, hmore⟩ := hinitial
          rw [← hmore, List.take_append_of_le_length hr.le]
        have huncut := hnone (urlStop v) (Nat.zero_le _) (hr.trans_le hlen) hwhole
          (authorityEnd_le_of_initial hinitial hurl hr hauth)
        rw [hsame, hcut] at huncut
        cases huncut
    have htake : v.take v.length = v := List.take_length
    rw [truncUrl_of_stop hend (by rwa [htake]), htake]

/-- A URL with an authority and a path. -/
def urlOf (scheme authority path : Bytes) : Bytes :=
  scheme ++ (schemeSeparator ++ (authority ++ 47 :: path))

/-- Printable, not ending in a digit, and with no colon after a digit from the authority's end on. -/
structure CleanUrl (scheme authority path : Bytes) : Prop where
  scheme_ne : scheme ≠ []
  scheme_bytes : ∀ b ∈ scheme, isSchemeByte b = true
  authority_slash : 47 ∉ authority
  printable : ∀ b ∈ urlOf scheme authority path, isPrintable b = true
  last : ∀ b ∈ (urlOf scheme authority path).getLast?, isAsciiDigit b = false
  clean : ∀ front d rest, 47 :: path = front ++ d :: 58 :: rest → isAsciiDigit d = false

section Clean

variable {scheme authority path : Bytes}

theorem CleanUrl.accepted (h : CleanUrl scheme authority path) : isUrl (urlOf scheme authority path) = true :=
  (isUrl_iff _).mpr ⟨scheme, authority ++ 47 :: path, rfl, h.scheme_ne, h.scheme_bytes, by simp⟩

theorem CleanUrl.authorityEnd_append (h : CleanUrl scheme authority path) (more : Bytes) :
    authorityEnd (urlOf scheme authority path ++ more) = scheme.length + 3 + authority.length := by
  have hassoc : urlOf scheme authority path ++ more =
      scheme ++ (schemeSeparator ++ (authority ++ 47 :: (path ++ more))) := by
    simp [urlOf]
  rw [hassoc, authorityEnd_eq h.scheme_bytes, takeWhile_ne_append_cons h.authority_slash]

theorem split_at_pair {s : Bytes} {m : Nat} {a b : UInt8} (ha : s[m]? = some a) (hb : s[m + 1]? = some b) :
    s = s.take m ++ a :: b :: s.drop (m + 2) := by
  obtain ⟨hm, rfl⟩ := List.getElem?_eq_some_iff.mp ha
  obtain ⟨hm', rfl⟩ := List.getElem?_eq_some_iff.mp hb
  rw [← List.drop_eq_getElem_cons hm', ← List.drop_eq_getElem_cons hm, List.take_append_drop]

/-- From the slash after the authority on, no colon follows a digit. -/
theorem CleanUrl.not_pair (h : CleanUrl scheme authority path) {m : Nat}
    (hm : scheme.length + 3 + authority.length ≤ m) (hdigit : digitAt (urlOf scheme authority path) m = true) :
    (urlOf scheme authority path)[m + 1]? ≠ some 58 := by
  intro hcolon
  have hsplit : urlOf scheme authority path = (scheme ++ (schemeSeparator ++ authority)) ++ 47 :: path := by
    simp [urlOf]
  have hlen : (scheme ++ (schemeSeparator ++ authority)).length = scheme.length + 3 + authority.length := by
    simp only [List.length_append, schemeSeparator, List.length_cons, List.length_nil]
    omega
  have hget : ∀ q, scheme.length + 3 + authority.length ≤ q →
      (urlOf scheme authority path)[q]? = (47 :: path)[q - (scheme.length + 3 + authority.length)]? := fun q hq => by
    rw [hsplit, List.getElem?_append_right (hlen ▸ hq), hlen]
  obtain ⟨d, hd, hdig⟩ := digitAt_iff.mp hdigit
  rw [hget _ hm] at hd
  rw [hget _ (by omega), Nat.succ_sub hm] at hcolon
  have hfalse := h.clean _ d _ (split_at_pair hd hcolon)
  rw [hdig] at hfalse
  cases hfalse

/-- No leak starts inside the path. -/
theorem CleanUrl.not_leakAt (h : CleanUrl scheme authority path) {more : Bytes} {stop k : Nat}
    (hk : scheme.length + 3 + authority.length ≤ k) (hlt : k < (urlOf scheme authority path).length) :
    ¬ LeakAt (urlOf scheme authority path ++ more) stop k := by
  intro hleak
  obtain ⟨j, hkj, -, hrun, hcolon⟩ := hleak.run
  have hget : ∀ m, m < (urlOf scheme authority path).length →
      (urlOf scheme authority path ++ more)[m]? = (urlOf scheme authority path)[m]? :=
    fun m hm => List.getElem?_append_left hm
  have hdigit : ∀ m, m < (urlOf scheme authority path).length → k ≤ m → m < j →
      digitAt (urlOf scheme authority path) m = true := fun m hm hkm hmj => by
    rw [digitAt, ← hget m hm]
    exact hrun m hkm hmj
  by_cases hj : j < (urlOf scheme authority path).length
  next =>
    rw [hget j hj] at hcolon
    refine h.not_pair (m := j - 1) (by omega) (hdigit (j - 1) (by omega) (by omega) (by omega)) ?_
    rwa [Nat.sub_add_cancel (by omega)]
  next =>
    have hlast := hdigit ((urlOf scheme authority path).length - 1) (by omega) (by omega) (by omega)
    obtain ⟨b, hb, hdig⟩ := digitAt_iff.mp hlast
    rw [← List.getLast?_eq_getElem?] at hb
    rw [h.last b hb] at hdig
    cases hdig

/-- The loop passes over a clean URL. -/
theorem CleanUrl.le_urlStop (h : CleanUrl scheme authority path) (more : Bytes) :
    (urlOf scheme authority path).length ≤ urlStop (urlOf scheme authority path ++ more) := by
  have hstops := (urlStop_stopsAt (urlOf scheme authority path ++ more)).2
  rw [h.authorityEnd_append] at hstops
  rcases hstops with hr | ⟨-, -, hleak, hauth, -⟩
  · rw [hr, List.takeWhile_append_of_pos h.printable, List.length_append]
    exact Nat.le_add_right _ _
  · by_contra hlt
    exact h.not_leakAt hauth (Nat.not_le.mp hlt) hleak

theorem CleanUrl.truncUrl_append (h : CleanUrl scheme authority path) {more : Bytes}
    (hle : urlStop (urlOf scheme authority path ++ more) ≤ (urlOf scheme authority path).length) :
    truncUrl (urlOf scheme authority path ++ more) = urlOf scheme authority path := by
  have hstop := le_antisymm hle (h.le_urlStop more)
  have htake : (urlOf scheme authority path ++ more).take (urlOf scheme authority path).length =
      urlOf scheme authority path := List.take_left
  rw [truncUrl_of_stop hstop (by rw [htake]; exact h.accepted), htake]

theorem CleanUrl.truncUrl_self (h : CleanUrl scheme authority path) :
    truncUrl (urlOf scheme authority path) = urlOf scheme authority path := by
  have hle : urlStop (urlOf scheme authority path ++ []) ≤ (urlOf scheme authority path).length := by
    rw [List.append_nil]
    exact (urlStop_le _).trans (printable_length_le _)
  have htrunc := h.truncUrl_append hle
  rwa [List.append_nil] at htrunc

theorem printable_of_digit {b : UInt8} (h : isAsciiDigit b = true) : isPrintable b = true := by
  have hrange := of_decide_eq_true h
  refine decide_eq_true ?_
  simp only [UInt8.le_iff_toNat_le, UInt8.reduceToNat] at hrange ⊢
  omega

/-- A run of digits and a colon after a clean URL is a leak. -/
theorem CleanUrl.leakAt_end (h : CleanUrl scheme authority path) {digits : Bytes} (hne : digits ≠ [])
    (hdigits : ∀ b ∈ digits, isAsciiDigit b = true) (rest : Bytes) :
    LeakAt (urlOf scheme authority path ++ (digits ++ 58 :: rest))
      ((urlOf scheme authority path ++ (digits ++ 58 :: rest)).takeWhile isPrintable).length
      (urlOf scheme authority path).length := by
  have hpos := List.length_pos_of_ne_nil hne
  have hprintable : ∀ b ∈ urlOf scheme authority path ++ (digits ++ [58]), isPrintable b = true := by
    intro b hb
    simp only [List.mem_append, List.mem_singleton] at hb
    rcases hb with hb | hb | rfl
    · exact h.printable b hb
    · exact printable_of_digit (hdigits b hb)
    · decide
  have hsplit : urlOf scheme authority path ++ (digits ++ 58 :: rest) =
      (urlOf scheme authority path ++ (digits ++ [58])) ++ rest := by simp
  have hstop : (urlOf scheme authority path).length + digits.length + 1 ≤
      ((urlOf scheme authority path ++ (digits ++ 58 :: rest)).takeWhile isPrintable).length := by
    rw [hsplit, List.takeWhile_append_of_pos hprintable]
    simp only [List.length_append, List.length_singleton]
    omega
  refine ⟨Or.inr ?_, (urlOf scheme authority path).length + digits.length, by omega, by omega,
    fun m hm hmj => ?_, ?_⟩
  · have hurl : 0 < (urlOf scheme authority path).length := by simp [urlOf, schemeSeparator]
    rw [digitAt, List.getElem?_append_left (by omega), ← List.getLast?_eq_getElem?]
    cases hlast : (urlOf scheme authority path).getLast? with
    | none => rfl
    | some b => exact h.last b hlast
  · rw [digitAt_iff, List.getElem?_append_right hm, List.getElem?_append_left (by omega)]
    have hlt : m - (urlOf scheme authority path).length < digits.length := by omega
    exact ⟨_, List.getElem?_eq_getElem hlt, hdigits _ (List.getElem_mem hlt)⟩
  · rw [List.getElem?_append_right (by omega), List.getElem?_append_right (by omega)]
    simp

/-- The first leak after a clean URL is where the URL ends. -/
theorem CleanUrl.truncUrl_leak (h : CleanUrl scheme authority path) {digits : Bytes} (hne : digits ≠ [])
    (hdigits : ∀ b ∈ digits, isAsciiDigit b = true) (rest : Bytes) :
    truncUrl (urlOf scheme authority path ++ (digits ++ 58 :: rest)) = urlOf scheme authority path := by
  refine h.truncUrl_append (Nat.not_lt.mp (fun hgt => ?_))
  have hurl : isUrl ((urlOf scheme authority path ++ (digits ++ 58 :: rest)).take
      (urlOf scheme authority path).length) = true := by
    rw [List.take_left]
    exact h.accepted
  have hauth := h.authorityEnd_append (digits ++ 58 :: rest)
  have hlen : scheme.length + 3 + authority.length < (urlOf scheme authority path).length := by
    simp only [urlOf, List.length_append, schemeSeparator, List.length_cons, List.length_nil]
    omega
  have hleak := h.leakAt_end hne hdigits rest
  have hcut := (urlStop_stopsAt _).1 _ (Nat.zero_le _) hgt hleak (by omega)
  rw [hurl] at hcut
  cases hcut

end Clean

/-- Clean URLs come back whole, alone or with leaked bencode after them; whatever the bytes, the loops end
and leave a prefix that is empty or a URL, and that a second pass leaves alone. -/
theorem truncUrl_recovers :
    (∀ scheme authority path, CleanUrl scheme authority path →
      truncUrl (urlOf scheme authority path) = urlOf scheme authority path ∧
      ∀ digits rest, digits ≠ [] → (∀ b ∈ digits, isAsciiDigit b = true) →
        truncUrl (urlOf scheme authority path ++ (digits ++ 58 :: rest)) = urlOf scheme authority path) ∧
    ∀ raw, truncUrlWithin (raw.length + 1) raw = some (truncUrl raw) ∧
      truncUrl raw <+: raw ∧ (truncUrl raw = [] ∨ isUrl (truncUrl raw) = true) ∧
      truncUrl (truncUrl raw) = truncUrl raw := by
  refine ⟨fun scheme authority path h => ⟨h.truncUrl_self, fun digits rest hne hdigits => ?_⟩, fun raw => ?_⟩
  next => exact h.truncUrl_leak hne hdigits rest
  next =>
    obtain ⟨hinitial, hurl⟩ := truncUrl_spec raw
    exact ⟨truncUrlWithin_length raw, hinitial, hurl, truncUrl_idempotent raw⟩

/-- `h://1:2/a`, alone and before `13:` and a byte that is not printable. -/
theorem truncUrl_recovers_port :
    truncUrl (urlOf [104] [49, 58, 50] [97]) = urlOf [104] [49, 58, 50] [97] ∧
      truncUrl (urlOf [104] [49, 58, 50] [97] ++ ([49, 51] ++ 58 :: [0])) = urlOf [104] [49, 58, 50] [97] := by
  have hclean : CleanUrl [104] [49, 58, 50] [97] := by
    refine ⟨by decide, List.all_eq_true.mp (by decide), by decide, List.all_eq_true.mp (by decide), ?_, ?_⟩
    · rintro b ⟨⟩
      rfl
    intro front d rest h
    have hcolon : 58 ∈ front ++ d :: 58 :: rest := by simp
    rw [← h] at hcolon
    exact absurd hcolon (by decide)
  obtain ⟨hself, hleak⟩ := truncUrl_recovers.1 _ _ _ hclean
  exact ⟨hself, hleak [49, 51] [0] (by decide) (List.all_eq_true.mp (by decide))⟩

end KeepAt
