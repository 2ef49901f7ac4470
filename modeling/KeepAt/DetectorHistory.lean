import KeepAt.Detector

namespace KeepAt

structure Reading where
  checked : Nat
  fetched : Nat
  deriving DecidableEq

inductive WatchOp where
  | observe (hex : String) (reading : Reading)
  | forget (hex : String)
  | retainOnly (observed : List String)

/-- A reading that cannot be compared with the one before it, or that shows progress. -/
def Rebases (prev cur : Reading) : Prop :=
  cur.checked < prev.checked ∨ cur.fetched < prev.fetched ∨ prev.checked < cur.checked

/-- The first of some readings is a baseline, and so is each later one that rebases the one before. -/
def IsBaseline (rs : List Reading) : Nat → Prop
  | 0 => rs ≠ []
  | i + 1 => ∃ prev cur, rs[i]? = some prev ∧ rs[i + 1]? = some cur ∧ Rebases prev cur

structure LastBaseline (rs : List Reading) (b : Nat) : Prop where
  baseline : IsBaseline rs b
  last : ∀ i, IsBaseline rs i → i ≤ b

/-- The verdict on the last of some readings, from their last baseline. -/
def verdict (discardThreshold minWindows : Nat) (rs : List Reading) (b : Nat) (base cur : Reading) :
    Option Trip :=
  if b + 1 < rs.length ∧ discardThreshold ≤ cur.fetched - base.fetched ∧
      max minWindows 1 ≤ rs.length - 1 - b then
    some { wastedBytes := cur.fetched - base.fetched, windows := min (rs.length - 1 - b) u32Max }
  else none

def WatchOp.apply (discardThreshold minWindows : Nat) (d : Detector) : WatchOp → Detector
  | observe hex r => (d.observe hex r.checked r.fetched discardThreshold minWindows).1
  | forget hex => d.forget hex
  | retainOnly observed => d.retainOnly observed

def Detector.run (discardThreshold minWindows : Nat) (ops : List WatchOp) : Detector :=
  ops.foldl (WatchOp.apply discardThreshold minWindows) .empty

/-- The operation has to do with the hash: it observes it, forgets it or prunes it. -/
def WatchOp.touches (hex : String) : WatchOp → Bool
  | observe key _ => decide (key = hex)
  | forget key => decide (key = hex)
  | retainOnly observed => decide (hex ∉ observed)

def readingsStep (hex : String) (rs : List Reading) : WatchOp → List Reading
  | .observe key r => if key = hex then rs ++ [r] else rs
  | .forget key => if key = hex then [] else rs
  | .retainOnly observed => if hex ∈ observed then rs else []

/-- What was observed of a hash since the start, or since it was last forgotten or pruned. -/
def readings (hex : String) (ops : List WatchOp) : List Reading := ops.foldl (readingsStep hex) []

variable {rs : List Reading} {r : Reading} {b i : Nat}

theorem isBaseline_zero : IsBaseline rs 0 ↔ rs ≠ [] := Iff.rfl

theorem isBaseline_succ : IsBaseline rs (i + 1) ↔
    ∃ prev cur, rs[i]? = some prev ∧ rs[i + 1]? = some cur ∧ Rebases prev cur := Iff.rfl

theorem IsBaseline.lt (h : IsBaseline rs i) : i < rs.length := by
  cases i with
  | zero => exact List.length_pos_iff.mpr h
  | succ i =>
    obtain ⟨prev, cur, -, hcur, -⟩ := h
    exact (List.getElem?_eq_some_iff.mp hcur).1

theorem isBaseline_append (h : i < rs.length) : IsBaseline (rs ++ [r]) i ↔ IsBaseline rs i := by
  cases i with
  | zero =>
    have hne : rs ≠ [] := List.length_pos_iff.mp h
    rw [isBaseline_zero, isBaseline_zero]
    exact ⟨fun _ => hne, fun _ => by simp⟩
  | succ i =>
    rw [isBaseline_succ, isBaseline_succ, List.getElem?_append_left h, List.getElem?_append_left (by omega : i < rs.length)]

/-- Whether the newest reading is a baseline depends on the one before it alone. -/
theorem isBaseline_newest {last : Reading} (h : rs.getLast? = some last) :
    IsBaseline (rs ++ [r]) rs.length ↔ Rebases last r := by
  cases hlength : rs.length with
  | zero =>
    rw [List.length_eq_zero_iff.mp hlength] at h
    cases h
  | succ n =>
    have hlast : (rs ++ [r])[n]? = some last := by
      rw [List.getElem?_append_left (by omega : n < rs.length)]
      rw [List.getLast?_eq_getElem?, hlength] at h
      exact h
    have hnewest : (rs ++ [r])[n + 1]? = some r := by
      rw [← hlength, List.getElem?_append_right le_rfl, Nat.sub_self]
      rfl
    rw [isBaseline_succ, hlast, hnewest]
    constructor
    · rintro ⟨prev, cur, hprev, hcur, hrebases⟩
      rw [Option.some.inj hprev, Option.some.inj hcur]
      exact hrebases
    · intro hrebases
      exact ⟨last, r, rfl, rfl, hrebases⟩

theorem lastBaseline_newest (h : IsBaseline (rs ++ [r]) rs.length) : LastBaseline (rs ++ [r]) rs.length := by
  refine ⟨h, fun i hi => ?_⟩
  have hlt := hi.lt
  rw [List.length_append, List.length_singleton] at hlt
  omega

theorem LastBaseline.append (h : LastBaseline rs b) (hnot : ¬IsBaseline (rs ++ [r]) rs.length) :
    LastBaseline (rs ++ [r]) b := by
  refine ⟨(isBaseline_append h.baseline.lt).mpr h.baseline, fun i hi => ?_⟩
  have hlt := hi.lt
  rw [List.length_append, List.length_singleton] at hlt
  have hne : i ≠ rs.length := fun heq => hnot (heq ▸ hi)
  exact h.last i ((isBaseline_append (by omega)).mp hi)

theorem LastBaseline.unique {b' : Nat} (h : LastBaseline rs b) (h' : LastBaseline rs b') : b = b' :=
  le_antisymm (h'.last b h.baseline) (h.last b' h'.baseline)

/-- What the accumulators of a watched torrent stand for. -/
structure WatchedFrom (rs : List Reading) (b : Nat) (base last : Reading) (ws : WatchState) : Prop where
  baseline : LastBaseline rs b
  start : rs[b]? = some base
  latest : rs.getLast? = some last
  checked : ws.lastChecked = last.checked
  fetched : ws.lastFetched = last.fetched
  risen : base.fetched ≤ last.fetched
  wasted : ws.wastedSinceProgress = min (last.fetched - base.fetched) u64Max
  windows : ws.windowsWithoutProgress = min (rs.length - 1 - b) u32Max

theorem watchedFrom_newest (h : IsBaseline (rs ++ [r]) rs.length) :
    WatchedFrom (rs ++ [r]) rs.length r r (.baseline r.checked r.fetched) := by
  refine ⟨lastBaseline_newest h, List.getElem?_concat_length, List.getLast?_concat, rfl, rfl, le_rfl, ?_, ?_⟩
  · rw [Nat.sub_self]
    rfl
  · rw [List.length_append, List.length_singleton, Nat.add_sub_cancel, Nat.sub_self]
    rfl

theorem WatchedFrom.observe_of_rebases {base last : Reading} {ws : WatchState} (h : WatchedFrom rs b base last ws)
    (hrebases : Rebases last r) (discardThreshold minWindows : Nat) :
    ws.observe r.checked r.fetched discardThreshold minWindows = (.baseline r.checked r.fetched, none) := by
  unfold WatchState.observe
  rw [h.checked, h.fetched]
  rcases hrebases with hless | hless | hmore
  · rw [if_pos (Or.inl hless)]
  · rw [if_pos (Or.inr hless)]
  · rw [if_pos hmore, ite_self]

/-- Both thresholds are compared with saturated counts, which makes no difference below the bounds. -/
theorem thresholds_iff {wasted windows discardThreshold minWindows : Nat} (hmin : minWindows ≤ u32Max) :
    (wasted ≥ discardThreshold ∧ min windows u32Max ≥ max minWindows 1) ↔
      0 < windows ∧ discardThreshold ≤ wasted ∧ max minWindows 1 ≤ windows := by
  have hone : 1 ≤ u32Max := by simp [u32Max]
  generalize u32Max = bound at hone hmin ⊢
  omega

/-- Between two baselines the accumulators grow. -/
theorem WatchedFrom.observe_idle {base last : Reading} {ws : WatchState} (h : WatchedFrom rs b base last ws)
    (hrebases : ¬Rebases last r) (discardThreshold minWindows : Nat) :
    WatchedFrom (rs ++ [r]) b base r (ws.observe r.checked r.fetched discardThreshold minWindows).1 ∧
      (minWindows ≤ u32Max → r.fetched ≤ u64Max →
        (ws.observe r.checked r.fetched discardThreshold minWindows).2 =
          verdict discardThreshold minWindows (rs ++ [r]) b base r) := by
  have hlength : (rs ++ [r]).length = rs.length + 1 := by rw [List.length_append, List.length_singleton]
  have hb := h.baseline.baseline.lt
  have hnot : ¬IsBaseline (rs ++ [r]) rs.length := fun hbaseline =>
    hrebases ((isBaseline_newest h.latest).mp hbaseline)
  have hchecked : r.checked = last.checked := by
    unfold Rebases at hrebases
    omega
  have hfetched : last.fetched ≤ r.fetched := by
    unfold Rebases at hrebases
    omega
  have hrisen := h.risen
  have hwasted : saturatingAdd ws.wastedSinceProgress (r.fetched - last.fetched) =
      min (r.fetched - base.fetched) u64Max := by
    rw [h.wasted]
    unfold saturatingAdd
    omega
  have hwindows : min (ws.windowsWithoutProgress + 1) u32Max = min ((rs ++ [r]).length - 1 - b) u32Max := by
    rw [h.windows, hlength]
    generalize u32Max = bound
    omega
  have hunregressed : ¬(r.checked < ws.lastChecked ∨ r.fetched < ws.lastFetched) := by
    rw [h.checked, h.fetched]
    omega
  have hidle : ¬r.checked > ws.lastChecked := by
    rw [h.checked]
    omega
  unfold WatchState.observe
  rw [if_neg hunregressed, if_neg hidle, h.fetched, hwasted, hwindows]
  refine ⟨⟨h.baseline.append hnot, ?_, List.getLast?_concat, rfl, rfl, by omega, rfl, rfl⟩, ?_⟩
  · rw [List.getElem?_append_left hb]
    exact h.start
  · intro hmin hbound
    have hexact : min (r.fetched - base.fetched) u64Max = r.fetched - base.fetched := by omega
    have hpast : 0 < (rs ++ [r]).length - 1 - b ↔ b + 1 < (rs ++ [r]).length := by omega
    rw [verdict, hexact]
    dsimp only
    rw [if_congr ((thresholds_iff hmin).trans (and_congr_left' hpast)) rfl rfl]

/-- One observation keeps what the accumulators stand for, and its verdict is the one from the baseline. -/
theorem WatchedFrom.observe {base last : Reading} {ws : WatchState} (h : WatchedFrom rs b base last ws)
    (r : Reading) (discardThreshold minWindows : Nat) :
    ∃ b' base', WatchedFrom (rs ++ [r]) b' base' r
        (ws.observe r.checked r.fetched discardThreshold minWindows).1 ∧
      (minWindows ≤ u32Max → r.fetched ≤ u64Max →
        (ws.observe r.checked r.fetched discardThreshold minWindows).2 =
          verdict discardThreshold minWindows (rs ++ [r]) b' base' r) := by
  by_cases hrebases : Rebases last r
  · have hlength : (rs ++ [r]).length = rs.length + 1 := by rw [List.length_append, List.length_singleton]
    have hbaseline := (isBaseline_newest h.latest).mpr hrebases
    rw [h.observe_of_rebases hrebases]
    refine ⟨rs.length, r, watchedFrom_newest hbaseline, fun _ _ => ?_⟩
    rw [verdict, if_neg (by omega)]
  · exact ⟨b, base, h.observe_idle hrebases discardThreshold minWindows⟩

/-- The entry of a hash holds the summary of its readings. -/
def Remembers (rs : List Reading) (entry : Option (String × WatchState)) : Prop :=
  match entry with
  | none => rs = []
  | some (_, ws) => ∃ b base last, WatchedFrom rs b base last ws

theorem remembers_first (r : Reading) :
    WatchedFrom [r] 0 r r (.baseline r.checked r.fetched) :=
  @watchedFrom_newest [] r (by simp [isBaseline_zero])

section Run

variable {discardThreshold minWindows : Nat} {d : Detector} {hex : String}

theorem Detector.observe_remembers (h : Remembers rs (d.find hex)) (r : Reading) :
    Remembers (rs ++ [r])
      ((d.observe hex r.checked r.fetched discardThreshold minWindows).1.find hex) ∧
    (minWindows ≤ u32Max → r.fetched ≤ u64Max → ∃ b base, LastBaseline (rs ++ [r]) b ∧
      (rs ++ [r])[b]? = some base ∧ base.fetched ≤ r.fetched ∧
        (d.observe hex r.checked r.fetched discardThreshold minWindows).2 =
          verdict discardThreshold minWindows (rs ++ [r]) b base r) := by
  unfold Detector.observe
  cases hfind : d.find hex with
  | none =>
    rw [hfind] at h
    obtain rfl : rs = [] := h
    have hfirst := remembers_first r
    dsimp only
    rw [KeyedList.find_insert, if_pos rfl]
    refine ⟨⟨0, r, r, hfirst⟩, fun _ _ => ⟨0, r, hfirst.baseline, hfirst.start, le_rfl, ?_⟩⟩
    rw [verdict, if_neg (by simp)]
  | some entry =>
    obtain ⟨key, ws⟩ := entry
    rw [hfind] at h
    obtain ⟨b, base, last, hwatched⟩ := h
    obtain ⟨b', base', hnext, hverdict⟩ := hwatched.observe r discardThreshold minWindows
    dsimp only
    rw [KeyedList.find_insert, if_pos rfl]
    exact ⟨⟨b', base', r, hnext⟩, fun hmin hbound =>
      ⟨b', base', hnext.baseline, hnext.start, hnext.risen, hverdict hmin hbound⟩⟩

theorem Detector.observe_find_other {key : String} (h : hex ≠ key) (checked fetched : Nat) :
    (d.observe key checked fetched discardThreshold minWindows).1.find hex = d.find hex := by
  unfold Detector.observe
  split
  next => rw [KeyedList.find_insert, if_neg h]
  next => rw [KeyedList.find_insert, if_neg h]

theorem Detector.retainOnly_find (observed : List String) :
    (d.retainOnly observed).find hex = if hex ∈ observed then d.find hex else none := by
  rw [Detector.retainOnly, KeyedList.find_eraseAll]
  by_cases hobserved : hex ∈ observed
  · have hnot : hex ∉ (d.values.map Prod.fst).filter (fun hex => hex ∉ observed) := fun hm =>
      of_decide_eq_true (List.mem_filter.mp hm).2 hobserved
    rw [if_neg hnot, if_pos hobserved]
  · rw [if_neg hobserved]
    split
    next => rfl
    next hkept =>
      refine KeyedList.find_eq_none.mpr fun hhas => hkept ?_
      exact List.mem_filter.mpr ⟨hhas, decide_eq_true hobserved⟩

theorem WatchOp.apply_remembers (h : Remembers rs (d.find hex)) (op : WatchOp) :
    Remembers (readingsStep hex rs op) ((op.apply discardThreshold minWindows d).find hex) := by
  cases op with
  | observe key r =>
    simp only [readingsStep, WatchOp.apply]
    split
    next heq =>
      subst heq
      exact (Detector.observe_remembers h r).1
    next hne =>
      rw [Detector.observe_find_other (Ne.symm hne)]
      exact h
  | forget key =>
    simp only [readingsStep, WatchOp.apply, Detector.forget, KeyedList.find_erase]
    by_cases heq : key = hex
    · rw [if_pos heq, if_pos heq.symm]
      rfl
    · rw [if_neg heq, if_neg (Ne.symm heq)]
      exact h
  | retainOnly observed =>
    simp only [readingsStep, WatchOp.apply, Detector.retainOnly_find]
    split
    next => exact h
    next => rfl

theorem run_remembers (hex : String) (ops : List WatchOp) :
    Remembers (readings hex ops) ((Detector.run discardThreshold minWindows ops).find hex) := by
  have hfold : ∀ (ops : List WatchOp) (rs : List Reading) (d : Detector), Remembers rs (d.find hex) →
      Remembers (ops.foldl (readingsStep hex) rs)
        ((ops.foldl (WatchOp.apply discardThreshold minWindows) d).find hex) := by
    intro ops
    induction ops with
    | nil => exact fun _ _ h => h
    | cons op ops ih => exact fun _ _ h => ih _ _ (WatchOp.apply_remembers h op)
  exact hfold ops [] .empty rfl

end Run

/-- Operations on other hashes leave the readings alone. -/
theorem readings_filter (hex : String) (ops : List WatchOp) :
    readings hex (ops.filter (WatchOp.touches hex)) = readings hex ops := by
  have hfold : ∀ (ops : List WatchOp) (rs : List Reading),
      (ops.filter (WatchOp.touches hex)).foldl (readingsStep hex) rs = ops.foldl (readingsStep hex) rs := by
    intro ops
    induction ops with
    | nil => exact fun _ => rfl
    | cons op ops ih =>
      intro rs
      rw [List.filter_cons]
      split
      next => exact ih _
      next huntouched =>
        have hsame : readingsStep hex rs op = rs := by
          cases op with
          | observe key r => exact if_neg fun heq => huntouched (decide_eq_true heq)
          | forget key => exact if_neg fun heq => huntouched (decide_eq_true heq)
          | retainOnly observed =>
            exact if_pos (not_not.mp fun hnot => huntouched (decide_eq_true hnot))
        rw [List.foldl_cons, hsame]
        exact ih rs
  exact hfold ops []

/-- After any history an observation trips exactly when it is not itself a baseline, as many bytes were
fetched since the last baseline as the threshold and as many observations made as the windows; the trip
reports both. Operations on other hashes do not matter. -/
theorem detector_closed_form (discardThreshold minWindows : Nat) (hmin : minWindows ≤ u32Max)
    (ops : List WatchOp) (hex : String) (r : Reading) (hbound : r.fetched ≤ u64Max) :
    let rs := readings hex ops ++ [r]
    let trip := ((Detector.run discardThreshold minWindows ops).observe hex r.checked r.fetched
      discardThreshold minWindows).2
    (∃ b base, LastBaseline rs b ∧ rs[b]? = some base ∧ base.fetched ≤ r.fetched ∧
      trip = if b + 1 < rs.length ∧ discardThreshold ≤ r.fetched - base.fetched ∧
          max minWindows 1 ≤ rs.length - 1 - b then
        some { wastedBytes := r.fetched - base.fetched, windows := min (rs.length - 1 - b) u32Max }
      else none) ∧
    ∀ ops', ops'.filter (WatchOp.touches hex) = ops.filter (WatchOp.touches hex) →
      ((Detector.run discardThreshold minWindows ops').observe hex r.checked r.fetched
        discardThreshold minWindows).2 = trip := by
  intro rs trip
  have hform : ∀ ops, ∃ b base, LastBaseline (readings hex ops ++ [r]) b ∧
      (readings hex ops ++ [r])[b]? = some base ∧ base.fetched ≤ r.fetched ∧
      ((Detector.run discardThreshold minWindows ops).observe hex r.checked r.fetched discardThreshold
        minWindows).2 = verdict discardThreshold minWindows (readings hex ops ++ [r]) b base r :=
    fun ops => (Detector.observe_remembers (run_remembers hex ops) r).2 hmin hbound
  refine ⟨hform ops, fun ops' hsame => ?_⟩
  obtain ⟨b, base, hlast, hbase, -, hverdict⟩ := hform ops
  obtain ⟨b', base', hlast', hbase', -, hverdict'⟩ := hform ops'
  have hreadings : readings hex ops' = readings hex ops := by
    rw [← readings_filter hex ops', hsame, readings_filter]
  rw [hreadings] at hlast' hbase' hverdict'
  obtain rfl := hlast.unique hlast'
  obtain rfl := Option.some.inj (hbase.symm.trans hbase')
  exact hverdict'.trans hverdict.symm

theorem detector_closed_form_one :
    let ops := [WatchOp.observe "a" ⟨0, 0⟩, .observe "a" ⟨5, 2⟩, .observe "b" ⟨9, 9⟩, .observe "a" ⟨5, 4⟩]
    ((Detector.run 3 2 ops).observe "a" 5 6 3 2).2 = some ⟨4, 2⟩ ∧
      ((Detector.run 3 2 (ops.filter (WatchOp.touches "a"))).observe "a" 5 6 3 2).2 = some ⟨4, 2⟩ := by
  intro ops
  have htrip : ((Detector.run 3 2 ops).observe "a" 5 6 3 2).2 = some ⟨4, 2⟩ := by decide
  have hother := (detector_closed_form 3 2 (by simp [u32Max]) ops "a" ⟨5, 6⟩ (by simp [u64Max])).2
    (ops.filter (WatchOp.touches "a")) (by rw [List.filter_filter]; simp only [Bool.and_self])
  exact ⟨htrip, hother.trans htrip⟩

end KeepAt
