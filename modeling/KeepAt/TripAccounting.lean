import KeepAt.QuarantineWatch

namespace KeepAt

/-- The move trips no hash whose count of attempts is at its last value. -/
def KeepsCount (x : Watch) (m : Move) (_ : Time) : Prop :=
  ∀ hex q, (m.trippedAt hex).isSome → x.engine.state.quarantineGet hex = some q → q.attempts < u32Max

/-- The attempts of an entry are its trips, and there is no log of a hash without one. -/
def EntryCounted (entry : Option Quarantine) (log : EntryLog) : Prop :=
  match entry with
  | none => log = .fresh
  | some q => q.attempts = log.trips

def TripsCounted (x : Watch) : Prop :=
  ∀ hex, EntryCounted (x.engine.state.quarantineGet hex) (x.since hex)

variable {s : Settings}

theorem EntryChange.counted {e : Engine} {hex : String} {m : Move} {entry entry' : Option Quarantine}
    {log : EntryLog} {added : Option Time} (change : EntryChange s e hex m entry entry')
    (room : ∀ q, (m.trippedAt hex).isSome → entry = some q → q.attempts < u32Max)
    (h : EntryCounted entry log) :
    EntryCounted entry' (log.after s entry' (m.trippedAt hex) added) := by
  cases change with
  | kept _ _ untripped =>
    cases entry with
    | none => rfl
    | some q =>
      rw [untripped]
      exact h
  | tripped _ now env trip title suffix =>
    have htripped : (Move.action (.enforceTrip now env (hex, trip))).trippedAt hex = some now := if_pos rfl
    rw [htripped] at room ⊢
    cases entry with
    | none =>
      obtain rfl : log = .fresh := h
      rfl
    | some q =>
      have hroom := room q rfl rfl
      have hcount : q.attempts = log.trips := h
      simp only [u32Max] at hroom
      simp only [EntryCounted, EntryLog.after, tripEntry, nextQuarantineEntry, Option.map_some,
        Option.getD_some, Option.isSome_some, if_true]
      omega
  | rearmed q listed heldCount seederFloor now env lapsed => exact h
  | removed q env settled => rfl

theorem watchStep_tripsCounted {x y : Watch} (step : WatchStep s KeepsCount x y) (h : TripsCounted x) :
    TripsCounted y := by
  cases step with
  | move m clock later allowed permitted =>
    exact fun hex => (Move.entry_change allowed hex).counted (permitted hex) (h hex)
  | rehash ts hperm => exact h

/-- In a run from an empty registry in which no trip meets a full count, the attempts of every entry are its
trips. A move that does not trip a hash leaves the attempts of its entry as they are, and an entry goes only
in the bookkeeping of a pass, when its torrent is complete or when nothing needs it any more. -/
theorem attempts_count_trips {e : Engine} (clock : Time) (empty : e.state.quarantined = .empty) :
    (∀ y, Relation.ReflTransGen (WatchStep s KeepsCount) (Watch.start e clock) y →
      ∀ hex q, y.engine.state.quarantineGet hex = some q → q.attempts = (y.since hex).trips) ∧
    ∀ (x : Engine) (m : Move), m.Allowed x → ∀ hex q, x.state.quarantineGet hex = some q →
      (m.trippedAt hex = none → ∀ q', (m.apply s x).state.quarantineGet hex = some q' →
        q'.attempts = q.attempts) ∧
      ((m.apply s x).state.quarantineGet hex = none → ∃ env, m = .action (.bookkeep env) ∧
        (Completed x env.stats hex ∨ Collectable x q hex env.now)) := by
  have start : TripsCounted (Watch.start e clock) := by
    intro hex
    have hnone : (Watch.start e clock).engine.state.quarantineGet hex = none := by
      rw [State.quarantineGet, Watch.start, empty]
      rfl
    rw [hnone]
    rfl
  refine ⟨fun y run hex q hq => ?_, fun x m allowed hex q hq => ?_⟩
  · have counted := run_preserves (P := TripsCounted) watchStep_tripsCounted run start hex
    rwa [hq] at counted
  · have change := Move.entry_change (s := s) allowed hex
    rw [hq] at change
    generalize (m.apply s x).state.quarantineGet hex = entry at change ⊢
    cases change with
    | kept => exact ⟨fun _ q' h => by rw [Option.some.inj h], fun h => absurd h (by simp)⟩
    | tripped _ now => exact ⟨fun h => absurd h (by simp [Move.trippedAt]), fun h => absurd h (by simp)⟩
    | rearmed => exact ⟨fun _ q' h => by rw [← Option.some.inj h], fun h => absurd h (by simp)⟩
    | removed q env settled => exact ⟨fun _ q' h => absurd h (by simp), fun _ => ⟨env, rfl, settled⟩⟩

namespace Reference

def retryOnce : Settings :=
  { settings with
    cfg :=
      { settings.cfg with
        config := { settings.cfg.config with
          scan := { settings.cfg.config.scan with quarantineMaxRetries := 1 } } } }

def registry : Option Quarantine → Registry
  | none => .empty
  | some q => ⟨[(hexEncode hashA, q)], List.nodup_singleton _⟩

/-- A torrent that the session manages without a state entry, and that no trip gets it to let go of. -/
def ghost (entry : Option Quarantine) (detector : Detector) : Engine :=
  { engine [] List.nodup_nil with
    state := ⟨.empty, registry entry, ⟨.empty, registry entry⟩⟩
    session := [hexEncode hashA]
    detector }

def ghostTrip : Trip := ⟨defaultBrokenPieceDiscardBytes, 2⟩

def ghostEntry : Nat → Option Quarantine
  | 0 => none
  | n + 1 => some (tripEntry retryOnce (ghostEntry n)
      (((ghostEntry n).map Quarantine.title).getD ("untracked " ++ hexEncode hashA)) ", untracked ghost"
      ghostTrip 0)

def ghostLog : Nat → EntryLog
  | 0 => .fresh
  | n + 1 => (ghostLog n).after retryOnce (ghostEntry (n + 1)) (some 0) none

/-- A pass that sees so many bytes fetched and none checked. -/
def ghostPass (fetched : Nat) : BookkeepEnv :=
  { stats := fun _ => ⟨false, false, some fetched, 0⟩, now := 0, progressSaved := true, liftsSaved := true,
    orphansSaved := true }

def ghostEvict (_ : String) : EvictEnv := ⟨⟨false, false, true⟩, 0⟩

def ghostDetector (fetched windows : Nat) : Detector :=
  ⟨[(hexEncode hashA, ⟨0, fetched, fetched, windows⟩)], List.nodup_singleton _⟩

/-- What the three passes of a trip see, and what each leaves in the detector. -/
theorem ghost_bookkeep (entry : Option Quarantine) :
    let t := defaultBrokenPieceDiscardBytes
    bookkeep retryOnce (ghost entry .empty) (ghostPass 0) = (ghost entry (ghostDetector 0 0), [], false) ∧
      bookkeep retryOnce (ghost entry (ghostDetector 0 0)) (ghostPass t) =
        (ghost entry (ghostDetector t 1), [], false) ∧
      bookkeep retryOnce (ghost entry (ghostDetector t 1)) (ghostPass t) =
        (ghost entry (ghostDetector t 2), [(hexEncode hashA, ghostTrip)], false) := by
  cases entry with
  | none => exact ⟨rfl, rfl, rfl⟩
  | some q => exact ⟨rfl, rfl, rfl⟩

theorem ghost_trip (n : Nat) :
    enforceTrip retryOnce 0 ghostEvict (ghost (ghostEntry n) (ghostDetector defaultBrokenPieceDiscardBytes 2))
      (hexEncode hashA, ghostTrip) = ghost (ghostEntry (n + 1)) .empty := by
  rw [ghostEntry]
  cases ghostEntry n with
  | none => rfl
  | some q => rfl

theorem ghost_get (entry : Option Quarantine) (detector : Detector) :
    (ghost entry detector).state.quarantineGet (hexEncode hashA) = entry := by
  cases entry with
  | none => rfl
  | some q => rfl

theorem ghostEntry_attempts (n : Nat) :
    ((ghostEntry n).map Quarantine.attempts).getD 0 = n % 2 ^ 32 := by
  induction n with
  | zero => rfl
  | succ n ih =>
    have hnext : ((ghostEntry (n + 1)).map Quarantine.attempts).getD 0 =
        (((ghostEntry n).map Quarantine.attempts).getD 0 + 1) % 2 ^ 32 := rfl
    rw [hnext, ih, Nat.mod_add_mod]

theorem ghostEntry_some {n : Nat} (h : n ≠ 0) :
    ∃ q, ghostEntry n = some q ∧ q.attempts = n % 2 ^ 32 := by
  have hattempts := ghostEntry_attempts n
  cases n with
  | zero => exact absurd rfl h
  | succ n => exact ⟨_, rfl, hattempts⟩

theorem ghostLog_trips (n : Nat) : (ghostLog n).trips = n := by
  induction n with
  | zero => rfl
  | succ n ih => exact congrArg (· + 1) ih

theorem ghostLog_idle (n : Nat) : (ghostLog n).after retryOnce (ghostEntry n) none none = ghostLog n := by
  cases n with
  | zero => rfl
  | succ n =>
    simp only [ghostEntry, EntryLog.after, Option.isSome_none, Bool.false_eq_true, if_false, Option.none_or,
      ite_self]

/-- A watched ghost after so many trips. -/
structure GhostAt (n : Nat) (detector : Detector) (x : Watch) : Prop where
  engine : x.engine = ghost (ghostEntry n) detector
  clock : x.clock = 0
  since : x.since (hexEncode hashA) = ghostLog n

variable {n : Nat} {d d' : Detector} {x : Watch}

theorem GhostAt.idle (h : GhostAt n d x) {fetched : Nat}
    (books : (bookkeep retryOnce (ghost (ghostEntry n) d) (ghostPass fetched)).1 = ghost (ghostEntry n) d') :
    ∃ y, WatchStep retryOnce AnyMove x y ∧ GhostAt n d' y := by
  have happly : (Move.action (.bookkeep (ghostPass fetched))).apply retryOnce x.engine =
      ghost (ghostEntry n) d' := by
    rw [h.engine]
    exact books
  refine ⟨x.after retryOnce (.action (.bookkeep (ghostPass fetched))) 0,
    .move x _ 0 h.clock.le (by simp [Move.Allowed]) trivial, happly, rfl, ?_⟩
  simp only [Watch.after, happly, h.since, ghost_get, Move.trippedAt, Move.gatedAt, ite_self]
  exact ghostLog_idle n

theorem GhostAt.trip (h : GhostAt n (ghostDetector defaultBrokenPieceDiscardBytes 2) x) :
    ∃ y, WatchStep retryOnce AnyMove x y ∧ GhostAt (n + 1) .empty y := by
  let m : Move := .action (.enforceTrip 0 ghostEvict (hexEncode hashA, ghostTrip))
  have happly : m.apply retryOnce x.engine = ghost (ghostEntry (n + 1)) .empty := by
    rw [h.engine]
    exact ghost_trip n
  refine ⟨x.after retryOnce m 0, .move x m 0 h.clock.le (by simp [m, Move.Allowed]) trivial, happly, rfl, ?_⟩
  have htripped : m.trippedAt (hexEncode hashA) = some 0 := by
    simp only [m, Move.trippedAt, if_true]
  simp only [Watch.after, happly, h.since, ghost_get, htripped]
  simp only [m, Move.gatedAt, ite_self]
  rfl

theorem ghost_run (n : Nat) :
    ∃ y, Relation.ReflTransGen (WatchStep retryOnce AnyMove) (Watch.start (ghost none .empty) 0) y ∧
      GhostAt n .empty y := by
  induction n with
  | zero => exact ⟨_, .refl, rfl, rfl, rfl⟩
  | succ n ih =>
    obtain ⟨x, run, hx⟩ := ih
    obtain ⟨first, second, third⟩ := ghost_bookkeep (ghostEntry n)
    obtain ⟨x₁, step₁, h₁⟩ := hx.idle (congrArg Prod.fst first)
    obtain ⟨x₂, step₂, h₂⟩ := h₁.idle (congrArg Prod.fst second)
    obtain ⟨x₃, step₃, h₃⟩ := h₂.idle (congrArg Prod.fst third)
    obtain ⟨x₄, step₄, h₄⟩ := h₃.trip
    exact ⟨x₄, (((run.tail step₁).tail step₂).tail step₃).tail step₄, h₄⟩

def ghostPassEnv (fetched : Nat) : PassEnv where
  bookkeep := ghostPass fetched
  reprobe :=
    { now := 0, catalog := none, seederFloor := 0,
      probe := fun _ => ⟨⟨none, true⟩, fun _ _ => none, Reference.env true, true⟩ }
  tripNow := 0
  trip := ghostEvict

theorem ghost_unlapsed (n : Nat) (d : Detector) : lapsed (ghost (ghostEntry n) d).state 0 = [] := by
  refine List.eq_nil_iff_forall_not_mem.mpr fun p hp => ?_
  obtain ⟨hget, hlapsed⟩ := lapsed_registered hp
  obtain ⟨⟨hex, q⟩, hfind, rfl⟩ := Option.map_eq_some_iff.mp hget
  have hmem := (KeyedList.find_eq_some.mp hfind).1
  cases n with
  | zero => cases hmem
  | succ n =>
    have hentry := congrArg Prod.snd (List.mem_singleton.mp hmem)
    dsimp only at hentry
    refine absurd hlapsed (not_le.mpr ?_)
    rw [hentry]
    simp only [tripEntry, nextQuarantineEntry]
    split
    next => decide +kernel
    next => decide +kernel

theorem ghost_pushLive (entry : Option Quarantine) (d : Detector) :
    (ghost entry d).pushLive = ghost entry d := rfl

theorem ghost_quarantinePass (n : Nat) {fetched : Nat} {trips : List (String × Trip)}
    (books : bookkeep retryOnce (ghost (ghostEntry n) d) (ghostPass fetched) =
      (ghost (ghostEntry n) d', trips, false)) :
    quarantinePass retryOnce (ghost (ghostEntry n) d) (ghostPassEnv fetched) =
      (trips.foldl (enforceTrip retryOnce 0 ghostEvict) (ghost (ghostEntry n) d')).pushLive := by
  have henabled : ¬retryOnce.scan.quarantineCheckInterval = 0 := by decide +kernel
  have hreprobe : quarantineReprobe retryOnce (ghost (ghostEntry n) d') (ghostPassEnv fetched).reprobe =
      ghost (ghostEntry n) d' := by
    have hnone : lapsed (ghost (ghostEntry n) d').state (ghostPassEnv fetched).reprobe.now = [] :=
      ghost_unlapsed n d'
    simp only [quarantineReprobe, hnone, List.isEmpty_nil, if_true]
  have hbooks : bookkeep retryOnce (ghost (ghostEntry n) d) (ghostPassEnv fetched).bookkeep =
      (ghost (ghostEntry n) d', trips, false) := books
  simp only [quarantinePass, if_neg henabled, hbooks, hreprobe]
  cases trips with
  | nil => rfl
  | cons trip trips => rfl

/-- The same trips by whole passes of the watchdog. -/
theorem ghost_passes (n : Nat) :
    ∃ passes : List PassEnv, passes.foldl (quarantinePass retryOnce) (ghost none .empty) =
      ghost (ghostEntry n) .empty := by
  induction n with
  | zero => exact ⟨[], rfl⟩
  | succ n ih =>
    obtain ⟨passes, hn⟩ := ih
    obtain ⟨first, second, third⟩ := ghost_bookkeep (ghostEntry n)
    refine ⟨passes ++ [ghostPassEnv 0, ghostPassEnv defaultBrokenPieceDiscardBytes,
      ghostPassEnv defaultBrokenPieceDiscardBytes], ?_⟩
    rw [List.foldl_append, hn]
    simp only [List.foldl_cons, List.foldl_nil, ghost_quarantinePass n first, ghost_quarantinePass n second,
      ghost_quarantinePass n third, ghost_pushLive, ghost_trip]

end Reference

theorem attempts_count_trips_one :
    let trip : Move := .action (.enforceTrip 0 Reference.ghostEvict (hexEncode Reference.hashA, Reference.ghostTrip))
    let y := (Watch.start (Reference.ghost none .empty) 0).after Reference.retryOnce trip 0
    ∃ q, y.engine.state.quarantineGet (hexEncode Reference.hashA) = some q ∧
      q.attempts = (y.since (hexEncode Reference.hashA)).trips ∧ q.attempts = 1 := by
  intro trip y
  have permitted : KeepsCount (Watch.start (Reference.ghost none .empty) 0) trip 0 := by
    intro hex q _ hq
    cases hq
  have run : Relation.ReflTransGen (WatchStep Reference.retryOnce KeepsCount)
      (Watch.start (Reference.ghost none .empty) 0) y :=
    .single (.move _ trip 0 le_rfl (by simp [trip, Move.Allowed]) permitted)
  obtain ⟨q, hq, hattempts⟩ : ∃ q, y.engine.state.quarantineGet (hexEncode Reference.hashA) = some q ∧
      q.attempts = 1 := ⟨_, rfl, by decide +kernel⟩
  exact ⟨q, hq, (attempts_count_trips 0 rfl).1 y run _ q hq, hattempts⟩

/-- The count is a 32-bit one, so after as many trips the entry says that there were none. -/
theorem attempts_wrap :
    let e := Reference.ghost none .empty
    e.state.quarantined = .empty ∧
      ∃ y, Relation.ReflTransGen (WatchStep Reference.retryOnce AnyMove) (Watch.start e 0) y ∧
        (∃ passes : List PassEnv, passes.foldl (quarantinePass Reference.retryOnce) e = y.engine) ∧
        ∃ q, y.engine.state.quarantineGet (hexEncode Reference.hashA) = some q ∧ q.attempts = 0 ∧
          (y.since (hexEncode Reference.hashA)).trips = 2 ^ 32 := by
  intro e
  obtain ⟨y, run, hy⟩ := Reference.ghost_run (2 ^ 32)
  obtain ⟨passes, hpasses⟩ := Reference.ghost_passes (2 ^ 32)
  obtain ⟨q, hq, hattempts⟩ := Reference.ghostEntry_some (n := 2 ^ 32) (by decide)
  refine ⟨rfl, y, run, ⟨passes, by rw [hpasses, hy.engine]⟩, q, ?_, ?_, ?_⟩
  · rw [hy.engine, Reference.ghost_get, hq]
  · rw [hattempts, Nat.mod_self]
  · rw [hy.since, Reference.ghostLog_trips]

end KeepAt
