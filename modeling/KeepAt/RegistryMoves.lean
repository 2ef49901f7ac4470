import KeepAt.ProbeFrame

namespace KeepAt

/-- What scans and watchdog passes are put together from, where a re-probe comes with its re-arm. -/
inductive Move where
  | action (a : Action)
  | probe (hex : String) (listed : List String) (heldCount seederFloor : Nat) (now : Time)
      (env : String → ProbeEnv)

def addedHashes (before after : Engine) : List String :=
  (after.history.drop before.history.length).filterMap Event.addedHash

namespace Move

/-- A re-probe works on the entry that the registry holds. -/
def apply (s : Settings) (e : Engine) : Move → Engine
  | action a => a.apply s e
  | probe hex listed heldCount seederFloor now env =>
    match e.state.quarantineGet hex with
    | none => e
    | some q => (reprobeOne s listed seederFloor now env (e, heldCount) (hex, q)).1

/-- The registry is re-armed by re-probes alone, and those are of lapsed entries, over a catalog in the
program's own spelling. -/
def Allowed (e : Engine) : Move → Prop
  | action a => ∀ hex q saved, a ≠ .rearm hex q saved
  | probe hex listed _ _ now _ =>
    SpelledList listed ∧ ∃ q, e.state.quarantineGet hex = some q ∧ q.cooldownUntil ≤ now

/-- When the gate of the call that a move makes reads the clock. -/
def gatedAt : Move → Option Time
  | action (.act _ _ _ env) => some env.now
  | action _ => none
  | probe hex _ _ _ _ env => some (env hex).act.now

/-- When a move trips a hash. -/
def trippedAt (hex : String) : Move → Option Time
  | action (.enforceTrip now _ trip) => if trip.1 = hex then some now else none
  | _ => none

end Move

/-- A torrent of the session whose pieces are all checked, by its flag or by its state entry. -/
def Completed (e : Engine) (stats : String → SessionStats) (hex : String) : Prop :=
  hex ∈ e.session ∧ ((stats hex).finished = true ∨ ∃ t checked fetched, e.state.get hex = some t ∧
    liveCounters (stats hex) = some (checked, fetched) ∧ 0 < t.sizeBytes ∧ t.sizeBytes ≤ checked)

/-- A lapsed entry of a hash that is not held, not in the session and not in the last catalog read. -/
def Collectable (e : Engine) (q : Quarantine) (hex : String) (now : Time) : Prop :=
  q.cooldownUntil ≤ now ∧ e.state.get hex = none ∧ hex ∉ e.session ∧
    ∃ catalog, e.lastCatalog = some catalog ∧ hex ∉ catalog

/-- What a move does to the registry entry of a hash. -/
inductive EntryChange (s : Settings) (e : Engine) (hex : String) :
    Move → Option Quarantine → Option Quarantine → Prop
  | kept (m : Move) (entry : Option Quarantine) (untripped : m.trippedAt hex = none) :
      EntryChange s e hex m entry entry
  | tripped (entry : Option Quarantine) (now : Time) (env : String → EvictEnv) (trip : Trip)
      (title suffix : String) :
      EntryChange s e hex (.action (.enforceTrip now env (hex, trip))) entry
        (some (tripEntry s entry title suffix trip now))
  | rearmed (q : Quarantine) (listed : List String) (heldCount seederFloor : Nat) (now : Time)
      (env : String → ProbeEnv) (lapsed : q.cooldownUntil ≤ now) :
      EntryChange s e hex (.probe hex listed heldCount seederFloor now env) (some q)
        (some { q with cooldownUntil := rearmUntil s.scan now })
  | removed (q : Quarantine) (env : BookkeepEnv)
      (settled : Completed e env.stats hex ∨ Collectable e q hex env.now) :
      EntryChange s e hex (.action (.bookkeep env)) (some q) none

variable {s : Settings} {e : Engine} {hex : String}

theorem enforceTrip_get (now : Time) (env : String → EvictEnv) (hex key : String) (trip : Trip) :
    ∃ title suffix, (enforceTrip s now env e (hex, trip)).state.quarantineGet key =
      if key = hex then some (tripEntry s (e.state.quarantineGet hex) title suffix trip now)
      else e.state.quarantineGet key := by
  simp only [enforceTrip]
  split
  next => exact ⟨_, _, State.quarantinePut_get _ _ _ _ _⟩
  next held hheld =>
    refine ⟨held.title, "", ?_⟩
    split
    next => exact State.quarantineAndRemove_get _ _ _ _ _
    next => exact State.quarantineAndRemove_get _ _ _ _ _

theorem mem_raceLifts {st : State} {progress : List (String × Nat)} :
    hex ∈ raceLifts st progress ↔ ∃ checked, (hex, checked) ∈ progress ∧ hex ∈ st.quarantinedKeys ∧
      completionLifts checked (((st.get hex).map Torrent.sizeBytes).getD 0) = true := by
  simp only [raceLifts, List.mem_map, List.mem_filter, Bool.and_eq_true, decide_eq_true_eq, Prod.exists,
    exists_and_right, exists_eq_right]

theorem mem_orphaned {st : State} {seen : List String} {lastCatalog : Option (List String)} {now : Time} :
    hex ∈ orphaned st seen lastCatalog now ↔ hex ∈ st.quarantinedKeys ∧ hex ∉ seen ∧ st.get hex = none ∧
      (∃ catalog, lastCatalog = some catalog ∧ hex ∉ catalog) ∧
      ∃ q, st.quarantineGet hex = some q ∧ q.cooldownUntil ≤ now := by
  simp only [orphaned, List.mem_insertionSort, List.mem_filter, Bool.and_eq_true, decide_eq_true_eq,
    Option.isNone_iff_eq_none, Option.any_eq_true, and_assoc]

theorem updateProgressMany_get_isSome (st : State) (progress : List (String × Nat)) (now : Time)
    (saved : Bool) (hex : String) :
    ((st.updateProgressMany progress now saved).1.get hex).isSome = (st.get hex).isSome := by
  have hkeys : Torrent.infoHash ∘ State.applyUpdates (State.progressUpdates progress now) =
      Torrent.infoHash := funext (State.applyUpdates_infoHash _)
  rw [Bool.eq_iff_iff, State.get, State.get, Option.isSome_iff_ne_none, Option.isSome_iff_ne_none, ne_eq,
    ne_eq, KeyedList.find_eq_none, KeyedList.find_eq_none, KeyedList.Has, State.updateProgressMany_values,
    List.map_map, hkeys]
  rfl

theorem completed_of_lifted {stats : String → SessionStats}
    (h : hex ∈ (sweep s.scan e stats).lifts ++ raceLifts e.state (sweep s.scan e stats).progress) :
    Completed e stats hex := by
  rcases List.mem_append.mp h with h | h
  · obtain ⟨hsession, hfinished, -⟩ := mem_sweep_lifts.mp h
    exact ⟨hsession, Or.inl hfinished⟩
  · obtain ⟨checked, hprogress, -, hlifts⟩ := mem_raceLifts.mp h
    obtain ⟨hsession, -, fetched, hlive⟩ := mem_sweep_progress.mp hprogress
    obtain ⟨hpos, hle⟩ := of_decide_eq_true hlifts
    cases hget : e.state.get hex with
    | none => simp [hget] at hpos
    | some t =>
      rw [hget] at hpos hle
      exact ⟨hsession, Or.inr ⟨t, checked, fetched, hget, hlive, hpos, hle⟩⟩

section Lifted

variable (st : State) (progress : List (String × Nat)) (lifts : List String) (now : Time)
  (progressSaved liftsSaved : Bool)

theorem lifted_quarantineGet (key : String) :
    ((st.updateProgressMany progress now progressSaved).1.quarantineRemoveMany lifts
      liftsSaved).1.quarantineGet key = if key ∈ lifts then none else st.quarantineGet key := by
  have hreg := State.updateProgressMany_quarantined st progress now progressSaved
  rw [State.quarantineRemoveMany_get, State.quarantineGet, hreg]
  rfl

theorem lifted_get_eq_none {key : String} (h : ((st.updateProgressMany progress now
    progressSaved).1.quarantineRemoveMany lifts liftsSaved).1.get key = none) : st.get key = none := by
  rw [State.get, State.quarantineRemoveMany_torrents] at h
  have hsome := updateProgressMany_get_isSome st progress now progressSaved key
  rw [State.get, h] at hsome
  exact Option.isNone_iff_eq_none.mp (by simpa using hsome.symm)

end Lifted

theorem bookkeep_change (env : BookkeepEnv) (hex : String) :
    EntryChange s e hex (.action (.bookkeep env)) (e.state.quarantineGet hex)
      ((bookkeep s e env).1.state.quarantineGet hex) := by
  let swept := sweep s.scan e env.stats
  let lifts := swept.lifts ++ raceLifts e.state swept.progress
  let lifted := ((e.state.updateProgressMany swept.progress env.now env.progressSaved).1.quarantineRemoveMany
    lifts env.liftsSaved).1
  have hlifted : ∀ key, lifted.quarantineGet key =
      if key ∈ lifts then none else e.state.quarantineGet key := lifted_quarantineGet _ _ _ _ _ _
  have hafter : (bookkeep s e env).1.state.quarantineGet hex =
      if hex ∈ orphaned lifted swept.seen e.lastCatalog env.now then none else lifted.quarantineGet hex := by
    simp only [bookkeep]
    split
    next hempty =>
      have hnone : orphaned lifted swept.seen e.lastCatalog env.now = [] := List.isEmpty_iff.mp hempty
      rw [hnone, if_neg List.not_mem_nil]
    next => exact State.quarantineRemoveMany_get _ _ _ _
  rw [hafter]
  split
  next hm =>
    obtain ⟨-, hseen, hheld, hcatalog, q, hq, hlapsed⟩ := mem_orphaned.mp hm
    rw [hlifted] at hq
    obtain ⟨-, hq⟩ := Option.ite_none_left_eq_some.mp hq
    have hcollectable : Collectable e q hex env.now :=
      ⟨hlapsed, lifted_get_eq_none _ _ _ _ _ _ hheld, sweep_seen ▸ hseen, hcatalog⟩
    rw [hq]
    exact .removed q env (Or.inr hcollectable)
  next =>
    rw [hlifted]
    split
    next hm =>
      cases hq : e.state.quarantineGet hex with
      | none => exact .kept _ none rfl
      | some q => exact .removed q env (Or.inl (completed_of_lifted hm))
    next => exact .kept _ _ rfl

/-- The registry as it is after an action that is no bookkeeping, no re-arm and no trip. -/
theorem Action.apply_quarantined {a : Action} (unbooked : ∀ env, a ≠ .bookkeep env)
    (unarmed : ∀ hex q saved, a ≠ .rearm hex q saved)
    (untripped : ∀ now env trip, a ≠ .enforceTrip now env trip) :
    (a.apply s e).state.quarantined = e.state.quarantined := by
  cases a with
  | reconcile catalog env =>
    rw [Action.apply, KeepAt.reconcile, Engine.updateEach_quarantined]
    rcases vanishedPass_cases s { e with lastCatalog := some catalog } catalog env.vanished with
      ⟨-, h⟩ | ⟨-, h⟩ <;> rw [h]
    exact Engine.evictDue_quarantined _ _ _ _ _
  | refresh env readAt => exact Engine.updateEach_quarantined _ _ _
  | evictStalled catalog env =>
    rw [Action.apply]
    rcases evictStalledTorrents_cases s e catalog env with ⟨-, h⟩ | ⟨-, h⟩ <;> rw [h]
    exact Engine.evictDue_quarantined _ _ _ _ _
  | readMetadata hex env => rfl
  | act c n seederFloor env => exact actOnCandidate_quarantined s e c n seederFloor env
  | bookkeep env => exact absurd rfl (unbooked env)
  | rememberCatalog catalog => rfl
  | rearm hex q saved => exact absurd rfl (unarmed hex q saved)
  | enforceTrip now env trip => exact absurd rfl (untripped now env trip)
  | pushLive => rfl

theorem EntryChange.of_quarantined {m : Move} {after : Engine}
    (h : after.state.quarantined = e.state.quarantined) (untripped : m.trippedAt hex = none) :
    EntryChange s e hex m (e.state.quarantineGet hex) (after.state.quarantineGet hex) := by
  have hsame : after.state.quarantineGet hex = e.state.quarantineGet hex := by
    rw [State.quarantineGet, h, State.quarantineGet]
  rw [hsame]
  exact .kept m _ untripped

/-- Every entry of the registry changes by a trip, by a re-probe, or in the bookkeeping of a pass. -/
theorem Move.entry_change {m : Move} (allowed : m.Allowed e) (hex : String) :
    EntryChange s e hex m (e.state.quarantineGet hex) ((m.apply s e).state.quarantineGet hex) := by
  cases m with
  | action a =>
    cases a with
    | bookkeep env => exact bookkeep_change env hex
    | enforceTrip now env trip =>
      obtain ⟨key, trip⟩ := trip
      obtain ⟨title, suffix, hget⟩ := enforceTrip_get (s := s) (e := e) now env key hex trip
      simp only [Move.apply, Action.apply, hget]
      split
      next he =>
        subst he
        exact .tripped _ now env trip title suffix
      next he => exact .kept _ _ (if_neg fun h => he h.symm)
    | rearm hex q saved => exact absurd rfl (allowed hex q saved)
    | _ =>
      refine EntryChange.of_quarantined (Action.apply_quarantined ?_ ?_ ?_) rfl
      all_goals simp
  | probe key listed heldCount seederFloor now env =>
    obtain ⟨-, q, hq, hlapsed⟩ := allowed
    simp only [Move.apply, hq]
    rcases reprobeOne_cases s listed seederFloor now env (e, heldCount) key q with
      ⟨torrentCache, hr⟩ | ⟨torrentCache, c, -, -, -, hr⟩
    · rw [hr]
      exact .kept _ _ rfl
    · have hreg := actOnCandidate_quarantined s { e with torrentCache } c heldCount seederFloor (env key).act
      rw [hr]
      simp only [State.quarantinePut_get]
      split
      next he =>
        subst he
        rw [hq]
        exact .rearmed q listed heldCount seederFloor now env hlapsed
      next he => exact EntryChange.of_quarantined hreg rfl

/-- What an engine may become next: by a move, or as another iteration order of its map. -/
inductive MoveStep (s : Settings) : Engine → Engine → Prop
  | move (e : Engine) (m : Move) (allowed : m.Allowed e) : MoveStep s e (m.apply s e)
  | rehash (e : Engine) (ts : List Torrent) (h : ts.Perm e.state.torrents.values) :
      MoveStep s e { e with state := e.state.rehash ts h }

theorem MoveStep.action (e : Engine) {a : Action} (unarmed : ∀ hex q saved, a ≠ .rearm hex q saved) :
    MoveStep s e (a.apply s e) := .move e (.action a) unarmed

theorem scanRun_moves {seederFloor : Nat} {Reads : String → TorrentMeta → Prop} {items : List Item}
    {env : ScanEnv} {y : ScanState}
    (run : Relation.ReflTransGen (ScanStep s seederFloor Reads) (beginScan s e items env) y) :
    Relation.ReflTransGen (MoveStep s) e y.engine := by
  refine scanRun_within (fun e a h => MoveStep.action e ?_) .rehash run
  rintro hex q saved rfl
  exact h

theorem lapsed_distinct (st : State) (now : Time) : ((lapsed st now).map Prod.fst).Nodup := by
  have hperm := (List.perm_insertionSort (·.1 ≤ ·.1) (st.quarantinedKeys.filterMap fun hex =>
    (st.quarantineGet hex).bind fun q =>
      if now ≥ q.cooldownUntil ∧ (st.get hex).isNone then some (hex, q) else none)).map Prod.fst
  rw [lapsed, hperm.nodup_iff, List.map_filterMap]
  have hkey : ∀ {hex key : String}, key ∈ ((st.quarantineGet hex).bind fun q =>
      if now ≥ q.cooldownUntil ∧ (st.get hex).isNone then some (hex, q) else none).map Prod.fst →
      hex = key := by
    intro hex key hm
    obtain ⟨p, hp, rfl⟩ := Option.map_eq_some_iff.mp hm
    obtain ⟨q, -, hq⟩ := Option.bind_eq_some_iff.mp hp
    obtain ⟨-, he⟩ := Option.ite_none_right_eq_some.mp hq
    exact congrArg Prod.fst (Option.some.inj he)
  exact List.Nodup.filterMap (fun _ _ _ h h' => (hkey h).trans (hkey h').symm) st.quarantined.distinct

/-- An entry that a re-probe snapshots stays current until its turn comes, as the entries before it are of
other hashes. -/
theorem reprobes_moves (s : Settings) (seederFloor : Nat) (now : Time) (env : String → ProbeEnv)
    {listed : List String} (spelled : SpelledList listed) (entries : List (String × Quarantine))
    (acc : Engine × Nat) (distinct : (entries.map Prod.fst).Nodup)
    (current : ∀ p ∈ entries, acc.1.state.quarantineGet p.1 = some p.2 ∧ p.2.cooldownUntil ≤ now) :
    Relation.ReflTransGen (MoveStep s) acc.1
      (entries.foldl (reprobeOne s listed seederFloor now env) acc).1 := by
  induction entries generalizing acc with
  | nil => exact .refl
  | cons p entries ih =>
    obtain ⟨hex, q⟩ := p
    obtain ⟨⟨hq, hlapsed⟩, hrest⟩ := List.forall_mem_cons.mp current
    obtain ⟨hfresh, hdistinct⟩ := List.nodup_cons.mp distinct
    have hallowed : (Move.probe hex listed acc.2 seederFloor now env).Allowed acc.1 :=
      ⟨spelled, q, hq, hlapsed⟩
    have happly : (Move.probe hex listed acc.2 seederFloor now env).apply s acc.1 =
        (reprobeOne s listed seederFloor now env acc (hex, q)).1 := by
      simp only [Move.apply, hq]
    have hstep := MoveStep.move (s := s) acc.1 _ hallowed
    rw [happly] at hstep
    refine .head hstep (ih _ hdistinct fun p hp => ⟨?_, (hrest p hp).2⟩)
    have hchange := Move.entry_change (s := s) hallowed p.1
    rw [happly, (hrest p hp).1] at hchange
    generalize (reprobeOne s listed seederFloor now env acc (hex, q)).1.state.quarantineGet p.1 = entry
      at hchange ⊢
    generalize hkey : p.1 = key at hchange
    cases hchange with
    | kept => rfl
    | rearmed =>
      have hmem : p.1 ∈ entries.map Prod.fst := List.mem_map_of_mem hp
      exact absurd (hkey ▸ hmem) hfresh

theorem quarantineReprobe_moves (s : Settings) {e : Engine} {env : ReprobeEnv}
    (spelled : ∀ listed, e.lastCatalog.or env.catalog = some listed → SpelledList listed) :
    Relation.ReflTransGen (MoveStep s) e (quarantineReprobe s e env) := by
  simp only [quarantineReprobe]
  split
  next => exact .refl
  next =>
    split
    next => exact .refl
    next listed hlisted =>
      have remembered := MoveStep.action (s := s) e (a := .rememberCatalog listed) (by simp)
      have probed := reprobes_moves s env.seederFloor env.now env.probe (spelled listed hlisted)
        (lapsed e.state env.now) ({ e with lastCatalog := some listed }, e.state.torrents.size)
        (lapsed_distinct _ _) fun p hp => lapsed_registered hp
      exact .head remembered probed

/-- A watchdog pass is a run of moves. -/
theorem quarantinePass_moves {env : PassEnv}
    (spelled : ∀ listed, e.lastCatalog.or env.reprobe.catalog = some listed → SpelledList listed) :
    Relation.ReflTransGen (MoveStep s) e (quarantinePass s e env) := by
  have booked := MoveStep.action (s := s) e (a := .bookkeep env.bookkeep) (by simp)
  have pushed := fun e' => MoveStep.action (s := s) e' (a := .pushLive) (by simp)
  have probed := quarantineReprobe_moves s (e := (bookkeep s e env.bookkeep).1) spelled
  have tripped : ∀ (trips : List (String × Trip)) (e' : Engine), Relation.ReflTransGen (MoveStep s) e'
      (trips.foldl (enforceTrip s env.tripNow env.trip) e') := by
    intro trips
    induction trips with
    | nil => exact fun _ => .refl
    | cons trip trips ih =>
      intro e'
      exact .head (MoveStep.action e' (a := .enforceTrip env.tripNow env.trip trip) (by simp)) (ih _)
  simp only [quarantinePass]
  split
  next => exact .refl
  next =>
    split
    next =>
      split
      next => exact (Relation.ReflTransGen.head booked probed).tail (pushed _)
      next => exact .head booked probed
    next => exact ((Relation.ReflTransGen.head booked probed).trans (tripped _ _)).tail (pushed _)

end KeepAt
