import KeepAt.EntryHistory
import KeepAt.Reference
import KeepAt.Scan
import KeepAt.SizeText
import Mathlib.Data.Finset.SDiff

namespace KeepAt

/-- What a reader of the ledger takes to be held after one more event. -/
def Event.replay (held : Finset String) : Event → Finset String
  | .add _ hash _ _ _ _ _ _ _ _ _ displaced =>
    insert hash held \ (displaced.map Displaced.hash).toFinset
  | .remove _ hash _ _ _ _ _ _ => held.erase hash

def replay (events : List Event) : Finset String := events.foldl Event.replay ∅

def heldSet (e : Engine) : Finset String := (heldHashes e).toFinset

/-- The torrents an eviction pass drops without a ledger line: those whose removal is not saved. -/
def unsavedDrops (due : Torrent → Option String) (env : String → EvictEnv) (ts : List Torrent) :
    Finset String :=
  ((ts.filter fun t => (due t).isSome && !(env t.infoHash).remove.saved).map Torrent.infoHash).toFinset

def Action.unsaved (s : Settings) (e : Engine) : Action → Finset String
  | .reconcile catalog env =>
    if catalogCollapse s.cfg.config.catalogCollapsePercent e.state.all catalog ∨
        s.cfg.config.preserveDeletedTorrents = true then ∅
    else unsavedDrops (vanishedReason s.scan.vanishedEvictionTimeout catalog env.vanished.now)
      env.vanished.evict e.state.all
  | .evictStalled catalog env =>
    if s.scan.stallEvictionTimeout = 0 then ∅
    else unsavedDrops (stalledReason s.scan.stallEvictionTimeout catalog env) env.evict e.state.all
  | .enforceTrip _ env (hex, _) =>
    if (e.state.get hex).isSome ∧ (env hex).remove.saved = false then {hex} else ∅
  | _ => ∅

/-- An engine with the hashes that left memory by a drop the state file did not take. -/
structure Booked where
  engine : Engine
  lost : Finset String

def Booked.after (s : Settings) (x : Booked) (a : Action) : Booked :=
  let engine := a.apply s x.engine
  { engine, lost := (x.lost ∪ a.unsaved s x.engine) \ heldSet engine }

inductive BookedStep (s : Settings) : Booked → Booked → Prop
  | action (x : Booked) (a : Action) : BookedStep s x (x.after s a)
  | rehash (x : Booked) (ts : List Torrent) (h : ts.Perm x.engine.state.torrents.values) :
      BookedStep s x { x with engine := { x.engine with state := x.engine.state.rehash ts h } }

/-- The ledger accounts for what is held and for what was lost, and for nothing else. -/
structure Balanced (e : Engine) (lost : Finset String) : Prop where
  replayed : replay e.history = heldSet e ∪ lost
  apart : Disjoint (heldSet e) lost

/-- Every held torrent is stored under the spelling of its hash that the program writes. -/
def Spelled (e : Engine) : Prop := ∀ hex, e.state.torrents.Has hex → ∃ hash, hex = hexEncode hash

variable {s : Settings} {e e' : Engine} {lost : Finset String}

theorem hexDigit_not_isWhiteSpace : ∀ n < 16, isWhiteSpace (hexDigit n) = false := by decide

theorem decodeHash_hexEncode (h : InfoHash) : decodeHash (hexEncode h) = some h := by
  have hplain : ∀ c ∈ h.bytes.flatMap hexPair, isWhiteSpace c = false := by
    intro c hc
    obtain ⟨b, -, hc⟩ := List.mem_flatMap.mp hc
    have hb := b.toNat_lt
    rcases List.mem_pair.mp hc with rfl | rfl
    · exact hexDigit_not_isWhiteSpace _ (by omega)
    · exact hexDigit_not_isWhiteSpace _ (by omega)
  simp only [decodeHash, hexEncode, String.toList_ofList, trim_eq_self hplain, hexDecode_flatMap,
    h.length, dite_true]

theorem mem_heldSet {hex : String} : hex ∈ heldSet e ↔ e.state.torrents.Has hex := List.mem_toFinset

theorem replay_concat (events : List Event) (ev : Event) :
    replay (events ++ [ev]) = ev.replay (replay events) := List.foldl_concat _ _ _ _

theorem Balanced.of_held (h : Balanced e lost) (held : heldSet e' = heldSet e)
    (history : e'.history = e.history) : Balanced e' lost := by
  refine ⟨?_, ?_⟩
  · rw [history, held]
    exact h.replayed
  · rw [held]
    exact h.apart

theorem Balanced.lost_sdiff (h : Balanced e lost) : lost \ heldSet e = lost :=
  Finset.sdiff_eq_self_of_disjoint h.apart.symm

theorem heldSet_erase {hex : String} (h : e'.state.torrents = e.state.torrents.erase hex) :
    heldSet e' = (heldSet e).erase hex := by
  ext k
  rw [mem_heldSet, h, KeyedList.has_erase, Finset.mem_erase, mem_heldSet, and_comm]

/-- A drop with its ledger line: the ledger forgets the hash together with the memory. -/
theorem Balanced.drop_recorded {hex : String} (h : Balanced e lost) (held : e.state.torrents.Has hex)
    (torrents : e'.state.torrents = e.state.torrents.erase hex)
    (history : ∃ ev, e'.history = e.history ++ [ev] ∧ ∀ known, ev.replay known = known.erase hex) :
    Balanced e' lost := by
  obtain ⟨ev, hh, hev⟩ := history
  have hout : hex ∉ lost := Finset.disjoint_left.mp h.apart (mem_heldSet.mpr held)
  refine ⟨?_, ?_⟩
  · rw [hh, replay_concat, hev, h.replayed, heldSet_erase torrents, Finset.erase_union_distrib,
      Finset.erase_eq_of_notMem hout]
  · rw [heldSet_erase torrents]
    exact h.apart.mono_left (Finset.erase_subset _ _)

/-- A drop without one: the hash goes from what is held to what was lost. -/
theorem Balanced.drop_lost {hex : String} (h : Balanced e lost) (held : e.state.torrents.Has hex)
    (torrents : e'.state.torrents = e.state.torrents.erase hex) (history : e'.history = e.history) :
    Balanced e' (insert hex lost) := by
  have hin := mem_heldSet.mpr held
  refine ⟨?_, ?_⟩
  · rw [history, h.replayed, heldSet_erase torrents, Finset.union_insert, ← Finset.insert_union,
      Finset.insert_erase hin]
  · rw [heldSet_erase torrents, Finset.disjoint_insert_right]
    exact ⟨Finset.notMem_erase _ _, h.apart.mono_left (Finset.erase_subset _ _)⟩

theorem Balanced.evict {t : Torrent} {cause : Cause} {reason : String} {env : EvictEnv}
    (h : Balanced e lost) (held : e.state.torrents.Has t.infoHash) :
    Balanced (e.evict t cause reason env).1
      (if env.remove.saved then lost else insert t.infoHash lost) := by
  have ht := e.evict_torrents t cause reason env
  have hsaved := e.dropHeld_saved t.infoHash env.remove
  cases hs : env.remove.saved with
  | true =>
    refine h.drop_recorded held ht ⟨removeEvent t cause reason env.recordedAt, ?_, fun _ => rfl⟩
    simp only [Engine.evict, hsaved, hs, if_true, Engine.record_history, Engine.dropHeld_history]
  | false =>
    refine h.drop_lost held ht ?_
    simp only [Engine.evict, hsaved, hs, Bool.false_eq_true, if_false, Engine.dropHeld_history]

theorem unsavedDrops_cons (due : Torrent → Option String) (env : String → EvictEnv) (t : Torrent)
    (ts : List Torrent) :
    unsavedDrops due env (t :: ts) =
      if (due t).isSome ∧ (env t.infoHash).remove.saved = false then
        insert t.infoHash (unsavedDrops due env ts)
      else unsavedDrops due env ts := by
  unfold unsavedDrops
  by_cases h : (due t).isSome ∧ (env t.infoHash).remove.saved = false
  · rw [if_pos h, List.filter_cons_of_pos (by simp [h]), List.map_cons, List.toFinset_cons]
  · rw [if_neg h, List.filter_cons_of_neg (by simpa using h)]

theorem Balanced.evictStep (due : Torrent → Option String) (cause : Cause) (env : String → EvictEnv)
    (acc : Engine × Bool) (ts : List Torrent) (h : Balanced acc.1 lost)
    (distinct : (ts.map Torrent.infoHash).Nodup)
    (held : ∀ t ∈ ts, acc.1.state.torrents.Has t.infoHash) :
    Balanced (ts.foldl (Engine.evictStep due cause env) acc).1 (lost ∪ unsavedDrops due env ts) := by
  induction ts generalizing acc lost with
  | nil => simpa [unsavedDrops] using h
  | cons t ts ih =>
    obtain ⟨hnot, hdistinct⟩ := List.nodup_cons.mp distinct
    obtain ⟨ht, hheld⟩ := List.forall_mem_cons.mp held
    rw [List.foldl_cons, unsavedDrops_cons]
    cases hd : due t with
    | none =>
      simp only [Engine.evictStep, hd, Option.isSome_none, Bool.false_eq_true, false_and, if_false]
      exact ih acc h hdistinct hheld
    | some reason =>
      have hrest : ∀ u ∈ ts,
          (acc.1.evict t cause reason (env t.infoHash)).1.state.torrents.Has u.infoHash := by
        intro u hu
        rw [Engine.evict_torrents]
        exact KeyedList.has_erase.mpr ⟨hheld u hu, fun he => hnot (he ▸ List.mem_map_of_mem hu)⟩
      simp only [Engine.evictStep, hd, Option.isSome_some, true_and]
      have hone := ih ((acc.1.evict t cause reason (env t.infoHash)).1,
        acc.2 || (acc.1.evict t cause reason (env t.infoHash)).2) (h.evict ht) hdistinct hrest
      cases hs : (env t.infoHash).remove.saved with
      | true => simpa [hs] using hone
      | false => simpa [hs, Finset.insert_union, Finset.union_insert] using hone

theorem Balanced.evictDue {due : Torrent → Option String} {cause : Cause} {env : String → EvictEnv}
    (h : Balanced e lost) :
    Balanced (e.evictDue due cause env e.state.all) (lost ∪ unsavedDrops due env e.state.all) := by
  have hs := Balanced.evictStep due cause env (e, false) e.state.all h
    e.state.torrents.distinct fun t ht => KeyedList.has_of_mem ht
  simp only [Engine.evictDue]
  split <;> exact hs.of_held rfl rfl

theorem displacedEvent_hash {t : Torrent} {hash : InfoHash} (h : t.infoHash = hexEncode hash) :
    (displacedEvent (heldView t)).hash = t.infoHash := by
  simp only [displacedEvent, heldView, h, decodeHash_hexEncode, Option.getD_some]

/-- Memory takes the new entry in and the displaced ones out, and so does the ledger's one line. -/
theorem Balanced.placed {c : Candidate} {env : ActEnv} {md : TorrentMeta} {location : PathBuf}
    {place : PlaceEnv} {displaced : List Torrent} (h : Balanced e lost) (spelled : Spelled e)
    (placed : Placed s e c env e' md location place displaced) :
    Balanced e' (lost \ heldSet e') := by
  obtain ⟨floor, decision, hrec⟩ := placed.admitted.recorded
  have hout : displaced.map (Displaced.hash ∘ displacedEvent ∘ heldView) =
      displaced.map Torrent.infoHash := by
    refine List.map_congr_left fun d hd => ?_
    obtain ⟨hash, hh⟩ := spelled _ (KeyedList.has_of_mem (placed.held d hd))
    exact displacedEvent_hash hh
  have hheld : heldSet e' = insert (hexEncode c.infoHash) (heldSet e) \
      (displaced.map Torrent.infoHash).toFinset := by
    ext hex
    rw [mem_heldSet, placed.admitted.torrents, KeyedList.has_eraseAll, KeyedList.has_insert,
      Finset.mem_sdiff, Finset.mem_insert, mem_heldSet, List.mem_toFinset]
    rfl
  have hkept : ∀ hex ∈ lost, hex ∉ displaced.map Torrent.infoHash := by
    intro hex hl hm
    obtain ⟨d, hd, rfl⟩ := List.mem_map.mp hm
    exact Finset.disjoint_left.mp h.apart (mem_heldSet.mpr (KeyedList.has_of_mem (placed.held d hd))) hl
  have hreplay : replay e'.history = insert (hexEncode c.infoHash) (heldSet e ∪ lost) \
      (displaced.map Torrent.infoHash).toFinset := by
    rw [hrec, replay_concat, h.replayed]
    simp only [addEvent, Event.replay, List.map_map, hout]
  refine ⟨?_, Finset.disjoint_sdiff⟩
  ext hex
  have := hkept hex
  rw [Finset.union_sdiff_self_eq_union, hreplay, hheld]
  simp only [Finset.mem_sdiff, Finset.mem_insert, Finset.mem_union, List.mem_toFinset]
  tauto

theorem Balanced.enforceTrip (s : Settings) (now : Time) (env : String → EvictEnv) (hex : String) (trip : Trip)
    (h : Balanced e lost) :
    Balanced (enforceTrip s now env e (hex, trip))
      (if (e.state.get hex).isSome ∧ (env hex).remove.saved = false then insert hex lost else lost) := by
  cases hget : e.state.get hex with
  | none =>
    obtain ⟨ht, hh⟩ := enforceTrip_untracked s now env trip hget
    rw [if_neg (by simp)]
    exact h.of_held (by rw [heldSet, heldHashes, State.all, ht]; rfl) hh
  | some held =>
    obtain ⟨hmem, hkey⟩ := KeyedList.find_eq_some.mp hget
    have hheld : e.state.torrents.Has hex := hkey ▸ KeyedList.has_of_mem hmem
    obtain ⟨ht, hh⟩ := enforceTrip_tracked s now env trip hget
    cases hs : (env hex).remove.saved with
    | true =>
      rw [hs, if_pos rfl] at hh
      rw [if_neg (by simp)]
      refine h.drop_recorded hheld ht ⟨_, hh, fun _ => ?_⟩
      simp only [removeEvent, Event.replay, hkey]
    | false =>
      rw [hs, if_neg (by simp)] at hh
      rw [if_pos (by simp)]
      exact h.drop_lost hheld ht hh

theorem bookkeep_has (env : BookkeepEnv) (hex : String) :
    (bookkeep s e env).1.state.torrents.Has hex ↔ e.state.torrents.Has hex := by
  have hkeys : ∀ updates, Torrent.infoHash ∘ State.applyUpdates updates = Torrent.infoHash :=
    fun updates => funext (State.applyUpdates_infoHash updates)
  rw [KeyedList.Has, bookkeep_values, List.map_map, hkeys]
  rfl

/-- The hashes an action leaves held were held before, or were added under the program's spelling. -/
theorem Action.apply_has {a : Action} {hex : String} (h : (a.apply s e).state.torrents.Has hex) :
    e.state.torrents.Has hex ∨ ∃ hash, hex = hexEncode hash := by
  have kept : ∀ {e' : Engine}, e'.state.torrents.values ⊆ e.state.torrents.values →
      e'.state.torrents.Has hex → e.state.torrents.Has hex := by
    intro e' hsub hh
    obtain ⟨t, ht, rfl⟩ := KeyedList.has_iff.mp hh
    exact KeyedList.has_of_mem (hsub ht)
  cases a with
  | reconcile catalog env =>
    rw [Action.apply, KeepAt.reconcile, Engine.updateEach_has] at h
    exact Or.inl (kept (vanishedPass_subset s { e with lastCatalog := some catalog } catalog
      env.vanished) h)
  | refresh env readAt =>
    rw [Action.apply, refreshHeldSeederCounts, Engine.updateEach_has] at h
    exact Or.inl h
  | evictStalled catalog env => exact Or.inl (kept (evictStalledTorrents_subset _ _ _ _) h)
  | readMetadata hex env => exact Or.inl h
  | act c n seederFloor env =>
    rcases actOnCandidate_admitted s e c n seederFloor env with ⟨ht, -⟩ | ⟨_, _, _, _, hadm⟩
    · exact Or.inl (ht ▸ h)
    · rw [Action.apply, hadm.torrents] at h
      exact (KeyedList.has_insert.mp (KeyedList.has_eraseAll.mp h).1).elim
        (fun he => Or.inr ⟨c.infoHash, he⟩) Or.inl
  | bookkeep env => exact Or.inl ((bookkeep_has env hex).mp h)
  | rememberCatalog catalog => exact Or.inl h
  | rearm hex' q saved =>
    rw [Action.apply, State.quarantinePut_torrents] at h
    exact Or.inl h
  | enforceTrip now env trip => exact Or.inl (kept (enforceTrip_subset _ _ _ _ _) h)
  | pushLive => exact Or.inl h

theorem Spelled.apply (h : Spelled e) (a : Action) : Spelled (a.apply s e) :=
  fun hex hh => (Action.apply_has hh).elim (h hex) id

theorem heldSet_of_has (h : ∀ hex, e'.state.torrents.Has hex ↔ e.state.torrents.Has hex) :
    heldSet e' = heldSet e := by
  ext hex
  rw [mem_heldSet, mem_heldSet, h]

theorem Balanced.vanishedPass (s : Settings) (catalog : List String) (env : VanishedEnv) (h : Balanced e lost) :
    Balanced (vanishedPass s e catalog env)
      (lost ∪ (if catalogCollapse s.cfg.config.catalogCollapsePercent e.state.all catalog ∨
          s.cfg.config.preserveDeletedTorrents = true then ∅
        else unsavedDrops (vanishedReason s.scan.vanishedEvictionTimeout catalog env.now) env.evict
          e.state.all)) := by
  rcases vanishedPass_cases s e catalog env with ⟨hc, hpass⟩ | ⟨⟨hc, hp⟩, hpass⟩ <;> rw [hpass]
  · rwa [if_pos hc, Finset.union_empty]
  · rw [hc, hp, if_neg (by simp)]
    exact h.evictDue

/-- What one action does to the books. -/
theorem Balanced.apply (h : Balanced e lost) (spelled : Spelled e) (a : Action) :
    Balanced (a.apply s e) ((lost ∪ a.unsaved s e) \ heldSet (a.apply s e)) := by
  have settled : ∀ {unsaved : Finset String}, a.unsaved s e = unsaved →
      Balanced (a.apply s e) (lost ∪ unsaved) →
      Balanced (a.apply s e) ((lost ∪ a.unsaved s e) \ heldSet (a.apply s e)) := by
    rintro unsaved rfl hb
    rwa [hb.lost_sdiff]
  have quiet : a.unsaved s e = ∅ → (∀ hex, (a.apply s e).state.torrents.Has hex ↔
      e.state.torrents.Has hex) → (a.apply s e).history = e.history →
      Balanced (a.apply s e) ((lost ∪ a.unsaved s e) \ heldSet (a.apply s e)) := by
    intro hu hheld hh
    refine settled hu ?_
    rw [Finset.union_empty]
    exact h.of_held (heldSet_of_has hheld) hh
  cases a with
  | reconcile catalog env =>
    have hpass := Balanced.vanishedPass s catalog env.vanished
      (e := { e with lastCatalog := some catalog }) ⟨h.replayed, h.apart⟩
    exact settled rfl (hpass.of_held (heldSet_of_has (Engine.updateEach_has _ _ _))
      (Engine.updateEach_history _ _ _))
  | refresh env readAt =>
    exact quiet rfl (Engine.updateEach_has _ _ _) (Engine.updateEach_history _ _ _)
  | evictStalled catalog env =>
    refine settled rfl ?_
    simp only [Action.apply, Action.unsaved]
    rcases evictStalledTorrents_cases s e catalog env with ⟨hz, hpass⟩ | ⟨hz, hpass⟩ <;> rw [hpass]
    · rwa [if_pos hz, Finset.union_empty]
    · rw [if_neg hz]
      exact h.evictDue
  | readMetadata hex env => exact quiet rfl (fun _ => Iff.rfl) rfl
  | act c n seederFloor env =>
    rcases actOnCandidate_placed s e c n seederFloor env with ⟨ht, hh⟩ | ⟨_, _, _, _, hplaced⟩
    · exact quiet rfl (fun hex => by rw [Action.apply, ht]) hh
    · have hp := h.placed spelled hplaced
      rw [← Finset.union_empty lost] at hp
      exact hp
  | bookkeep env => exact quiet rfl (bookkeep_has env) rfl
  | rememberCatalog catalog => exact quiet rfl (fun _ => Iff.rfl) rfl
  | rearm hex q saved =>
    exact quiet rfl (fun k => by rw [Action.apply, State.quarantinePut_torrents]) rfl
  | enforceTrip now env trip =>
    obtain ⟨hex, trip⟩ := trip
    refine settled rfl ?_
    have ht := h.enforceTrip s now env hex trip
    split at ht
    next hu => rwa [Action.unsaved, if_pos hu, Finset.union_comm, ← Finset.insert_eq]
    next hu => rwa [Action.unsaved, if_neg hu, Finset.union_empty]
  | pushLive => exact quiet rfl (fun _ => Iff.rfl) rfl

theorem bookedStep_balanced {x y : Booked} (step : BookedStep s x y)
    (h : Balanced x.engine x.lost ∧ Spelled x.engine) : Balanced y.engine y.lost ∧ Spelled y.engine := by
  cases step with
  | action a => exact ⟨h.1.apply h.2 a, h.2.apply a⟩
  | rehash ts hperm =>
    have hheld : ∀ hex, (x.engine.state.rehash ts hperm).torrents.Has hex ↔
        x.engine.state.torrents.Has hex := fun hex => (hperm.map Torrent.infoHash).mem_iff
    exact ⟨h.1.of_held (heldSet_of_has hheld) rfl, fun hex hh => h.2 hex ((hheld hex).mp hh)⟩

/-- In a run from an empty engine the ledger replays to what is held, together with what was lost: the
hashes that an eviction or a trip dropped under a failed save of the state, and that are not held
again. -/
theorem ledger_replays_held_and_lost {x y : Booked} (run : Relation.ReflTransGen (BookedStep s) x y)
    (held : x.engine.state.torrents = .empty) (history : x.engine.history = []) (lost : x.lost = ∅) :
    replay y.engine.history = heldSet y.engine ∪ y.lost ∧ Disjoint (heldSet y.engine) y.lost := by
  have start : Balanced x.engine x.lost ∧ Spelled x.engine := by
    refine ⟨⟨?_, ?_⟩, fun hex hh => ?_⟩
    · rw [history, lost, heldSet, heldHashes, State.all, held]
      rfl
    · rw [lost]
      exact Finset.disjoint_empty_right _
    · rw [held] at hh
      cases hh
  have balanced := (run_preserves (P := fun x => Balanced x.engine x.lost ∧ Spelled x.engine)
    bookedStep_balanced run start).1
  exact ⟨balanced.replayed, balanced.apart⟩

namespace Reference

/-- An engine that fills with one torrent, and then evicts it as stalled without the state being
saved. -/
def booked : Booked := ⟨engine [] List.nodup_nil, ∅⟩

def fillOne : Action := .act (candidate hashA 1) 0 0 (env true)

def evictOne : Action :=
  .evictStalled [hexEncode hashA]
    { now := 1 + settings.scan.stallEvictionTimeout, find := fun _ => none, dirSize := fun _ => 0,
      evict := fun _ => ⟨⟨true, true, false⟩, 2⟩ }

theorem booked_run :
    Relation.ReflTransGen (BookedStep settings) booked
      ((booked.after settings fillOne).after settings evictOne) :=
  (Relation.ReflTransGen.single (.action booked fillOne)).tail (.action _ evictOne)

end Reference

theorem ledger_replays_held_and_lost_one :
    let y := (Reference.booked.after Reference.settings Reference.fillOne).after Reference.settings
      Reference.evictOne
    y.lost = {hexEncode Reference.hashA} ∧ replay y.engine.history = heldSet y.engine ∪ y.lost := by
  intro y
  have hrun := ledger_replays_held_and_lost Reference.booked_run rfl rfl rfl
  exact ⟨by decide +kernel, hrun.1⟩

/-- The line of the drop is missing, so the ledger still lists the hash. -/
theorem ledger_lists_unsaved_drop :
    ∃ y, Relation.ReflTransGen (BookedStep Reference.settings) Reference.booked y ∧
      Reference.booked.engine.state.torrents = .empty ∧ Reference.booked.engine.history = [] ∧
      replay y.engine.history ≠ heldSet y.engine :=
  ⟨_, Reference.booked_run, rfl, rfl, by decide +kernel⟩

end KeepAt
