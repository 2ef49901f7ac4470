import KeepAt.Daemon
import KeepAt.HistoryRender
import KeepAt.Process
import KeepAt.Reference

namespace KeepAt

/-- All torrents of a state, in memory and in its file. -/
structure State.Every (P : Torrent → Prop) (st : State) : Prop where
  held : ∀ t ∈ st.torrents.values, P t
  stored : ∀ t ∈ st.file.torrents.values, P t

namespace State.Every

variable {P : Torrent → Prop} {st : State}

theorem save (h : st.Every P) (saved : Bool) : (st.save saved).1.Every P := by
  cases saved with
  | true => exact ⟨h.held, h.held⟩
  | false => exact h

theorem saveChanged {α : Type} (h : st.Every P) (changed : Bool) (result : α) (saved : Bool) :
    (st.saveChanged changed result saved).1.Every P := by
  cases changed with
  | true => exact h.save saved
  | false => exact h

theorem erase (h : st.Every P) (hex : String) (registry : Registry) :
    State.Every P { st with torrents := st.torrents.erase hex, quarantined := registry } :=
  ⟨fun t ht => h.held t (KeyedList.mem_erase.mp ht).1, h.stored⟩

theorem mapped {torrents : HeldMap} {f : Torrent → Torrent} (h : st.Every P) (keeps : ∀ t, P t → P (f t))
    (values : torrents.values = st.torrents.values.map f) : State.Every P { st with torrents } := by
  refine ⟨fun t ht => ?_, h.stored⟩
  obtain ⟨u, hu, rfl⟩ := List.mem_map.mp (values ▸ ht)
  exact keeps u (h.held u hu)

theorem put {t : Torrent} (h : st.Every P) (ht : P t) (saved : Bool) : (st.put t saved).1.Every P := by
  have hinsert : State.Every P { st with torrents := st.torrents.insert t } := by
    refine ⟨fun u hu => ?_, h.stored⟩
    rcases KeyedList.mem_insert.mp hu with rfl | ⟨hu, -⟩
    · exact ht
    · exact h.held u hu
  exact hinsert.save saved

theorem remove (h : st.Every P) (hex : String) (saved : Bool) : (st.remove hex saved).1.Every P :=
  (h.erase hex st.quarantined).save saved

theorem registered (h : st.Every P) (registry : Registry) : State.Every P { st with quarantined := registry } :=
  ⟨h.held, h.stored⟩

theorem quarantinePut (h : st.Every P) (hex : String) (q : Quarantine) (saved : Bool) :
    (st.quarantinePut hex q saved).1.Every P :=
  (h.registered (st.quarantined.insert (hex, q))).save saved

theorem quarantineAndRemove (h : st.Every P) (hex : String) (q : Quarantine) (saved : Bool) :
    (st.quarantineAndRemove hex q saved).1.Every P :=
  (h.erase hex (st.quarantined.insert (hex, q))).save saved

theorem quarantineRemoveMany (h : st.Every P) (hashes : List String) (saved : Bool) :
    (st.quarantineRemoveMany hashes saved).1.Every P := by
  simp only [State.quarantineRemoveMany]
  exact (h.registered _).saveChanged _ _ saved

theorem applyUpdates {updates : List (String × TorrentUpdate)} (keeps : ∀ u ∈ updates, ∀ t, P t → P (u.2.apply t))
    {t : Torrent} (ht : P t) : P (State.applyUpdates updates t) := by
  induction updates generalizing t with
  | nil => exact ht
  | cons u rest ih =>
    obtain ⟨hu, hrest⟩ := List.forall_mem_cons.mp keeps
    have hone : P (if t.infoHash = u.1 then u.2.apply t else t) := by
      split
      · exact hu t ht
      · exact ht
    exact ih hrest hone

theorem updateEach {updates : List (String × TorrentUpdate)} (h : st.Every P)
    (keeps : ∀ u ∈ updates, ∀ t, P t → P (u.2.apply t)) (saved : Bool) : (st.updateEach updates saved).1.Every P := by
  have hvalues := st.updateEach_values updates saved
  simp only [State.updateEach, State.saveChanged_torrents] at hvalues ⊢
  exact (h.mapped (fun t => applyUpdates keeps) hvalues).saveChanged _ _ saved

theorem updateProgressMany {progress : List (String × Nat)} {now : Time} (h : st.Every P)
    (keeps : ∀ checked t, P t → P ((State.progressUpdate checked now).apply t)) (saved : Bool) :
    (st.updateProgressMany progress now saved).1.Every P := by
  have hvalues := st.updateProgressMany_values progress now saved
  have hkeeps : ∀ u ∈ State.progressUpdates progress now, ∀ t, P t → P (u.2.apply t) := by
    intro u hu t ht
    obtain ⟨p, -, rfl⟩ := List.mem_map.mp hu
    exact keeps p.2 t ht
  simp only [State.updateProgressMany, State.saveChanged_torrents] at hvalues ⊢
  exact (h.mapped (fun t => applyUpdates hkeeps) hvalues).saveChanged _ _ saved

theorem rekeyStorageLocations {canonicalize : PathBuf → Option PathBuf} {locations : List PathBuf} (h : st.Every P)
    (keeps : ∀ t, P t → P (State.rekeyed canonicalize locations t)) (saved : Bool) :
    (st.rekeyStorageLocations canonicalize locations saved).1.Every P := by
  simp only [State.rekeyStorageLocations]
  split
  next => exact (h.mapped keeps rfl).save saved
  next => exact h

end State.Every

/-- A torrent of which a line of the history can be shown. -/
structure Torrent.Shown (t : Torrent) : Prop where
  hash : SpelledHash t.infoHash
  location : ControlFree (pathText t.storageLocation)

theorem Torrent.Shown.of_eq {t u : Torrent} (h : t.Shown) (hash : u.infoHash = t.infoHash)
    (location : u.storageLocation = t.storageLocation) : u.Shown :=
  ⟨hash ▸ h.hash, location ▸ h.location⟩

theorem shown_progressUpdate (checked : Nat) (now : Time) (t : Torrent) (h : t.Shown) :
    ((State.progressUpdate checked now).apply t).Shown := by
  refine h.of_eq ((State.progressUpdate checked now).keeps t) ?_
  simp only [State.progressUpdate]
  split <;> rfl

def Settings.Shown (s : Settings) : Prop := ∀ loc ∈ s.storage, ControlFree (pathText loc.path)

/-- What is held can be shown, and what the ledger has. -/
structure Engine.Presentable (e : Engine) : Prop where
  torrents : e.state.Every Torrent.Shown
  ledger : ∀ ev ∈ e.history, ev.Printable

namespace Engine.Presentable

variable {s : Settings} {e : Engine}

theorem record {ev : Event} (h : e.Presentable) (hev : ev.Printable) : (e.record ev).Presentable := by
  refine ⟨h.torrents, fun x hx => ?_⟩
  rcases List.mem_append.mp hx with hx | hx
  · exact h.ledger x hx
  · rw [List.mem_singleton.mp hx]
    exact hev

theorem pushLive (h : e.Presentable) : e.pushLive.Presentable := ⟨h.torrents, h.ledger⟩

theorem dropHeld (h : e.Presentable) (hex : String) (env : RemoveEnv) : (e.dropHeld hex env).1.Presentable :=
  ⟨h.torrents.remove hex env.saved, h.ledger⟩

theorem evict {t : Torrent} {reason : String} (h : e.Presentable) (ht : t.Shown) (hreason : ControlFree reason)
    (cause : Cause) (env : EvictEnv) : (e.evict t cause reason env).1.Presentable := by
  have hdropped := h.dropHeld t.infoHash env.remove
  simp only [Engine.evict]
  split
  next => exact hdropped.record ⟨ht.hash, ht.location, hreason⟩
  next => exact hdropped

theorem evictDue {due : Torrent → Option String} {ts : List Torrent} (h : e.Presentable)
    (hts : ∀ t ∈ ts, t.Shown) (hdue : ∀ t reason, due t = some reason → ControlFree reason) (cause : Cause)
    (env : String → EvictEnv) : (e.evictDue due cause env ts).Presentable := by
  have hfold : ∀ (ts : List Torrent) (acc : Engine × Bool), (∀ t ∈ ts, t.Shown) → acc.1.Presentable →
      (ts.foldl (Engine.evictStep due cause env) acc).1.Presentable := by
    intro ts
    induction ts with
    | nil => exact fun _ _ hacc => hacc
    | cons t rest ih =>
      intro acc hall hacc
      obtain ⟨ht, hrest⟩ := List.forall_mem_cons.mp hall
      refine ih _ hrest ?_
      unfold Engine.evictStep
      split
      next => exact hacc
      next reason hreason => exact hacc.evict ht (hdue t reason hreason) cause _
  have hpass := hfold ts (e, false) hts h
  simp only [Engine.evictDue]
  split
  next => exact hpass.pushLive
  next => exact hpass

theorem updateEach {updates : List (String × TorrentUpdate)} (h : e.Presentable)
    (keeps : ∀ u ∈ updates, ∀ t : Torrent, t.Shown → (u.2.apply t).Shown) (saved : Bool) :
    (e.updateEach updates saved).Presentable := by
  have hstate := h.torrents.updateEach keeps saved
  simp only [Engine.updateEach]
  split <;> exact ⟨hstate, h.ledger⟩

theorem removeDisplaced (remove : String → RemoveEnv) (ds : List Torrent) (h : e.Presentable) (removed : Nat) :
    (removeDisplaced e remove ds removed).1.Presentable := by
  induction ds generalizing e removed with
  | nil => exact h
  | cons d rest ih => exact ih (h.dropHeld d.infoHash (remove d.infoHash)) _

theorem finishSwap (remove : String → RemoveEnv) (ds : List Torrent) (decision : SwapDecision F64)
    (h : e.Presentable) : (finishSwap e remove ds decision).1.Presentable := by
  have hremoved := h.removeDisplaced remove ds 0
  simp only [KeepAt.finishSwap]
  split
  next => exact hremoved.pushLive
  next => exact hremoved

end Engine.Presentable

theorem evaluateSwap_reason {c : Candidate} {displaced : List Held} {margin : Int} {aggressiveness roll : F64}
    (h : (evaluateSwap c displaced margin aggressiveness roll).shouldSwap = true) :
    (evaluateSwap c displaced margin aggressiveness roll).reason = "seed-scarcity roll succeeded" := by
  obtain ⟨ha, hm, hr⟩ := evaluateSwap_shouldSwap.mp h
  simp [evaluateSwap, ha, hm, hr]

section Placement

variable {s : Settings} {e : Engine} {c : Candidate} {md : TorrentMeta}

theorem tryAdd_presentable {location : PathBuf} (h : e.Presentable) (hlocation : ControlFree (pathText location))
    (sizeBytes : Nat) (displaced : List Held) (seederFloor : Nat) (roll : F64) (env : PlaceEnv) :
    (tryAdd s e c md sizeBytes location displaced seederFloor roll env).1.Presentable := by
  rcases tryAdd_cases s e c md sizeBytes location displaced seederFloor roll env with ⟨-, hadd⟩ | ⟨ha, session, -, hadd⟩
  · rw [hadd]
    exact h
  · have hentry : (heldEntry c md sizeBytes location env).Shown := ⟨⟨c.infoHash, rfl⟩, hlocation⟩
    have hput : Engine.Presentable { e with
        session, state := (e.state.put (heldEntry c md sizeBytes location env) env.saved).1 } :=
      ⟨h.torrents.put hentry env.saved, h.ledger⟩
    have hreason : ControlFree (placeDecision s c md sizeBytes displaced seederFloor roll).reason := by
      rw [placeDecision, evaluateSwap_reason ha.1]
      decide
    have hdisplaced : ∀ d ∈ displaced.map displacedEvent, SpelledHash d.hash := by
      intro d hd
      obtain ⟨held, -, rfl⟩ := List.mem_map.mp hd
      exact ⟨held.infoHash, rfl⟩
    have hevent : (addEvent c sizeBytes location displaced seederFloor
        (placeDecision s c md sizeBytes displaced seederFloor roll) env.recordedAt).Printable :=
      ⟨⟨c.infoHash, rfl⟩, hlocation, hreason, hdisplaced⟩
    rw [hadd]
    exact (hput.record hevent).pushLive

theorem swapLoop_presentable (h : e.Presentable) (held : List Torrent) (sizeBytes seederFloor : Nat) (roll : F64)
    (env : SwapEnv) {locations : List PathBuf} (hlocations : ∀ l ∈ locations, ControlFree (pathText l))
    (last : SwapDecision F64) :
    (swapLoop s held c md sizeBytes seederFloor roll env e locations last).1.Presentable := by
  induction locations generalizing last with
  | nil => exact h
  | cons location rest ih =>
    obtain ⟨hlocation, hrest⟩ := List.forall_mem_cons.mp hlocations
    rw [swapLoop]
    split
    next => exact ih hrest last
    next displaced _ =>
      split
      next => exact ih hrest _
      next =>
        rcases tryAdd_cases s e c md sizeBytes location (displaced.map heldView) seederFloor roll
            (env.place location) with ⟨-, hadd⟩ | ⟨-, session, -, hadd⟩
        · simp only [hadd, Bool.false_eq_true, if_false]
          exact ih hrest _
        · have hplaced : (tryAdd s e c md sizeBytes location (displaced.map heldView) seederFloor roll
              (env.place location)).1.Presentable := tryAdd_presentable h hlocation _ _ _ _ _
          rw [hadd] at hplaced
          simp only [hadd, if_true]
          exact hplaced.finishSwap env.remove displaced _

theorem mem_heldLocations {held : List Torrent} {location : PathBuf} :
    location ∈ heldLocations held ↔ ∃ t ∈ held, t.storageLocation = location := by
  rw [heldLocations, List.mem_insertionSort, List.mem_dedup, List.mem_map]

theorem placeCandidate_presentable (shown : s.Shown) (h : e.Presentable) (heldCount seederFloor : Nat)
    (probe : Bool) (roll : F64) (env : ActEnv) :
    (placeCandidate s e c md heldCount seederFloor probe roll env).1.Presentable := by
  have hfill : (tryFill s e c md heldCount seederFloor roll env).1.Presentable := by
    rw [tryFill]
    split
    next => exact h
    next loc hloc => exact tryAdd_presentable h (shown loc (fillTarget_spec hloc).1) _ _ _ _ _
  simp only [placeCandidate]
  split
  next => exact hfill
  next =>
    split
    next => exact hfill
    next =>
      split
      next => exact hfill
      next =>
        refine swapLoop_presentable hfill _ _ _ _ _ (fun l hl => ?_) _
        obtain ⟨t, ht, rfl⟩ := mem_heldLocations.mp hl
        exact (hfill.torrents.held t ht).location

theorem actOnCandidate_presentable (shown : s.Shown) (h : e.Presentable) (c : Candidate) (heldCount seederFloor : Nat)
    (env : ActEnv) : (actOnCandidate s e c heldCount seederFloor env).1.Presentable := by
  have hread : Engine.Presentable (fetched s e c env) := ⟨h.torrents, h.ledger⟩
  by_cases hreach : ∃ probe md, ActReaches s e c env probe md
  · obtain ⟨probe, md, hreach⟩ := hreach
    rw [actOnCandidate_reached hreach]
    exact placeCandidate_presentable shown hread _ _ _ _ _
  · have hnot : ∀ probe md, ¬ActReaches s e c env probe md := fun probe md hr => hreach ⟨probe, md, hr⟩
    rcases (actOnCandidate_stopped heldCount seederFloor hnot).1 with he | he
    · rw [he]
      exact h
    · rw [he]
      exact hread

end Placement

section Actions

variable {s : Settings} {e : Engine}

theorem vanishedReason_controlFree {timeout : Duration} {catalog : List String} {now : Time} (t : Torrent)
    (reason : String) (h : vanishedReason timeout catalog now t = some reason) : ControlFree reason := by
  unfold vanishedReason at h
  split at h
  next => cases h
  next =>
    split at h
    next => cases h
    next =>
      split at h
      next => cases h
      next =>
        obtain rfl := Option.some.inj h
        decide

theorem stallReason_controlFree (seeders : Nat) (since : Duration) : ControlFree (stallReason seeders since) := by
  have hnone : ControlFree "zero seeders and no download progress for " := by decide
  have hsome : ControlFree "no download progress for " := by decide
  have hopen : ControlFree " (" := by decide
  have hclose : ControlFree " seeders, incomplete)" := by decide
  unfold stallReason
  split
  next => exact controlFree_append.mpr ⟨hnone, controlFree_humanDuration since⟩
  next =>
    simp only [controlFree_append, controlFree_humanDuration, controlFree_toString, hsome, hopen, hclose, and_self]

theorem stalledReason_controlFree {timeout : Duration} {catalog : List String} {env : StallEnv} (t : Torrent)
    (reason : String) (h : stalledReason timeout catalog env t = some reason) : ControlFree reason := by
  unfold stalledReason at h
  split at h
  next => cases h
  next =>
    split at h
    next => cases h
    next since _ =>
      split_ifs at h
      obtain rfl := Option.some.inj h
      exact stallReason_controlFree _ _

theorem tripReason_controlFree (trip : Trip) {suffix : String} (hsuffix : ControlFree suffix) (attempts : Nat) :
    ControlFree (tripReason trip suffix attempts) := by
  have hdiscarded : ControlFree "discarded " := by decide
  have hacross : ControlFree " across " := by decide
  have hpass : ControlFree " zero-progress pass" := by decide
  have hplural : ControlFree (if trip.windows = 1 then "" else "es") := by split <;> decide
  have hattempt : ControlFree " (attempt " := by decide
  have hclose : ControlFree ")" := by decide
  have hbytes := controlFree_humanBytesText trip.wastedBytes
  unfold tripReason
  simp only [controlFree_append, hbytes, controlFree_toString, hdiscarded, hacross, hpass, hplural, hattempt, hsuffix,
    hclose, and_self]

theorem reconcile_presentable (h : e.Presentable) (catalog : List String) (env : ReconcileEnv) :
    (reconcile s e catalog env).Presentable := by
  have hknown : Engine.Presentable { e with lastCatalog := some catalog } := ⟨h.torrents, h.ledger⟩
  have hpass : (vanishedPass s { e with lastCatalog := some catalog } catalog env.vanished).Presentable := by
    rcases vanishedPass_cases s { e with lastCatalog := some catalog } catalog env.vanished with
      ⟨-, hpass⟩ | ⟨-, hpass⟩ <;> rw [hpass]
    · exact hknown
    · exact hknown.evictDue hknown.torrents.held vanishedReason_controlFree _ _
  refine hpass.updateEach (fun u hu t ht => ?_) env.confirmSaved
  obtain ⟨v, -, rfl⟩ := List.mem_map.mp hu
  exact ht.of_eq rfl rfl

theorem refresh_presentable (h : e.Presentable) (env : RefreshEnv) :
    (refreshHeldSeederCounts s e env).Presentable := by
  have hread : Engine.Presentable
      { e with torrentCache := (refreshWalk s env e.torrentCache (e.state.all.take env.walked)).1 } :=
    ⟨h.torrents, h.ledger⟩
  refine hread.updateEach (fun u hu t ht => ?_) env.saved
  obtain ⟨r, -, rfl⟩ := List.mem_map.mp hu
  exact shown_progressUpdate _ _ _ (ht.of_eq rfl rfl)

theorem evictStalled_presentable (h : e.Presentable) (catalog : List String) (env : StallEnv) :
    (evictStalledTorrents s e catalog env).Presentable := by
  rcases evictStalledTorrents_cases s e catalog env with ⟨-, hpass⟩ | ⟨-, hpass⟩ <;> rw [hpass]
  · exact h
  · exact h.evictDue h.torrents.held stalledReason_controlFree _ _

theorem bookkeep_presentable (h : e.Presentable) (env : BookkeepEnv) : (bookkeep s e env).1.Presentable := by
  have hprogress : ((e.state.updateProgressMany (sweep s.scan e env.stats).progress env.now
      env.progressSaved).1).Every Torrent.Shown :=
    h.torrents.updateProgressMany (fun checked t => shown_progressUpdate checked env.now t) env.progressSaved
  have hlifted := hprogress.quarantineRemoveMany
    ((sweep s.scan e env.stats).lifts ++ raceLifts e.state (sweep s.scan e env.stats).progress) env.liftsSaved
  simp only [bookkeep]
  refine ⟨?_, h.ledger⟩
  dsimp only
  split
  next => exact hlifted
  next => exact hlifted.quarantineRemoveMany _ _

theorem enforceTrip_presentable (h : e.Presentable) (now : Time) (env : String → EvictEnv) (p : String × Trip) :
    (enforceTrip s now env e p).Presentable := by
  obtain ⟨hex, trip⟩ := p
  simp only [enforceTrip]
  cases hget : e.state.get hex with
  | none => exact ⟨h.torrents.quarantinePut _ _ _, h.ledger⟩
  | some held =>
    have hheld := h.torrents.held held (KeyedList.find_eq_some.mp hget).1
    have hreason : ControlFree (tripEntry s (e.state.quarantineGet hex) held.title "" trip now).reason :=
      tripReason_controlFree trip (by decide) _
    have hremoved := h.torrents.quarantineAndRemove hex
      (tripEntry s (e.state.quarantineGet hex) held.title "" trip now) (env hex).remove.saved
    have hevent : (removeEvent held .quarantined
        (tripEntry s (e.state.quarantineGet hex) held.title "" trip now).reason (env hex).recordedAt).Printable :=
      ⟨hheld.hash, hheld.location, hreason⟩
    dsimp only
    split
    next => exact Engine.Presentable.record ⟨hremoved, h.ledger⟩ hevent
    next => exact ⟨hremoved, h.ledger⟩

/-- Whatever a process does, what it holds and what it has recorded can be shown. -/
theorem Action.apply_presentable (shown : s.Shown) (h : e.Presentable) (a : Action) : (a.apply s e).Presentable := by
  cases a with
  | reconcile catalog env => exact reconcile_presentable h catalog env
  | refresh env readAt => exact refresh_presentable h env
  | evictStalled catalog env => exact evictStalled_presentable h catalog env
  | readMetadata hex env => exact ⟨h.torrents, h.ledger⟩
  | act c heldCount seederFloor env => exact actOnCandidate_presentable shown h c heldCount seederFloor env
  | bookkeep env => exact bookkeep_presentable h env
  | rememberCatalog catalog => exact ⟨h.torrents, h.ledger⟩
  | rearm hex q saved => exact ⟨h.torrents.quarantinePut hex q saved, h.ledger⟩
  | enforceTrip now env trip => exact enforceTrip_presentable h now env trip
  | pushLive => exact h.pushLive

end Actions

/-- What becomes of an engine: a step of its process, or a new process over the files that the last one left, under
whatever is configured then. -/
inductive EngineLife : Engine → Engine → Prop
  | step {s : Settings} {e e' : Engine} (shown : s.Shown) (step : EngineStep s e e') : EngineLife e e'
  | restart {s : Settings} (shown : s.Shown) (e : Engine) (env : StartEnv) :
      EngineLife e (Engine.start s e.state.file e.torrentCache e.history env)

theorem EngineStep.presentable {s : Settings} {e e' : Engine} (step : EngineStep s e e') (shown : s.Shown)
    (h : e.Presentable) : e'.Presentable := by
  cases step with
  | action a => exact a.apply_presentable shown h
  | rehash ts hperm =>
    exact ⟨⟨fun t ht => h.torrents.held t (hperm.mem_iff.mp ht), h.torrents.stored⟩, h.ledger⟩

theorem rekeyed_shown {s : Settings} (shown : s.Shown) (canonicalize : PathBuf → Option PathBuf) (t : Torrent)
    (h : t.Shown) : (State.rekeyed canonicalize (s.storage.map StorageLocation.path) t).Shown := by
  unfold State.rekeyed
  split
  next => exact h
  next =>
    split
    next canon _ =>
      split
      next hc =>
        obtain ⟨loc, hloc, rfl⟩ := List.mem_map.mp hc.1
        exact ⟨h.hash, shown loc hloc⟩
      next => exact h
    next => exact h

theorem resumeHeld_history (s : Settings) (sessionOk : String → Bool) (e : Engine) (ts : List Torrent) :
    (resumeHeld s sessionOk e ts).history = e.history := by
  induction ts generalizing e with
  | nil => rfl
  | cons t ts ih =>
    rw [resumeHeld]
    split <;> rw [ih]

theorem EngineLife.presentable {e e' : Engine} (life : EngineLife e e') (h : e.Presentable) : e'.Presentable := by
  cases life with
  | step shown step => exact step.presentable shown h
  | restart shown _ env =>
    have hloaded : State.Every Torrent.Shown ⟨e.state.file.torrents, e.state.file.quarantined, e.state.file⟩ :=
      ⟨h.torrents.stored, h.torrents.stored⟩
    have hrekeyed := hloaded.rekeyStorageLocations (rekeyed_shown shown env.canonicalize) env.saved
    refine ⟨?_, ?_⟩
    · rw [Engine.start, resumeHeld_state]
      exact hrekeyed
    · rw [Engine.start, resumeHeld_history]
      exact h.ledger

/-- Whatever the catalog, the trackers and the session make a node do over all its starts, each event of its ledger has
its lines, one for itself and one for each torrent that it displaced, and control characters reach the terminal by the
paint of a line only. The one size that has no text is the one whose negation is itself. -/
theorem history_shows_safely (text : HistoryText) (color : Bool) {e e' : Engine} (start : e.Presentable)
    (life : Relation.ReflTransGen EngineLife e e') :
    ∀ ev ∈ e'.history,
      (render text color ev = none ↔ ∃ n ∈ ev.sizes, asI64 n = -2 ^ 63) ∧
        ∀ lines, render text color ev = some lines →
          lines.length = ev.displaced.length + 1 ∧ ∀ line ∈ lines, Painted color line := by
  have hend : e'.Presentable := by
    induction life with
    | refl => exact start
    | tail _ step ih => exact step.presentable ih
  exact fun ev hev => render_shown text color (hend.ledger ev hev)

/-- A held torrent whose title clears the screen. -/
def clearsScreen : Torrent :=
  { Reference.held (hexEncode Reference.hashA) Reference.location with title := "\x1b[2J" }

def plainClock : HistoryText := ⟨fun _ => "1970-01-01 00:00:00", fun _ => by decide⟩

theorem history_shows_safely_tripped :
    let e := Reference.engine [clearsScreen] (List.nodup_singleton _)
    let evict : EvictEnv := ⟨⟨true, true, true⟩, 5⟩
    let e' := (Action.enforceTrip 3 (fun _ => evict) (clearsScreen.infoHash, ⟨2 ^ 30, 3⟩)).apply Reference.settings e
    e'.history.length = 1 ∧ ∀ ev ∈ e'.history, ∃ lines, render plainClock true ev = some lines ∧
      ∀ line ∈ lines, Painted true line := by
  intro e evict e'
  have hshown : clearsScreen.Shown := ⟨⟨Reference.hashA, rfl⟩, by decide⟩
  have hall : ∀ t ∈ [clearsScreen], t.Shown := List.forall_mem_singleton.mpr hshown
  have start : e.Presentable := ⟨⟨hall, hall⟩, fun ev hev => absurd hev List.not_mem_nil⟩
  have hsettings : Reference.settings.Shown := by
    unfold Settings.Shown
    decide
  have life : Relation.ReflTransGen EngineLife e e' := .single (.step hsettings (.action e _))
  have hsizes : ∀ ev ∈ e'.history, ∀ n ∈ ev.sizes, asI64 n ≠ -2 ^ 63 := by decide
  refine ⟨by decide, fun ev hev => ?_⟩
  obtain ⟨hnone, hlines⟩ := history_shows_safely plainClock true start life ev hev
  cases hrender : render plainClock true ev with
  | none =>
    obtain ⟨n, hn, hmin⟩ := hnone.mp hrender
    exact absurd hmin (hsizes ev hev n hn)
  | some lines => exact ⟨lines, rfl, (hlines lines hrender).2⟩

end KeepAt
