import KeepAt.LiveView
import KeepAt.RegistryMoves

namespace KeepAt

variable {s : Settings} {e e' : Engine}

theorem saveChanged_result {α : Type} (st : State) (changed : Bool) (result : α) :
    (st.saveChanged changed result true).2 = some result := by
  cases changed <;> rfl

theorem updateEach_counts {st : State} {updates : List (String × TorrentUpdate)}
    {u : String × TorrentUpdate} (hu : u ∈ updates) (held : st.torrents.Has u.1) :
    0 < (st.updateEach updates true).2.getD 0 := by
  have hany : updates.any (fun u => decide (st.torrents.Has u.1)) = true :=
    List.any_eq_true.mpr ⟨u, hu, decide_eq_true held⟩
  have hmarks := updateEach_batch.foldl_marks (c := 0) hany
  rw [State.updateEach, saveChanged_result]
  exact of_decide_eq_true hmarks

theorem quarantineRemoveMany_counts {st : State} {hashes : List String} {hex : String} (hm : hex ∈ hashes)
    (registered : st.quarantined.Has hex) : 0 < (st.quarantineRemoveMany hashes true).2.getD 0 := by
  have hany : hashes.any (fun hex => decide (st.quarantined.Has hex)) = true :=
    List.any_eq_true.mpr ⟨hex, hm, decide_eq_true registered⟩
  have hmarks := removeStep_batch.foldl_marks (c := 0) hany
  have hresult : (st.quarantineRemoveMany hashes true).2 =
      some (hashes.foldl removeStep (st.quarantined, 0)).2 := saveChanged_result _ _ _
  rw [hresult]
  exact of_decide_eq_true hmarks

/-- Some reading of the session is above what is stored. -/
def ProgressGrew (st : State) (progress : List (String × Nat)) : Prop :=
  progress.any (fun p => (st.torrents.find p.1).any (State.progressGrew · p.2)) = true

theorem updateProgressMany_changes {st : State} {progress : List (String × Nat)}
    (grew : ProgressGrew st progress) (now : Time) :
    (st.updateProgressMany progress now true).2.getD false = true := by
  have hmarks := (progressStep_batch now).foldl_marks (c := false) grew
  have hresult : (st.updateProgressMany progress now true).2 =
      some (progress.foldl (progressStep now) (st.torrents, false)).2 := saveChanged_result _ _ _
  rw [hresult]
  exact hmarks

/-- The served columns of a torrent. -/
def servedEntry (t : Torrent) : StateEntry :=
  { title := t.title, infoHash := t.infoHash, sizeBytes := t.sizeBytes,
    lastKnownSeeders := t.lastKnownSeeders }

/-- The updates leave the served columns of the torrents that they address. -/
def Unseen (st : State) (updates : List (String × TorrentUpdate)) : Prop :=
  ∀ u ∈ updates, ∀ t ∈ st.torrents.values, t.infoHash = u.1 →
    ∀ t', servedEntry t' = servedEntry t → servedEntry (u.2.apply t') = servedEntry t

theorem snapshotEntries_updated {st st' : State} {updates : List (String × TorrentUpdate)}
    (values : st'.torrents.values = st.torrents.values.map (State.applyUpdates updates))
    (unseen : Unseen st updates) : snapshotEntries st' = snapshotEntries st := by
  have hentry : ∀ t ∈ st.torrents.values, ∀ us : List (String × TorrentUpdate), us ⊆ updates →
      ∀ t', servedEntry t' = servedEntry t → servedEntry (State.applyUpdates us t') = servedEntry t := by
    intro t ht us
    induction us with
    | nil => exact fun _ _ h => h
    | cons u us ih =>
      intro hsub t' h
      obtain ⟨hu, hrest⟩ := List.cons_subset.mp hsub
      have hhash : t'.infoHash = t.infoHash := congrArg StateEntry.infoHash h
      refine ih hrest _ ?_
      dsimp only
      split
      next hkey => exact unseen u hu t ht (hhash ▸ hkey) t' h
      next => exact h
  have hall : snapshotEntries st' = st'.torrents.values.map servedEntry := rfl
  rw [hall, values, List.map_map]
  exact List.map_congr_left fun t ht => hentry t ht updates (List.Subset.refl _) t rfl

/-- A batch of updates leaves the view fresh if it changes no served column, or is saved. -/
theorem updateEach_fresh {updates : List (String × TorrentUpdate)} {saved : Bool} (h : LiveFresh e)
    (addressed : ∀ u ∈ updates, e.state.torrents.Has u.1) (pushes : saved = true ∨ Unseen e.state updates) :
    LiveFresh (e.updateEach updates saved) := by
  simp only [Engine.updateEach]
  split
  next => exact .pushLive _
  next hquiet =>
    refine h.keep rfl ?_ ?_
    · exact congrArg KeyedList.size (State.updateEach_quarantined _ _ _)
    · rcases pushes with rfl | hunseen
      · have hnil : updates = [] := List.eq_nil_iff_forall_not_mem.mpr fun u hu =>
          hquiet (updateEach_counts hu (addressed u hu))
        subst hnil
        exact .refl _
      · rw [snapshotEntries_updated (State.updateEach_values _ _ _) hunseen]

theorem unseen_confirmUpdate (now : Time) {t t' : Torrent} (h : servedEntry t' = servedEntry t) :
    servedEntry ((confirmUpdate now).apply t') = servedEntry t := h

theorem unseen_progressUpdate (checked : Nat) (now : Time) {t t' : Torrent}
    (h : servedEntry t' = servedEntry t) :
    servedEntry ((State.progressUpdate checked now).apply t') = servedEntry t := by
  simp only [State.progressUpdate]
  split
  next => exact h
  next => exact h

theorem confirm_fresh (h : LiveFresh e) (catalog : List String) (now : Time) (saved : Bool) :
    LiveFresh (e.updateEach (confirmations e.state.all catalog now) saved) := by
  refine updateEach_fresh h (fun u hu => ?_) (Or.inr fun u hu t _ _ t' ht' => ?_)
  · obtain ⟨t, ht, rfl⟩ := List.mem_map.mp hu
    exact KeyedList.has_of_mem (List.mem_of_mem_filter ht)
  · obtain ⟨_, -, rfl⟩ := List.mem_map.mp hu
    exact unseen_confirmUpdate now ht'

theorem refreshWalk_held {env : RefreshEnv} {cache : TorrentCache} {ts : List Torrent} {r : Refreshed}
    (h : r ∈ (refreshWalk s env cache ts).2) : ∃ t ∈ ts, r.infoHash = t.infoHash := by
  induction ts generalizing cache with
  | nil => cases h
  | cons t ts ih =>
    unfold refreshWalk at h
    dsimp only at h
    split at h
    next =>
      obtain ⟨u, hu, hr⟩ := ih h
      exact ⟨u, List.mem_cons_of_mem _ hu, hr⟩
    next =>
      rcases List.mem_cons.mp h with rfl | h
      · exact ⟨t, List.mem_cons_self, rfl⟩
      · obtain ⟨u, hu, hr⟩ := ih h
        exact ⟨u, List.mem_cons_of_mem _ hu, hr⟩

/-- The refresh is saved, or every swarm that it reads has the seeders that are stored. -/
def RefreshPushes (s : Settings) (e : Engine) (env : RefreshEnv) : Prop :=
  env.saved = true ∨ ∀ r ∈ (refreshWalk s env e.torrentCache (e.state.all.take env.walked)).2,
    ∀ t ∈ e.state.torrents.values, t.infoHash = r.infoHash → r.seeders = t.lastKnownSeeders

theorem refresh_fresh {env : RefreshEnv} (h : LiveFresh e) (pushes : RefreshPushes s e env) :
    LiveFresh (refreshHeldSeederCounts s e env) := by
  have hread : LiveFresh { e with
      torrentCache := (refreshWalk s env e.torrentCache (e.state.all.take env.walked)).1 } :=
    h.keep rfl rfl (.refl _)
  refine updateEach_fresh hread (fun u hu => ?_) (pushes.imp_right fun hsame u hu t ht hkey t' ht' => ?_)
  · obtain ⟨r, hr, rfl⟩ := List.mem_map.mp hu
    obtain ⟨t, ht, hhash⟩ := refreshWalk_held hr
    exact hhash.symm ▸ KeyedList.has_of_mem (List.mem_of_mem_take ht)
  · obtain ⟨r, hr, rfl⟩ := List.mem_map.mp hu
    have hseeders := hsame r hr t ht hkey
    refine unseen_progressUpdate _ _ ?_
    rw [hseeders]
    simp only [servedEntry, StateEntry.mk.injEq] at ht' ⊢
    exact ⟨ht'.1, ht'.2.1, ht'.2.2.1, trivial⟩

def lifts (s : Settings) (e : Engine) (stats : String → SessionStats) : List String :=
  (sweep s.scan e stats).lifts ++ raceLifts e.state (sweep s.scan e stats).progress

/-- The bookkeeping takes nothing out of the registry, or the save of one thing that it changes goes
through. -/
def BookkeepPushes (s : Settings) (e : Engine) (env : BookkeepEnv) : Prop :=
  (lifts s e env.stats = [] ∧ orphaned e.state e.session e.lastCatalog env.now = []) ∨
    (lifts s e env.stats ≠ [] ∧ env.liftsSaved = true) ∨
    (orphaned e.state e.session e.lastCatalog env.now ≠ [] ∧ env.orphansSaved = true) ∨
    (ProgressGrew e.state (sweep s.scan e env.stats).progress ∧ env.progressSaved = true)

theorem lifts_registered {stats : String → SessionStats} {hex : String} (h : hex ∈ lifts s e stats) :
    hex ∈ e.state.quarantinedKeys ∧ hex ∈ e.session := by
  rcases List.mem_append.mp h with h | h
  · obtain ⟨hsession, -, hregistered⟩ := mem_sweep_lifts.mp h
    exact ⟨hregistered, hsession⟩
  · obtain ⟨checked, hprogress, hregistered, -⟩ := mem_raceLifts.mp h
    exact ⟨hregistered, (mem_sweep_progress.mp hprogress).1⟩

section Booked

variable (env : BookkeepEnv)

def progressed (s : Settings) (e : Engine) (env : BookkeepEnv) : State :=
  (e.state.updateProgressMany (sweep s.scan e env.stats).progress env.now env.progressSaved).1

def lifted (s : Settings) (e : Engine) (env : BookkeepEnv) : State :=
  ((progressed s e env).quarantineRemoveMany (lifts s e env.stats) env.liftsSaved).1

theorem progressed_quarantined : (progressed s e env).quarantined = e.state.quarantined :=
  State.updateProgressMany_quarantined _ _ _ _

/-- Lifting first does not change which entries are orphaned: those are of torrents that the session does
not manage. -/
theorem mem_orphaned_lifted {hex : String} :
    hex ∈ orphaned (lifted s e env) (sweep s.scan e env.stats).seen e.lastCatalog env.now ↔
      hex ∈ orphaned e.state e.session e.lastCatalog env.now := by
  have hget : (lifted s e env).quarantineGet hex =
      if hex ∈ lifts s e env.stats then none else e.state.quarantineGet hex :=
    lifted_quarantineGet e.state _ _ _ _ _ hex
  have hheld : (lifted s e env).get hex = none ↔ e.state.get hex = none := by
    have hsome := updateProgressMany_get_isSome e.state (sweep s.scan e env.stats).progress env.now
      env.progressSaved hex
    have hsame : (lifted s e env).get hex = (progressed s e env).get hex := by
      rw [State.get, lifted, State.quarantineRemoveMany_torrents, State.get]
    rw [hsame, ← Option.not_isSome_iff_eq_none, ← Option.not_isSome_iff_eq_none]
    exact not_congr (Bool.eq_iff_iff.mp hsome)
  have hkeys : ∀ st : State, hex ∈ st.quarantinedKeys ↔ (st.quarantineGet hex).isSome := fun st => by
    rw [State.quarantineGet, Option.isSome_map, Option.isSome_iff_ne_none, ne_eq, KeyedList.find_eq_none,
      not_not]
    rfl
  rw [mem_orphaned, mem_orphaned, sweep_seen, hheld, hkeys, hkeys, hget]
  by_cases hm : hex ∈ lifts s e env.stats
  · have hsession := (lifts_registered hm).2
    simp [hsession]
  · rw [if_neg hm]

theorem bookkeep_changed : (bookkeep s e env).2.2 = true ↔
    (e.state.updateProgressMany (sweep s.scan e env.stats).progress env.now env.progressSaved).2.getD false =
        true ∨
      0 < ((progressed s e env).quarantineRemoveMany (lifts s e env.stats) env.liftsSaved).2.getD 0 ∨
      0 < (if (orphaned (lifted s e env) (sweep s.scan e env.stats).seen e.lastCatalog env.now).isEmpty
          then (lifted s e env, some 0)
          else (lifted s e env).quarantineRemoveMany
            (orphaned (lifted s e env) (sweep s.scan e env.stats).seen e.lastCatalog env.now)
            env.orphansSaved).2.getD 0 := by
  simp only [bookkeep, Bool.or_eq_true, decide_eq_true_eq, or_assoc]
  rfl

theorem bookkeep_fresh_of_nothing (h : LiveFresh e) (hlifts : lifts s e env.stats = [])
    (hnone : orphaned (lifted s e env) (sweep s.scan e env.stats).seen e.lastCatalog env.now = []) :
    LiveFresh (bookkeep s e env).1 := by
  have hstate : (bookkeep s e env).1.state = lifted s e env := by
    have hif : (bookkeep s e env).1.state =
        (if (orphaned (lifted s e env) (sweep s.scan e env.stats).seen e.lastCatalog env.now).isEmpty
          then (lifted s e env, some 0)
          else (lifted s e env).quarantineRemoveMany
            (orphaned (lifted s e env) (sweep s.scan e env.stats).seen e.lastCatalog env.now)
            env.orphansSaved).1 := rfl
    rw [hif, hnone]
    rfl
  have hlifted : lifted s e env = progressed s e env := by
    rw [lifted, hlifts]
    rfl
  have hentries : snapshotEntries (progressed s e env) = snapshotEntries e.state := by
    refine snapshotEntries_updated (State.updateProgressMany_values _ _ _ _) fun u hu t _ _ t' ht' => ?_
    obtain ⟨p, -, rfl⟩ := List.mem_map.mp hu
    exact unseen_progressUpdate _ _ ht'
  refine h.keep rfl ?_ ?_
  · rw [hstate, hlifted, State.quarantineCount, progressed_quarantined]
    rfl
  · rw [hstate, hlifted, hentries]

/-- The bookkeeping marks the pass as changed when it counts on a save that goes through, and else leaves
what is served alone. -/
theorem bookkeep_fresh (h : LiveFresh e) (pushes : BookkeepPushes s e env) :
    (bookkeep s e env).2.2 = true ∨ LiveFresh (bookkeep s e env).1 := by
  rcases pushes with ⟨hlifts, horphans⟩ | ⟨hlifts, hsaved⟩ | ⟨horphans, hsaved⟩ | ⟨hgrew, hsaved⟩
  · refine Or.inr (bookkeep_fresh_of_nothing env h hlifts (List.eq_nil_iff_forall_not_mem.mpr fun hex hm => ?_))
    rw [mem_orphaned_lifted, horphans] at hm
    exact List.not_mem_nil hm
  · obtain ⟨hex, hm⟩ := List.exists_mem_of_ne_nil _ hlifts
    have hregistered : (progressed s e env).quarantined.Has hex := by
      rw [progressed_quarantined]
      exact (lifts_registered hm).1
    refine Or.inl ((bookkeep_changed env).mpr (Or.inr (Or.inl ?_)))
    rw [hsaved]
    exact quarantineRemoveMany_counts hm hregistered
  · obtain ⟨hex, hm⟩ := List.exists_mem_of_ne_nil _ horphans
    have hm' : hex ∈ orphaned (lifted s e env) (sweep s.scan e env.stats).seen e.lastCatalog env.now :=
      (mem_orphaned_lifted env).mpr hm
    have hregistered : (lifted s e env).quarantined.Has hex := (mem_orphaned.mp hm').1
    have hnonempty : (orphaned (lifted s e env) (sweep s.scan e env.stats).seen e.lastCatalog
        env.now).isEmpty = false := List.isEmpty_eq_false_iff_exists_mem.mpr ⟨hex, hm'⟩
    refine Or.inl ((bookkeep_changed env).mpr (Or.inr (Or.inr ?_)))
    rw [hnonempty, if_neg (by simp), hsaved]
    exact quarantineRemoveMany_counts hm' hregistered
  · refine Or.inl ((bookkeep_changed env).mpr (Or.inl ?_))
    rw [hsaved]
    exact updateProgressMany_changes hgrew env.now

end Booked

theorem quarantinePut_quarantined (st : State) (hex : String) (q : Quarantine) (saved : Bool) :
    (st.quarantinePut hex q saved).1.quarantined = st.quarantined.insert (hex, q) :=
  State.save_quarantined _ _

theorem quarantinePut_count {st : State} {hex : String} (registered : st.quarantined.Has hex)
    (q : Quarantine) (saved : Bool) : (st.quarantinePut hex q saved).1.quarantineCount = st.quarantineCount := by
  obtain ⟨x, hx, rfl⟩ := KeyedList.has_iff.mp registered
  have herase := KeyedList.total_erase hx (fun _ => 1)
  have hinsert : (st.quarantined.insert (x.1, q)).total (fun _ => 1) =
      1 + (st.quarantined.erase x.1).total (fun _ => 1) := KeyedList.total_insert _ _ _
  rw [State.quarantineCount, quarantinePut_quarantined, State.quarantineCount, KeyedList.size_eq_total,
    KeyedList.size_eq_total]
  omega

/-- A re-probe of a registered hash never swaps, so it leaves the view fresh and the registry its keys. -/
theorem reprobeOne_fresh {listed : List String} (spelled : SpelledList listed) (seederFloor : Nat)
    (now : Time) (env : String → ProbeEnv) {acc : Engine × Nat} {hex : String} {q : Quarantine}
    (registered : acc.1.state.quarantined.Has hex) (h : LiveFresh acc.1) :
    LiveFresh (reprobeOne s listed seederFloor now env acc (hex, q)).1 ∧
      ∀ key, acc.1.state.quarantined.Has key →
        (reprobeOne s listed seederFloor now env acc (hex, q)).1.state.quarantined.Has key := by
  rcases reprobeOne_cases s listed seederFloor now env acc hex q with
    ⟨torrentCache, hr⟩ | ⟨torrentCache, c, hc, -, hlisted, hr⟩
  · rw [hr]
    exact ⟨h.keep rfl rfl (.refl _), fun _ => id⟩
  · have hhex : hexEncode c.infoHash = hex := by rw [hc, hexEncode_decodeHash (spelled hex hlisted)]
    have hpushes : SwapPushes s { acc.1 with torrentCache } c acc.2 seederFloor (env hex).act := by
      intro probe md ds hreach hswaps
      obtain ⟨-, hunprobed⟩ := quarantineGate_passed hreach.1
      have hnone := hunprobed hswaps.1.1
      rw [hhex] at hnone
      exact absurd registered (KeyedList.find_eq_none.mp (Option.map_eq_none_iff.mp hnone))
    have hread : LiveFresh { acc.1 with torrentCache } := h.keep rfl rfl (.refl _)
    have hact := actOnCandidate_fresh hread hpushes
    have hreg := actOnCandidate_quarantined s { acc.1 with torrentCache } c acc.2 seederFloor (env hex).act
    generalize actOnCandidate s { acc.1 with torrentCache } c acc.2 seederFloor (env hex).act = out
      at hact hreg hr
    have hhas : ∀ key, out.1.state.quarantined.Has key ↔ acc.1.state.quarantined.Has key := fun key => by
      rw [hreg]
    rw [hr]
    refine ⟨hact.keep rfl ?_ ?_, fun key hkey => ?_⟩
    · exact quarantinePut_count ((hhas hex).mpr registered) _ _
    · rw [snapshotEntries, State.all, State.quarantinePut_torrents]
      exact .refl _
    · rw [quarantinePut_quarantined]
      exact KeyedList.has_insert.mpr (Or.inr ((hhas key).mpr hkey))

theorem reprobes_fresh {listed : List String} (spelled : SpelledList listed) (seederFloor : Nat) (now : Time)
    (env : String → ProbeEnv) (entries : List (String × Quarantine)) {acc : Engine × Nat}
    (registered : ∀ p ∈ entries, acc.1.state.quarantined.Has p.1) (h : LiveFresh acc.1) :
    LiveFresh (entries.foldl (reprobeOne s listed seederFloor now env) acc).1 := by
  induction entries generalizing acc with
  | nil => exact h
  | cons p entries ih =>
    obtain ⟨hp, hrest⟩ := List.forall_mem_cons.mp registered
    obtain ⟨hone, hkeys⟩ := reprobeOne_fresh (s := s) (q := p.2) spelled seederFloor now env hp h
    exact ih (fun p' hp' => hkeys p'.1 (hrest p' hp')) hone

theorem quarantineReprobe_fresh {env : ReprobeEnv} (h : LiveFresh e)
    (spelled : ∀ listed, e.lastCatalog.or env.catalog = some listed → SpelledList listed) :
    LiveFresh (quarantineReprobe s e env) := by
  simp only [quarantineReprobe]
  split
  next => exact h
  next =>
    split
    next => exact h
    next listed hlisted =>
      refine reprobes_fresh (spelled listed hlisted) env.seederFloor env.now env.probe _ (fun p hp => ?_)
        (h.keep rfl rfl (.refl _))
      obtain ⟨hq, -⟩ := lapsed_registered hp
      obtain ⟨x, hx, -⟩ := Option.map_eq_some_iff.mp hq
      obtain ⟨hmem, hkey⟩ := KeyedList.find_eq_some.mp hx
      exact hkey ▸ KeyedList.has_of_mem hmem

/-- A pass is off, trips something, or its bookkeeping pushes what it changes. -/
def PassPushes (s : Settings) (e : Engine) (env : PassEnv) : Prop :=
  s.scan.quarantineCheckInterval = 0 ∨ (sweep s.scan e env.bookkeep.stats).trips ≠ [] ∨
    BookkeepPushes s e env.bookkeep

theorem quarantinePass_fresh {env : PassEnv} (h : LiveFresh e)
    (spelled : ∀ listed, e.lastCatalog.or env.reprobe.catalog = some listed → SpelledList listed)
    (pushes : PassPushes s e env) : LiveFresh (quarantinePass s e env) := by
  simp only [quarantinePass]
  split
  next => exact h
  next hon =>
    split
    next hquiet =>
      split
      next => exact .pushLive _
      next hunchanged =>
        have htrips : (sweep s.scan e env.bookkeep.stats).trips = [] := List.isEmpty_iff.mp hquiet
        have hbook := (pushes.resolve_left hon).resolve_left fun hne => hne htrips
        have hbooked := (bookkeep_fresh env.bookkeep h hbook).resolve_left hunchanged
        exact quarantineReprobe_fresh hbooked spelled
    next => exact .pushLive _

end KeepAt
