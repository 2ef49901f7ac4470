import KeepAt.EntryHistory
import KeepAt.Reference
import Mathlib.Data.List.Chain

namespace KeepAt

variable {s : Settings} {e : Engine} {lo hi : Time}

def Record.reading (hex : String) : Record → Option (Time × Nat)
  | .observed h time bytes => if h = hex then some (time, bytes) else none
  | _ => none

def observations (hex : String) (log : List Record) : List (Time × Nat) := log.filterMap (Record.reading hex)

/-- The verified bytes grew between two consecutive readings, both within the timeout before `now`. -/
def GrewWithin (timeout : Duration) (now : Time) (hex : String) (log : List Record) : Prop :=
  ∃ a b, [a, b] <:+: observations hex log ∧ a.2 < b.2 ∧ now - a.1 < timeout ∧ now - b.1 < timeout

/-- A reading is above the last one, which was made less than the timeout before. -/
def GrowsSince (timeout : Duration) (x : Process) (hex : String) (time : Time) (bytes : Nat) : Prop :=
  ∃ last, (observations hex x.log).getLast? = some last ∧ last.2 < bytes ∧ time - last.1 < timeout

/-- Whether an action sets the progress stamp of what it reads: a stall pass never does, the others
where the reading is above the stored mark. -/
def Action.Stamps (e : Engine) (hex : String) (bytes : Nat) : Action → Prop
  | .evictStalled _ _ => False
  | _ => ∀ t ∈ e.state.torrents.values, t.infoHash = hex → State.progressGrew t bytes = true

/-- Every growth an action reads sets the stamp. -/
def StampsGrowth (s : Settings) (x : Process) (a : Action) : Prop :=
  ∀ hex time bytes, .observed hex time bytes ∈ a.records s x.engine →
    GrowsSince s.scan.stallEvictionTimeout x hex time bytes → a.Stamps x.engine hex bytes

def StampedBy (timeout : Duration) (stamp : Time) (a b : Time × Nat) : Prop :=
  a.2 < b.2 → b.1 - a.1 < timeout → b.1 ≤ stamp

structure GrowthStamped (timeout : Duration) (x : Process) : Prop where
  past : ∀ r ∈ x.log, r.time ≤ x.clock
  stamped : ∀ t ∈ x.engine.state.torrents.values, ∀ stamp, t.lastProgressAt = some stamp →
    (observations t.infoHash x.log).IsChain (StampedBy timeout stamp)

theorem mem_observations {hex : String} {log : List Record} {o : Time × Nat} :
    o ∈ observations hex log ↔ Record.observed hex o.1 o.2 ∈ log := by
  simp only [observations, List.mem_filterMap]
  constructor
  · rintro ⟨r, hr, ho⟩
    cases r with
    | confirmed => cases ho
    | added => cases ho
    | observed h time bytes =>
      simp only [Record.reading] at ho
      split at ho
      next he =>
        obtain rfl := Option.some.inj ho
        exact he ▸ hr
      next => cases ho
  · exact fun h => ⟨_, h, by simp [Record.reading]⟩

def StampedSince (lo : Time) (t : Torrent) : Prop := ∃ p, t.lastProgressAt = some p ∧ lo ≤ p

def KeepsOrStamps (lo : Time) (u : TorrentUpdate) : Prop :=
  ∀ t, (u.apply t).completedPieces = t.completedPieces ∧ (u.apply t).lastProgressAt = t.lastProgressAt ∨
    StampedSince lo (u.apply t)

theorem progressUpdate_stamps {checked : Nat} {now : Time} {t : Torrent}
    (h : State.progressGrew t checked = true) (hlo : lo ≤ now) :
    StampedSince lo ((State.progressUpdate checked now).apply t) := by
  simp only [State.progressUpdate, if_pos h]
  exact ⟨now, rfl, hlo⟩

theorem progressUpdate_keepsOrStamps (checked : Nat) {now : Time} (h : lo ≤ now) :
    KeepsOrStamps lo (State.progressUpdate checked now) := by
  intro t
  by_cases hg : State.progressGrew t checked = true
  · exact Or.inr (progressUpdate_stamps hg h)
  · simp only [State.progressUpdate, if_neg hg]
    exact Or.inl ⟨trivial, trivial⟩

theorem refreshUpdate_keepsOrStamps (seeders progress : Nat) {now : Time} (h : lo ≤ now) :
    KeepsOrStamps lo (refreshUpdate seeders progress now) := fun t =>
  progressUpdate_keepsOrStamps progress h { t with lastKnownSeeders := seeders }

/-- A batch with a growing reading of a torrent leaves it stamped, whatever else is in the batch. -/
theorem applyUpdates_stamps {updates : List (String × TorrentUpdate)} {t : Torrent} {bytes : Nat}
    (keeps : ∀ u ∈ updates, u.1 = t.infoHash → KeepsOrStamps lo u.2)
    (h : StampedSince lo t ∨ State.progressGrew t bytes = true ∧ ∃ u ∈ updates, u.1 = t.infoHash ∧
      ∀ v, State.progressGrew v bytes = true → StampedSince lo (u.2.apply v)) :
    StampedSince lo (State.applyUpdates updates t) := by
  induction updates generalizing t with
  | nil =>
    rcases h with h | ⟨-, u, hu, -⟩
    · exact h
    · cases hu
  | cons w updates ih =>
    obtain ⟨hw, hrest⟩ := List.forall_mem_cons.mp keeps
    by_cases hk : t.infoHash = w.1
    · have hstep : State.applyUpdates (w :: updates) t = State.applyUpdates updates (w.2.apply t) := by
        simp only [State.applyUpdates, List.foldl_cons, if_pos hk]
      have hhash := w.2.keeps t
      rw [hstep]
      refine ih (fun u hu he => hrest u hu (he.trans hhash)) ?_
      rcases hw hk.symm t with ⟨hmark, hstamp⟩ | hstamped
      · rcases h with ⟨p, hp, hlo⟩ | ⟨hg, u, hu, he, hstamps⟩
        · exact Or.inl ⟨p, hstamp.trans hp, hlo⟩
        · rcases List.mem_cons.mp hu with rfl | hu
          · exact Or.inl (hstamps t hg)
          · refine Or.inr ⟨?_, u, hu, he.trans hhash.symm, hstamps⟩
            simpa only [State.progressGrew, hmark, hstamp] using hg
      · exact Or.inl hstamped
    · have hstep : State.applyUpdates (w :: updates) t = State.applyUpdates updates t := by
        simp only [State.applyUpdates, List.foldl_cons, if_neg hk]
      rw [hstep]
      refine ih hrest ?_
      rcases h with h | ⟨hg, u, hu, he, hstamps⟩
      · exact Or.inl h
      · rcases List.mem_cons.mp hu with rfl | hu
        · exact absurd he.symm hk
        · exact Or.inr ⟨hg, u, hu, he, hstamps⟩

theorem mem_refreshWalk {env : RefreshEnv} {cache : TorrentCache} {ts : List Torrent} {r : Refreshed}
    (h : r ∈ (refreshWalk s env cache ts).2) :
    ∃ t ∈ ts, r.infoHash = t.infoHash ∧ r.progress = progressBytes env.find env.dirSize t := by
  induction ts generalizing cache with
  | nil => cases h
  | cons t ts ih =>
    simp only [refreshWalk] at h
    split at h
    next =>
      obtain ⟨u, hu, hr⟩ := ih h
      exact ⟨u, List.mem_cons_of_mem t hu, hr⟩
    next =>
      rcases List.mem_cons.mp h with rfl | h
      · exact ⟨t, List.mem_cons_self, rfl, rfl⟩
      · obtain ⟨u, hu, hr⟩ := ih h
        exact ⟨u, List.mem_cons_of_mem t hu, hr⟩

theorem Action.records_reading_eq {a : Action} {hex : String} {time time' : Time} {bytes bytes' : Nat}
    (h : .observed hex time bytes ∈ a.records s e) (h' : .observed hex time' bytes' ∈ a.records s e) :
    bytes = bytes' := by
  cases a with
  | refresh env readAt =>
    simp only [Action.records, List.mem_map, Record.observed.injEq] at h h'
    obtain ⟨r, hr, rfl, -, rfl⟩ := h
    obtain ⟨r', hr', he, -, rfl⟩ := h'
    obtain ⟨t, ht, hk, hp⟩ := mem_refreshWalk hr
    obtain ⟨t', ht', hk', hp'⟩ := mem_refreshWalk hr'
    obtain rfl := KeyedList.eq_of_key_eq (List.mem_of_mem_take ht) (List.mem_of_mem_take ht')
      (hk.symm.trans (he.symm.trans hk'))
    rw [hp, hp']
  | evictStalled catalog env =>
    simp only [Action.records] at h h'
    split at h
    next => cases h
    next hz =>
      rw [if_neg hz] at h'
      simp only [List.mem_map, List.mem_filter, Record.observed.injEq] at h h'
      obtain ⟨t, ⟨ht, -⟩, rfl, -, rfl⟩ := h
      obtain ⟨t', ⟨ht', -⟩, he, -, rfl⟩ := h'
      rw [KeyedList.eq_of_key_eq ht' ht he]
  | bookkeep env =>
    simp only [Action.records, List.mem_filterMap, Option.map_eq_some_iff, Record.observed.injEq] at h h'
    obtain ⟨_, -, p, hp, rfl, -, rfl⟩ := h
    obtain ⟨_, -, p', hp', rfl, -, rfl⟩ := h'
    rw [Option.some.inj (hp.symm.trans hp')]
  | act c n seederFloor env => simp [Action.records] at h
  | reconcile catalog env => simp [Action.records] at h
  | readMetadata => cases h
  | rememberCatalog => cases h
  | rearm => cases h
  | enforceTrip => cases h
  | pushLive => cases h

theorem Action.stamps_reading {a : Action} (clocked : a.Clocked lo hi) {t : Torrent} {time : Time}
    {bytes : Nat} (hr : .observed t.infoHash time bytes ∈ a.records s e) (positive : 0 < bytes)
    (stamps : a.Stamps e t.infoHash bytes) (h : t ∈ (a.apply s e).state.torrents.values) :
    StampedSince time t := by
  cases a with
  | refresh env readAt =>
    simp only [Action.records, List.mem_map, Record.observed.injEq] at hr
    obtain ⟨r, hr, hk, rfl, rfl⟩ := hr
    simp only [Action.apply, refreshHeldSeederCounts_values] at h
    obtain ⟨u, hu, rfl⟩ := List.mem_map.mp h
    have hhash := State.applyUpdates_infoHash (refreshUpdates env.stampedAt
      (refreshWalk s env e.torrentCache (e.state.all.take env.walked)).2) u
    rw [hhash] at hk
    obtain ⟨-, hstamp, -⟩ := clocked.2 u.infoHash
    refine applyUpdates_stamps ?_ (Or.inr ⟨stamps u hu hhash.symm, _, List.mem_map_of_mem hr, hk, ?_⟩)
    · intro w hw hwk
      obtain ⟨r', -, rfl⟩ := List.mem_map.mp hw
      refine refreshUpdate_keepsOrStamps _ _ ?_
      dsimp only at hwk
      rw [hk, hwk]
      exact hstamp
    · intro v hv
      rw [hk]
      exact progressUpdate_stamps (t := { v with lastKnownSeeders := r.seeders }) hv hstamp
  | bookkeep env =>
    simp only [Action.records, List.mem_filterMap, Option.map_eq_some_iff, Record.observed.injEq] at hr
    obtain ⟨hex, hs, p, hp, rfl, rfl, rfl⟩ := hr
    simp only [Action.apply, bookkeep_values] at h
    obtain ⟨u, hu, rfl⟩ := List.mem_map.mp h
    have hhash := State.applyUpdates_infoHash
      (State.progressUpdates (sweep s.scan e env.stats).progress env.now) u
    have hmem : (u.infoHash, p.1) ∈ (sweep s.scan e env.stats).progress :=
      mem_sweep_progress.mpr ⟨hhash ▸ hs, positive, p.2, hhash ▸ hp⟩
    refine applyUpdates_stamps ?_ (Or.inr ⟨stamps u hu hhash.symm, _, List.mem_map_of_mem hmem, rfl,
      fun v hv => progressUpdate_stamps hv le_rfl⟩)
    intro w hw _
    obtain ⟨q, -, rfl⟩ := List.mem_map.mp hw
    exact progressUpdate_keepsOrStamps _ le_rfl
  | evictStalled catalog env => exact stamps.elim
  | act c n seederFloor env => simp [Action.records] at hr
  | reconcile catalog env => simp [Action.records] at hr
  | readMetadata => cases hr
  | rememberCatalog => cases hr
  | rearm => cases hr
  | enforceTrip => cases hr
  | pushLive => cases hr

theorem observations_append (hex : String) (xs ys : List Record) :
    observations hex (xs ++ ys) = observations hex xs ++ observations hex ys := List.filterMap_append

theorem isChain_stampedBy_of_le {timeout : Duration} {stamp : Time} {os : List (Time × Nat)}
    (h : ∀ o ∈ os, o.1 ≤ stamp) : os.IsChain (StampedBy timeout stamp) :=
  (List.isChain_isInfix os).imp fun _ b hab _ _ => h b (hab.subset (by simp))

theorem Action.records_isChain (s : Settings) (e : Engine) (a : Action) (hex : String)
    (timeout : Duration) (stamp : Time) :
    (observations hex (a.records s e)).IsChain (StampedBy timeout stamp) := by
  refine (List.isChain_isInfix _).imp fun o o' ho hlt _ => ?_
  have hbytes := Action.records_reading_eq (mem_observations.mp (ho.subset (by simp : o ∈ [o, o'])))
    (mem_observations.mp (ho.subset (by simp : o' ∈ [o, o'])))
  omega

theorem processStep_growthStamped {x y : Process} (step : ProcessStep s (StampsGrowth s) x y)
    (h : GrowthStamped s.scan.stallEvictionTimeout x) :
    GrowthStamped s.scan.stallEvictionTimeout y := by
  cases step with
  | action a clock clocked permitted =>
    refine ⟨?_, ?_⟩
    · intro r hr
      rcases List.mem_append.mp hr with hr | hr
      · exact (h.past r hr).trans clocked.le
      · exact (Action.records_time clocked hr).2
    · intro t ht stamp hstamp
      have recent : x.clock ≤ stamp →
          (observations t.infoHash x.log).IsChain (StampedBy s.scan.stallEvictionTimeout stamp) :=
        fun hle => isChain_stampedBy_of_le fun o ho => (h.past _ (mem_observations.mp ho)).trans hle
      show (observations t.infoHash (x.log ++ a.records s x.engine)).IsChain _
      rw [observations_append, List.isChain_append]
      refine ⟨?_, Action.records_isChain s x.engine a _ _ _, ?_⟩
      · rcases Action.apply_entry clocked ht with ⟨u, hu, hage⟩ | hfresh
        · rcases hage.progress with hp | ⟨p, hp, hle⟩
          · rw [hage.infoHash]
            exact h.stamped u hu stamp (hp.symm.trans hstamp)
          · exact recent (Option.some.inj (hp.symm.trans hstamp) ▸ hle)
        · obtain ⟨p, hp, hle⟩ := hfresh.progress
          exact recent (Option.some.inj (hp.symm.trans hstamp) ▸ hle)
      · intro o ho o' ho' hlt hrecent
        have hr := mem_observations.mp (List.mem_of_mem_head? ho')
        obtain ⟨p, hp, hle⟩ := Action.stamps_reading clocked hr (by omega)
          (permitted _ _ _ hr ⟨o, ho, hlt, hrecent⟩) ht
        exact Option.some.inj (hp.symm.trans hstamp) ▸ hle
  | rehash ts hperm => exact ⟨h.past, fun t ht => h.stamped t (hperm.subset ht)⟩

theorem evictStalledTorrents_removed {catalog : List String} {env : StallEnv} {t : Torrent}
    (ht : t ∈ e.state.torrents.values)
    (removed : ¬(evictStalledTorrents s e catalog env).state.torrents.Has t.infoHash) :
    (∃ stamp, t.lastProgressAt = some stamp ∧ stamp ≤ env.now - s.scan.stallEvictionTimeout) ∧
      Record.observed t.infoHash env.now (progressBytes env.find env.dirSize t) ∈
        (Action.evictStalled catalog env).records s e := by
  rcases evictStalledTorrents_cases s e catalog env with ⟨-, h⟩ | ⟨hz, h⟩
  · rw [h] at removed
    exact absurd (KeyedList.has_of_mem ht) removed
  · rw [h, Engine.evictDue_all_has ht] at removed
    unfold stalledReason at removed
    split at removed
    next => exact absurd rfl removed
    next hc =>
      split at removed
      next => exact absurd rfl removed
      next since hsince =>
        split at removed
        next => exact absurd rfl removed
        next hle =>
          split at removed
          next => exact absurd rfl removed
          next hchecking =>
            have hreads : stallReads s.scan.stallEvictionTimeout catalog env t = true := by
              simp [stallReads, not_not.mp hc, hsince, not_lt.mp hle, hchecking]
            obtain ⟨stamp, hstamp, hage⟩ := Option.bind_eq_some_iff.mp hsince
            refine ⟨⟨stamp, hstamp, le_sub_of_toStd hage (not_lt.mp hle)⟩, ?_⟩
            simp only [Action.records, if_neg hz]
            exact List.mem_map_of_mem (List.mem_filter.mpr ⟨ht, hreads⟩)

/-- Where every growth that was read within the timeout of the reading before it has set the progress
stamp, a stall pass removes no torrent whose bytes grew between two consecutive readings within the
timeout, its own reading counted. -/
theorem evictStalledTorrents_spares_growth {x y : Process}
    (run : Relation.ReflTransGen (ProcessStep s (StampsGrowth s)) x y) (start : x.log = [])
    {catalog : List String} {env : StallEnv} (clocked : y.clock ≤ env.now)
    (permitted : StampsGrowth s y (.evictStalled catalog env)) {hex : String}
    (held : y.engine.state.torrents.Has hex)
    (grew : GrewWithin s.scan.stallEvictionTimeout env.now hex
      (y.log ++ (Action.evictStalled catalog env).records s y.engine)) :
    (evictStalledTorrents s y.engine catalog env).state.torrents.Has hex := by
  have stamped : GrowthStamped s.scan.stallEvictionTimeout y :=
    run_preserves (P := GrowthStamped s.scan.stallEvictionTimeout) processStep_growthStamped run
      ⟨by simp [start], by simp [start, observations]⟩
  obtain ⟨t, ht, rfl⟩ := KeyedList.has_iff.mp held
  by_contra removed
  obtain ⟨⟨stamp, hstamp, hold⟩, hread⟩ := evictStalledTorrents_removed ht removed
  obtain ⟨a, b, hab, hlt, ha, hb⟩ := grew
  have hchain : (observations t.infoHash (y.log ++
      (Action.evictStalled catalog env).records s y.engine)).IsChain
      (StampedBy s.scan.stallEvictionTimeout stamp) := by
    rw [observations_append, List.isChain_append]
    refine ⟨stamped.stamped t ht stamp hstamp, Action.records_isChain s y.engine _ _ _ _, ?_⟩
    intro o ho o' ho' hlt hrecent
    exact (permitted _ _ _ (mem_observations.mp (List.mem_of_mem_head? ho')) ⟨o, ho, hlt, hrecent⟩).elim
  have hpair : StampedBy s.scan.stallEvictionTimeout stamp a b := by
    simpa using hchain.infix hab
  have hpass : (Action.evictStalled catalog env).Clocked y.clock env.now := ⟨clocked, le_rfl⟩
  have hnow : b.1 ≤ env.now := by
    rcases List.mem_append.mp (mem_observations.mp (hab.subset (by simp : b ∈ [a, b]))) with hr | hr
    · exact (stamped.past _ hr).trans clocked
    · exact (Action.records_time hpass hr).2
  have hrecent : b.1 - a.1 < s.scan.stallEvictionTimeout := (sub_le_sub_right hnow a.1).trans_lt ha
  exact absurd ((hpair hlt hrecent).trans hold) (not_le.mpr (sub_lt_comm.mp hb))

/-- A reading at the end of the window that is above the mark keeps the torrent. -/
theorem evictStalledTorrents_spares_growth_watched :
    let s := Reference.settings
    let hex := hexEncode Reference.hashA
    let ts := [Reference.held hex Reference.location]
    let stats := fun (bytes : Nat) (_ : String) => SessionStats.mk false false (some 0) bytes
    let watch := fun (now : Time) bytes => Action.bookkeep ⟨stats bytes, now, true, true, true⟩
    let now : Time := s.scan.stallEvictionTimeout
    let pass : StallEnv := ⟨now, fun h => some (stats 50 h), fun _ => 0, fun _ => ⟨⟨true, true, true⟩, now⟩⟩
    let x : Process := ⟨Reference.engine ts (List.nodup_singleton _), 0, []⟩
    let y := (x.after s (watch (now - 2) 10) (now - 2)).after s (watch (now - 1) 50) (now - 1)
    (evictStalledTorrents s y.engine [hex] pass).state.torrents.Has hex := by
  intro s hex ts stats watch now pass x y
  have first : StampsGrowth s x (watch (now - 2) 10) := by
    rintro h time bytes - ⟨last, hlast, -⟩
    cases hlast
  have second : StampsGrowth s (x.after s (watch (now - 2) 10) (now - 2)) (watch (now - 1) 50) := by
    intro h time bytes hr _
    have hrecords : (watch (now - 1) 50).records s (x.after s (watch (now - 2) 10) (now - 2)).engine =
        [.observed hex (now - 1) 50] := by decide +kernel
    rw [hrecords, List.mem_singleton, Record.observed.injEq] at hr
    obtain ⟨rfl, -, rfl⟩ := hr
    show ∀ t ∈ (x.after s (watch (now - 2) 10) (now - 2)).engine.state.torrents.values,
      t.infoHash = hex → State.progressGrew t 50 = true
    decide +kernel
  have last : StampsGrowth s y (.evictStalled [hex] pass) := by
    intro h time bytes hr _
    have hrecords : (Action.evictStalled [hex] pass).records s y.engine = [] := by decide +kernel
    rw [hrecords] at hr
    cases hr
  have run : Relation.ReflTransGen (ProcessStep s (StampsGrowth s)) x y :=
    (Relation.ReflTransGen.single (.action x (watch (now - 2) 10) (now - 2) ⟨by decide +kernel, le_rfl⟩ first)).tail
      (.action _ (watch (now - 1) 50) (now - 1) ⟨by decide +kernel, le_rfl⟩ second)
  have grew : GrewWithin s.scan.stallEvictionTimeout now hex
      (y.log ++ (Action.evictStalled [hex] pass).records s y.engine) :=
    ⟨(now - 2, 10), (now - 1, 50), by decide +kernel⟩
  exact evictStalledTorrents_spares_growth run rfl (by decide +kernel) last (by decide +kernel) grew

/-- A torrent reads 100 bytes, then 10, then 50: the last growth stays below the mark, and the pass
removes the torrent two nanoseconds after it grew. -/
theorem evictStalledTorrents_removes_growing :
    let s := Reference.settings
    let hex := hexEncode Reference.hashA
    let ts := [Reference.held hex Reference.location]
    let stats := fun (bytes : Nat) (_ : String) => SessionStats.mk false false (some 0) bytes
    let watch := fun (now : Time) bytes => Action.bookkeep ⟨stats bytes, now, true, true, true⟩
    let now : Time := s.scan.stallEvictionTimeout
    let pass : StallEnv := ⟨now, fun h => some (stats 50 h), fun _ => 0, fun _ => ⟨⟨true, true, true⟩, now⟩⟩
    let x : Process := ⟨Reference.engine ts (List.nodup_singleton _), 0, []⟩
    let y := ((x.after s (watch 0 100) 0).after s (watch (now - 2) 10) (now - 2)).after s
      (watch (now - 1) 50) (now - 1)
    Relation.ReflTransGen (ProcessStep s AnyAction) x y ∧ y.clock ≤ pass.now ∧
      y.engine.state.torrents.Has hex ∧
      GrewWithin s.scan.stallEvictionTimeout now hex
        (y.log ++ (Action.evictStalled [hex] pass).records s y.engine) ∧
      ¬(evictStalledTorrents s y.engine [hex] pass).state.torrents.Has hex := by
  intro s hex ts stats watch now pass x y
  refine ⟨?_, by decide +kernel, by decide +kernel,
    ⟨(now - 2, 10), (now - 1, 50), by decide +kernel⟩, by decide +kernel⟩
  exact ((Relation.ReflTransGen.single (.action x (watch 0 100) 0 ⟨by decide +kernel, le_rfl⟩ trivial)).tail
    (.action _ (watch (now - 2) 10) (now - 2) ⟨by decide +kernel, le_rfl⟩ trivial)).tail
    (.action _ (watch (now - 1) 50) (now - 1) ⟨by decide +kernel, le_rfl⟩ trivial)

end KeepAt
