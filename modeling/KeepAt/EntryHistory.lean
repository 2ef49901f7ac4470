import KeepAt.Process

namespace KeepAt

/-- An entry as actions from `lo` on may leave it: its stamps are the old ones or not before `lo`. -/
structure Aged (lo : Time) (t t' : Torrent) : Prop where
  infoHash : t'.infoHash = t.infoHash
  addedAt : t'.addedAt = t.addedAt
  confirmed : t'.lastConfirmedInCatalogAt = t.lastConfirmedInCatalogAt ∨
    ∃ c, t'.lastConfirmedInCatalogAt = some c ∧ lo ≤ c
  progress : t'.lastProgressAt = t.lastProgressAt ∨ ∃ p, t'.lastProgressAt = some p ∧ lo ≤ p

structure Fresh (lo : Time) (t : Torrent) : Prop where
  confirmed : ∃ c, t.lastConfirmedInCatalogAt = some c ∧ lo ≤ c
  progress : ∃ p, t.lastProgressAt = some p ∧ lo ≤ p

variable {s : Settings} {e : Engine} {lo hi : Time}

theorem Aged.refl (lo : Time) (t : Torrent) : Aged lo t t := ⟨rfl, rfl, Or.inl rfl, Or.inl rfl⟩

theorem Aged.trans {t u v : Torrent} (h : Aged lo t u) (k : Aged lo u v) : Aged lo t v where
  infoHash := k.infoHash.trans h.infoHash
  addedAt := k.addedAt.trans h.addedAt
  confirmed := by
    rcases k.confirmed with hk | hk
    · rw [hk]
      exact h.confirmed
    · exact Or.inr hk
  progress := by
    rcases k.progress with hk | hk
    · rw [hk]
      exact h.progress
    · exact Or.inr hk

theorem aged_confirmUpdate {now : Time} (h : lo ≤ now) (t : Torrent) :
    Aged lo t ((confirmUpdate now).apply t) :=
  ⟨rfl, rfl, Or.inr ⟨now, rfl, h⟩, Or.inl rfl⟩

theorem aged_progressUpdate {now : Time} (h : lo ≤ now) (checked : Nat) (t : Torrent) :
    Aged lo t ((State.progressUpdate checked now).apply t) := by
  simp only [State.progressUpdate]
  split
  · exact ⟨rfl, rfl, Or.inl rfl, Or.inr ⟨now, rfl, h⟩⟩
  · exact Aged.refl lo t

theorem aged_refreshUpdate {now : Time} (h : lo ≤ now) (seeders progress : Nat) (t : Torrent) :
    Aged lo t ((refreshUpdate seeders progress now).apply t) := by
  have hseen : Aged lo t { t with lastKnownSeeders := seeders } := ⟨rfl, rfl, Or.inl rfl, Or.inl rfl⟩
  exact hseen.trans (aged_progressUpdate h progress _)

theorem aged_applyUpdates {updates : List (String × TorrentUpdate)}
    (h : ∀ u ∈ updates, ∀ t, Aged lo t (u.2.apply t)) (t : Torrent) :
    Aged lo t (State.applyUpdates updates t) := by
  induction updates generalizing t with
  | nil => exact Aged.refl lo t
  | cons u updates ih =>
    obtain ⟨hu, hrest⟩ := List.forall_mem_cons.mp h
    have hone : Aged lo t (if t.infoHash = u.1 then u.2.apply t else t) := by
      split
      · exact hu t
      · exact Aged.refl lo t
    exact hone.trans (ih hrest _)

theorem vanishedPass_subset (s : Settings) (e : Engine) (catalog : List String) (env : VanishedEnv) :
    (vanishedPass s e catalog env).state.torrents.values ⊆ e.state.torrents.values := by
  rcases vanishedPass_cases s e catalog env with ⟨-, h⟩ | ⟨-, h⟩ <;> rw [h]
  · exact List.Subset.refl _
  · exact Engine.evictDue_subset _ _ _ _ _

theorem evictStalledTorrents_subset (s : Settings) (e : Engine) (catalog : List String) (env : StallEnv) :
    (evictStalledTorrents s e catalog env).state.torrents.values ⊆ e.state.torrents.values := by
  rcases evictStalledTorrents_cases s e catalog env with ⟨-, h⟩ | ⟨-, h⟩ <;> rw [h]
  · exact List.Subset.refl _
  · exact Engine.evictDue_subset _ _ _ _ _

theorem enforceTrip_subset (s : Settings) (now : Time) (env : String → EvictEnv) (e : Engine)
    (p : String × Trip) :
    (enforceTrip s now env e p).state.torrents.values ⊆ e.state.torrents.values := by
  simp only [enforceTrip]
  split
  · rw [State.quarantinePut_torrents]
    exact List.Subset.refl _
  · split <;>
      (simp only [Engine.record_state, State.quarantineAndRemove_torrents]
       exact fun t ht => (KeyedList.mem_erase.mp ht).1)

theorem bookkeep_values (s : Settings) (e : Engine) (env : BookkeepEnv) :
    (bookkeep s e env).1.state.torrents.values = e.state.torrents.values.map
      (State.applyUpdates (State.progressUpdates (sweep s.scan e env.stats).progress env.now)) := by
  simp only [bookkeep]
  split <;> simp only [State.quarantineRemoveMany_torrents, State.updateProgressMany_values]

theorem reconcile_values (s : Settings) (e : Engine) (catalog : List String) (env : ReconcileEnv) :
    let passed := vanishedPass s { e with lastCatalog := some catalog } catalog env.vanished
    (reconcile s e catalog env).state.torrents.values = passed.state.torrents.values.map
      (State.applyUpdates (confirmations passed.state.all catalog env.confirmedAt)) :=
  Engine.updateEach_values _ _ _

theorem refreshHeldSeederCounts_values (s : Settings) (e : Engine) (env : RefreshEnv) :
    (refreshHeldSeederCounts s e env).state.torrents.values = e.state.torrents.values.map
      (State.applyUpdates (refreshUpdates env.stampedAt
        (refreshWalk s env e.torrentCache (e.state.all.take env.walked)).2)) :=
  Engine.updateEach_values _ _ _

theorem Admitted.mem {c : Candidate} {env : ActEnv} {after : Engine} {md : TorrentMeta}
    {location : PathBuf} {place : PlaceEnv} {displaced : List Torrent}
    (h : Admitted s e c env after md location place displaced) {t : Torrent}
    (ht : t ∈ after.state.torrents.values) :
    t = heldEntry c md md.totalLength location place ∨
      t ∈ e.state.torrents.values ∧ t.infoHash ≠ hexEncode c.infoHash := by
  rw [h.torrents] at ht
  exact KeyedList.mem_insert.mp (KeyedList.mem_eraseAll.mp ht).1

theorem aged_map {updates : List (String × TorrentUpdate)} {ts : List Torrent} {t : Torrent}
    (h : ∀ u ∈ updates, ∀ t, Aged lo t (u.2.apply t))
    (ht : t ∈ ts.map (State.applyUpdates updates)) : ∃ u ∈ ts, Aged lo u t := by
  obtain ⟨u, hu, rfl⟩ := List.mem_map.mp ht
  exact ⟨u, hu, aged_applyUpdates h u⟩

/-- Every entry an action leaves comes from an old one, or is fresh. -/
theorem Action.apply_entry {a : Action} (clocked : a.Clocked lo hi) {t' : Torrent}
    (h : t' ∈ (a.apply s e).state.torrents.values) :
    (∃ t ∈ e.state.torrents.values, Aged lo t t') ∨ Fresh lo t' := by
  have kept : t' ∈ e.state.torrents.values → ∃ t ∈ e.state.torrents.values, Aged lo t t' :=
    fun ht => ⟨t', ht, Aged.refl lo t'⟩
  cases a with
  | reconcile catalog env =>
    have hlo : lo ≤ env.confirmedAt := clocked.1.trans clocked.2.1
    simp only [Action.apply, reconcile_values] at h
    have hconfirm : ∀ u ∈ confirmations (vanishedPass s { e with lastCatalog := some catalog } catalog
        env.vanished).state.all catalog env.confirmedAt, ∀ t, Aged lo t (u.2.apply t) := by
      intro u hu
      obtain ⟨v, -, rfl⟩ := List.mem_map.mp hu
      exact aged_confirmUpdate hlo
    obtain ⟨t, ht, hage⟩ := aged_map hconfirm h
    have hsub := vanishedPass_subset s { e with lastCatalog := some catalog } catalog env.vanished
    exact Or.inl ⟨t, hsub ht, hage⟩
  | refresh env readAt =>
    simp only [Action.apply, refreshHeldSeederCounts_values] at h
    refine Or.inl (aged_map ?_ h)
    intro u hu
    obtain ⟨r, -, rfl⟩ := List.mem_map.mp hu
    obtain ⟨hread, hstamp, -⟩ := clocked.2 r.infoHash
    exact aged_refreshUpdate (hread.trans hstamp) _ _
  | evictStalled catalog env => exact Or.inl (kept (evictStalledTorrents_subset _ _ _ _ h))
  | readMetadata hex env => exact Or.inl (kept h)
  | act c n seederFloor env =>
    rcases actOnCandidate_admitted s e c n seederFloor env with
      ⟨ht, -⟩ | ⟨md, location, place, displaced, hadm⟩
    · exact Or.inl (kept (ht ▸ h))
    · rcases hadm.mem h with rfl | ⟨ht, -⟩
      · have hplace := PlaceEnv.clocked_of_chosen clocked displaced location
        rw [← hadm.chosen] at hplace
        obtain ⟨hadded, hprogress, hconfirmed, -⟩ := hplace
        exact Or.inr ⟨⟨place.confirmedAt, rfl, hadded.trans (hprogress.trans hconfirmed)⟩,
          ⟨place.progressAt, rfl, hadded.trans hprogress⟩⟩
      · exact Or.inl (kept ht)
  | bookkeep env =>
    simp only [Action.apply, bookkeep_values] at h
    refine Or.inl (aged_map ?_ h)
    intro u hu
    obtain ⟨p, -, rfl⟩ := List.mem_map.mp hu
    exact aged_progressUpdate clocked.1 _
  | rememberCatalog catalog => exact Or.inl (kept h)
  | rearm hex q saved =>
    simp only [Action.apply, State.quarantinePut_torrents] at h
    exact Or.inl (kept h)
  | enforceTrip now env trip => exact Or.inl (kept (enforceTrip_subset _ _ _ _ _ h))
  | pushLive => exact Or.inl (kept h)

/-- What is noted of an action lies between the clock before and after it. -/
theorem Action.records_time {a : Action} (clocked : a.Clocked lo hi) {r : Record}
    (h : r ∈ a.records s e) : lo ≤ r.time ∧ r.time ≤ hi := by
  cases a with
  | reconcile catalog env =>
    obtain ⟨t, -, rfl⟩ := List.mem_map.mp h
    exact ⟨clocked.1.trans clocked.2.1, clocked.2.2⟩
  | refresh env readAt =>
    obtain ⟨reading, -, rfl⟩ := List.mem_map.mp h
    obtain ⟨hlo, hread, hhi⟩ := clocked.2 reading.infoHash
    exact ⟨hlo, hread.trans hhi⟩
  | evictStalled catalog env =>
    simp only [Action.records] at h
    split at h
    next => cases h
    next =>
      obtain ⟨t, -, rfl⟩ := List.mem_map.mp h
      exact clocked
  | act c n seederFloor env =>
    rcases actOnCandidate_admitted s e c n seederFloor env with
      ⟨-, hh⟩ | ⟨md, location, place, displaced, hadm⟩
    · simp [Action.records, hh] at h
    · simp only [Action.records, hadm.addStamp, List.map_cons, List.map_nil,
        List.mem_singleton] at h
      subst h
      have hplace := PlaceEnv.clocked_of_chosen clocked displaced location
      rw [← hadm.chosen] at hplace
      obtain ⟨hadded, hprogress, hconfirmed, hhi⟩ := hplace
      exact ⟨hadded.trans (hprogress.trans hconfirmed), hhi⟩
  | bookkeep env =>
    obtain ⟨hex, -, hr⟩ := List.mem_filterMap.mp h
    obtain ⟨p, -, rfl⟩ := Option.map_eq_some_iff.mp hr
    exact clocked
  | readMetadata => cases h
  | rememberCatalog => cases h
  | rearm => cases h
  | enforceTrip => cases h
  | pushLive => cases h

end KeepAt
