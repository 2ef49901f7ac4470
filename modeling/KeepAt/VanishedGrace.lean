import KeepAt.EntryHistory
import KeepAt.Reference

namespace KeepAt

variable {s : Settings} {e : Engine} {lo hi : Time}

def Restarts (hex : String) (time : Time) (log : List Record) : Prop :=
  Record.confirmed hex time ∈ log ∨ Record.added hex time ∈ log

/-- No held torrent was seen later than its anchor says. -/
structure GraceCovered (x : Process) : Prop where
  past : ∀ r ∈ x.log, r.time ≤ x.clock
  anchored : ∀ t ∈ x.engine.state.torrents.values, ∀ time, Restarts t.infoHash time x.log →
    time ≤ t.anchor

theorem Aged.anchor_le {t t' : Torrent} {time : Time} (h : Aged lo t t') (hlo : time ≤ lo)
    (ht : time ≤ t.anchor) : time ≤ t'.anchor := by
  unfold Torrent.anchor at *
  rcases h.confirmed with hc | ⟨c, hc, hle⟩
  · rwa [hc, h.addedAt]
  · rw [hc]
    exact hlo.trans hle

theorem Fresh.anchor_le {t : Torrent} {time : Time} (h : Fresh lo t) (hlo : time ≤ lo) :
    time ≤ t.anchor := by
  obtain ⟨c, hc, hle⟩ := h.confirmed
  rw [Torrent.anchor, hc]
  exact hlo.trans hle

theorem applyUpdates_confirm (hexes : List String) (now : Time) (t : Torrent) :
    State.applyUpdates (hexes.map fun hex => (hex, confirmUpdate now)) t =
      if t.infoHash ∈ hexes then { t with lastConfirmedInCatalogAt := some now } else t := by
  induction hexes generalizing t with
  | nil => rfl
  | cons hex hexes ih =>
    by_cases hk : t.infoHash = hex
    · have hstep : State.applyUpdates ((hex :: hexes).map fun hex => (hex, confirmUpdate now)) t =
          State.applyUpdates (hexes.map fun hex => (hex, confirmUpdate now))
            { t with lastConfirmedInCatalogAt := some now } := by
        simp only [State.applyUpdates, List.map_cons, List.foldl_cons, if_pos hk]
        rfl
      rw [hstep, ih]
      simp [hk]
    · have hstep : State.applyUpdates ((hex :: hexes).map fun hex => (hex, confirmUpdate now)) t =
          State.applyUpdates (hexes.map fun hex => (hex, confirmUpdate now)) t := by
        simp only [State.applyUpdates, List.map_cons, List.foldl_cons, if_neg hk]
      rw [hstep, ih]
      simp [hk]

theorem confirmations_anchor {held : List Torrent} {catalog : List String} {now : Time} {t : Torrent}
    (ht : t ∈ held) (hc : t.infoHash ∈ catalog) :
    now ≤ (State.applyUpdates (confirmations held catalog now) t).anchor := by
  have hconfirm : confirmations held catalog now =
      ((held.filter fun t => decide (t.infoHash ∈ catalog) &&
        t.lastConfirmedInCatalogAt.all fun seen => seen < now).map Torrent.infoHash).map
        fun hex => (hex, confirmUpdate now) := by
    rw [List.map_map]
    rfl
  rw [hconfirm, applyUpdates_confirm]
  split
  next => exact le_rfl
  next hout =>
    have hlater : ¬t.lastConfirmedInCatalogAt.all (fun seen => seen < now) = true := by
      intro hall
      exact hout (List.mem_map_of_mem (List.mem_filter.mpr ⟨ht, by simp [hc, hall]⟩))
    cases hseen : t.lastConfirmedInCatalogAt with
    | none => simp [hseen] at hlater
    | some seen =>
      rw [Torrent.anchor, hseen]
      simpa [hseen] using hlater

theorem Action.records_anchored {a : Action} {t : Torrent} {time : Time}
    (h : t ∈ (a.apply s e).state.torrents.values) (hr : Restarts t.infoHash time (a.records s e)) :
    time ≤ t.anchor := by
  cases a with
  | reconcile catalog env =>
    simp only [Restarts, Action.records, List.mem_map, List.mem_filter, decide_eq_true_eq,
      Record.confirmed.injEq, reduceCtorEq, and_false, exists_false, or_false] at hr
    obtain ⟨u, ⟨hu, hc⟩, hk, rfl⟩ := hr
    simp only [Action.apply, reconcile_values] at h
    obtain ⟨v, hv, rfl⟩ := List.mem_map.mp h
    obtain rfl := KeyedList.eq_of_key_eq hu hv (hk.trans (State.applyUpdates_infoHash _ _))
    exact confirmations_anchor hu hc
  | act c n seederFloor env =>
    rcases actOnCandidate_admitted s e c n seederFloor env with
      ⟨-, hh⟩ | ⟨md, location, place, displaced, hadm⟩
    · simp [Restarts, Action.records, hh] at hr
    · simp only [Restarts, Action.records, hadm.addStamp, List.map_cons, List.map_nil,
        List.mem_singleton, reduceCtorEq, Record.added.injEq, false_or] at hr
      obtain ⟨hk, rfl⟩ := hr
      rcases hadm.mem h with rfl | ⟨-, hne⟩
      · exact le_rfl
      · exact absurd hk hne
  | refresh env readAt => simp [Restarts, Action.records] at hr
  | evictStalled catalog env =>
    simp only [Restarts, Action.records] at hr
    split at hr <;> simp at hr
  | bookkeep env => simp [Restarts, Action.records] at hr
  | readMetadata => simp [Restarts, Action.records] at hr
  | rememberCatalog => simp [Restarts, Action.records] at hr
  | rearm => simp [Restarts, Action.records] at hr
  | enforceTrip => simp [Restarts, Action.records] at hr
  | pushLive => simp [Restarts, Action.records] at hr

theorem processStep_graceCovered {Permits : Process → Action → Prop} {x y : Process}
    (step : ProcessStep s Permits x y) (h : GraceCovered x) : GraceCovered y := by
  cases step with
  | action a clock clocked permitted =>
    refine ⟨?_, ?_⟩
    · intro r hr
      rcases List.mem_append.mp hr with hr | hr
      · exact (h.past r hr).trans clocked.le
      · exact (Action.records_time clocked hr).2
    · intro t ht time hr
      have hsplit : Restarts t.infoHash time x.log ∨ Restarts t.infoHash time (a.records s x.engine) := by
        simp only [Process.after, Restarts, List.mem_append] at hr ⊢
        tauto
      rcases hsplit with hr | hr
      · have hlo : time ≤ x.clock := hr.elim (h.past _) (h.past _)
        rcases Action.apply_entry clocked ht with ⟨u, hu, hage⟩ | hfresh
        · exact hage.anchor_le hlo (h.anchored u hu time (hage.infoHash ▸ hr))
        · exact hfresh.anchor_le hlo
      · exact Action.records_anchored ht hr
  | rehash ts hperm => exact ⟨h.past, fun t ht => h.anchored t (hperm.subset ht)⟩

/-- What the pass removes is unlisted, and absent since its anchor for at least the timeout. -/
theorem vanishedPass_removed {catalog : List String} {env : VanishedEnv} {t : Torrent}
    (ht : t ∈ e.state.torrents.values)
    (removed : ¬(vanishedPass s e catalog env).state.torrents.Has t.infoHash) :
    s.cfg.config.preserveDeletedTorrents = false ∧
      catalogCollapse s.cfg.config.catalogCollapsePercent e.state.all catalog = false ∧
      t.infoHash ∉ catalog ∧ t.anchor ≤ env.now - s.scan.vanishedEvictionTimeout := by
  rcases vanishedPass_cases s e catalog env with ⟨-, h⟩ | ⟨⟨hcollapse, hpreserve⟩, h⟩
  · rw [h] at removed
    exact absurd (KeyedList.has_of_mem ht) removed
  · rw [h, Engine.evictDue_all_has ht] at removed
    unfold vanishedReason at removed
    split at removed
    next => exact absurd rfl removed
    next hc =>
      split at removed
      next => exact absurd rfl removed
      next absent habsent =>
        split at removed
        next => exact absurd rfl removed
        next hle => exact ⟨hpreserve, hcollapse, hc, le_sub_of_toStd habsent (not_lt.mp hle)⟩

/-- Whatever scans, refreshes, adds, evictions and watchdog work went before in the process, the
vanished pass removes a torrent only where it is enabled and its guard lets it run, over a catalog that
does not list it, and every confirmation and add of it is at least the timeout old. -/
theorem vanishedPass_respects_grace {x y : Process}
    (run : Relation.ReflTransGen (ProcessStep s AnyAction) x y) (start : x.log = [])
    {catalog : List String} {env : VanishedEnv} {hex : String}
    (held : y.engine.state.torrents.Has hex)
    (removed : ¬(vanishedPass s { y.engine with lastCatalog := some catalog } catalog
      env).state.torrents.Has hex) :
    s.cfg.config.preserveDeletedTorrents = false ∧
      catalogCollapse s.cfg.config.catalogCollapsePercent y.engine.state.all catalog = false ∧
      hex ∉ catalog ∧
      ∀ time, Restarts hex time y.log → time ≤ env.now - s.scan.vanishedEvictionTimeout := by
  have covered : GraceCovered y :=
    run_preserves (P := GraceCovered) processStep_graceCovered run
      ⟨by simp [start], by simp [start, Restarts]⟩
  obtain ⟨t, ht, rfl⟩ := KeyedList.has_iff.mp held
  obtain ⟨hpreserve, hcollapse, hc, hanchor⟩ :=
    vanishedPass_removed (e := { y.engine with lastCatalog := some catalog }) ht removed
  exact ⟨hpreserve, hcollapse, hc, fun time hr => (covered.anchored t ht time hr).trans hanchor⟩

theorem vanishedPass_respects_grace_ninety_days :
    let s := Reference.settings
    let a := hexEncode Reference.hashA
    let b := hexEncode Reference.hashB
    let ts := [Reference.held a Reference.location, Reference.held b Reference.otherLocation]
    let env := fun (now : Time) => VanishedEnv.mk now fun _ => ⟨⟨true, true, true⟩, now⟩
    ∃ hd : (ts.map Torrent.infoHash).Nodup,
      let x : Process := ⟨Reference.engine ts hd, 0, []⟩
      let y := x.after s (.reconcile [a, b] ⟨env 0, 0, true⟩) 0
      let now : Time := s.scan.vanishedEvictionTimeout
      ¬(vanishedPass s { y.engine with lastCatalog := some [b] } [b] (env now)).state.torrents.Has a ∧
        ∀ time, Restarts a time y.log → time ≤ now - s.scan.vanishedEvictionTimeout := by
  intro s a b ts env
  refine ⟨by decide, ?_⟩
  intro x y now
  have removed : ¬(vanishedPass s { y.engine with lastCatalog := some [b] } [b]
      (env now)).state.torrents.Has a := by decide +kernel
  have run : Relation.ReflTransGen (ProcessStep s AnyAction) x y :=
    .single (.action x _ 0 ⟨le_rfl, le_rfl, le_rfl⟩ trivial)
  obtain ⟨-, -, -, hgrace⟩ := vanishedPass_respects_grace run rfl (by decide +kernel) removed
  exact ⟨removed, hgrace⟩

end KeepAt
