import KeepAt.LiveWatch

namespace KeepAt

/-- What an engine does between two moments at which its live view can be asked for: the parts of a scan,
and a whole watchdog pass. -/
inductive LiveOp where
  | vanished (catalog : List String) (env : VanishedEnv)
  | confirm (catalog : List String) (now : Time) (saved : Bool)
  | refresh (env : RefreshEnv)
  | evictStalled (catalog : List String) (env : StallEnv)
  | readMetadata (hex : String) (env : FetchEnv)
  | act (c : Candidate) (heldCount seederFloor : Nat) (env : ActEnv)
  | watch (env : PassEnv)

namespace LiveOp

def apply (s : Settings) (e : Engine) : LiveOp → Engine
  | vanished catalog env => vanishedPass s { e with lastCatalog := some catalog } catalog env
  | confirm catalog now saved => e.updateEach (confirmations e.state.all catalog now) saved
  | refresh env => refreshHeldSeederCounts s e env
  | evictStalled catalog env => evictStalledTorrents s e catalog env
  | readMetadata hex env => { e with torrentCache := (fetchMetadata s e.torrentCache hex env).1 }
  | act c heldCount seederFloor env => (actOnCandidate s e c heldCount seederFloor env).1
  | watch env => quarantinePass s e env

/-- A catalog spells its hashes as the program writes them. -/
def Listed (e : Engine) : LiveOp → Prop
  | watch env => ∀ listed, e.lastCatalog.or env.reprobe.catalog = some listed → SpelledList listed
  | _ => True

/-- If the operation changes what is served, one of the saves that its push waits for goes through. -/
def Pushes (s : Settings) (e : Engine) : LiveOp → Prop
  | vanished catalog env =>
    catalogCollapse s.cfg.config.catalogCollapsePercent e.state.all catalog = true ∨
      s.cfg.config.preserveDeletedTorrents = true ∨
      DropPushes (vanishedReason s.scan.vanishedEvictionTimeout catalog env.now) env.evict e.state.all
  | refresh env => RefreshPushes s e env
  | evictStalled catalog env =>
    s.scan.stallEvictionTimeout = 0 ∨
      DropPushes (stalledReason s.scan.stallEvictionTimeout catalog env) env.evict e.state.all
  | act c heldCount seederFloor env => SwapPushes s e c heldCount seederFloor env
  | watch env => PassPushes s e env
  | _ => True

end LiveOp

/-- What an engine may become next. `Permits` says which operations a run may contain. -/
inductive LiveStep (s : Settings) (Permits : Engine → LiveOp → Prop) : Engine → Engine → Prop
  | op (e : Engine) (op : LiveOp) (listed : op.Listed e) (permitted : Permits e op) :
      LiveStep s Permits e (op.apply s e)
  | rehash (e : Engine) (ts : List Torrent) (h : ts.Perm e.state.torrents.values) :
      LiveStep s Permits e { e with state := e.state.rehash ts h }

def AnyOp (_ : Engine) (_ : LiveOp) : Prop := True

def PushingOp (s : Settings) (e : Engine) (op : LiveOp) : Prop := op.Pushes s e

variable {s : Settings} {e : Engine} {seederFloor : Nat} {Reads : String → TorrentMeta → Prop}

/-- The maintenance of a scan against its catalog is two operations. -/
theorem reconcile_ops (s : Settings) (e : Engine) (catalog : List String) (env : ReconcileEnv) :
    reconcile s e catalog env = (LiveOp.confirm catalog env.confirmedAt env.confirmSaved).apply s
      ((LiveOp.vanished catalog env.vanished).apply s e) := rfl

/-- A scan, up to wherever it gets, is a run of operations. -/
theorem scanRun_ops {items : List Item} {env : ScanEnv} {y : ScanState}
    (run : Relation.ReflTransGen (ScanStep s seederFloor Reads) (beginScan s e items env) y) :
    Relation.ReflTransGen (LiveStep s AnyOp) e y.engine := by
  have single : ∀ (e : Engine) (op : LiveOp), op.Listed e →
      Relation.ReflTransGen (LiveStep s AnyOp) e (op.apply s e) :=
    fun e op listed => .single (.op e op listed trivial)
  have action : ∀ e a, Action.InScan a → Relation.ReflTransGen (LiveStep s AnyOp) e (a.apply s e) := by
    intro e a ha
    cases a with
    | reconcile catalog env =>
      have hvanished := single e (.vanished catalog env.vanished) trivial
      exact hvanished.trans (single _ (.confirm catalog env.confirmedAt env.confirmSaved) trivial)
    | refresh env readAt => exact single e (.refresh env) trivial
    | evictStalled catalog env => exact single e (.evictStalled catalog env) trivial
    | readMetadata hex env => exact single e (.readMetadata hex env) trivial
    | act c n seederFloor env => exact single e (.act c n seederFloor env) trivial
    | bookkeep => cases ha
    | rememberCatalog => cases ha
    | rearm => cases ha
    | enforceTrip => cases ha
    | pushLive => cases ha
  have runs := scanRun_within action (fun e ts h => .single (.rehash e ts h)) run
  rwa [Relation.reflTransGen_eq_self] at runs

theorem LiveOp.fresh {op : LiveOp} (listed : op.Listed e) (pushes : op.Pushes s e) (h : LiveFresh e) :
    LiveFresh (op.apply s e) := by
  cases op with
  | vanished catalog env =>
    have hlisted : LiveFresh { e with lastCatalog := some catalog } := h.keep rfl rfl (.refl _)
    rw [LiveOp.apply]
    rcases vanishedPass_cases s { e with lastCatalog := some catalog } catalog env with
      ⟨-, hpass⟩ | ⟨⟨hguard, hkept⟩, hpass⟩ <;> rw [hpass]
    · exact hlisted
    · have hdrops := (pushes.resolve_left fun hc => absurd (hguard.symm.trans hc) (by simp)).resolve_left
        fun hp => absurd (hkept.symm.trans hp) (by simp)
      exact evictDue_fresh hlisted hdrops
  | confirm catalog now saved => exact confirm_fresh h catalog now saved
  | refresh env => exact refresh_fresh h pushes
  | evictStalled catalog env =>
    rw [LiveOp.apply]
    rcases evictStalledTorrents_cases s e catalog env with ⟨-, hpass⟩ | ⟨hon, hpass⟩ <;> rw [hpass]
    · exact h
    · exact evictDue_fresh h (pushes.resolve_left hon)
  | readMetadata hex env => exact h.keep rfl rfl (.refl _)
  | act c n seederFloor env => exact actOnCandidate_fresh h pushes
  | watch env => exact quarantinePass_fresh h listed pushes

theorem liveStep_fresh {x y : Engine} (step : LiveStep s (PushingOp s) x y) (h : LiveFresh x) :
    LiveFresh y := by
  cases step with
  | op op listed pushes => exact op.fresh listed pushes h
  | rehash ts hperm => exact h.keep rfl rfl (hperm.map servedEntry)

/-- In a run whose operations all push what they change, the live view is fresh whenever one returns. -/
theorem live_view_stays_fresh {x y : Engine} (run : Relation.ReflTransGen (LiveStep s (PushingOp s)) x y)
    (attached : LiveFresh x) : LiveFresh y :=
  run_preserves (P := LiveFresh) liveStep_fresh run attached

namespace Reference

/-- An engine with one held torrent and its view attached. -/
def attached : Engine :=
  let e := engine [held (hexEncode hashA) location] (List.nodup_singleton _)
  { e with live := some ⟨e.state.quarantineCount, snapshotEntries e.state⟩ }

/-- The torrent has made no progress for longer than the timeout. -/
def stall (saved : Bool) : LiveOp :=
  .evictStalled [hexEncode hashA]
    { now := 1 + settings.scan.stallEvictionTimeout, find := fun _ => none, dirSize := fun _ => 0,
      evict := fun _ => ⟨⟨true, true, saved⟩, 2⟩ }

theorem attached_fresh : LiveFresh attached := by
  intro v hv
  obtain rfl := Option.some.inj hv
  exact ⟨rfl, .refl _⟩

end Reference

theorem live_view_stays_fresh_stall :
    let y := (Reference.stall true).apply Reference.settings Reference.attached
    y.live = some ⟨0, []⟩ ∧ y.state.torrents.values = [] ∧ LiveFresh y := by
  intro y
  have hpushes : (Reference.stall true).Pushes Reference.settings Reference.attached :=
    Or.inr fun ⟨t, ht, hdue⟩ => ⟨t, ht, hdue, rfl⟩
  have step : LiveStep Reference.settings (PushingOp Reference.settings) Reference.attached y :=
    .op _ (Reference.stall true) trivial hpushes
  exact ⟨by decide +kernel, by decide +kernel, live_view_stays_fresh (.single step) Reference.attached_fresh⟩

/-- The removal is not saved: the torrent is gone from memory, and the view still serves it. -/
theorem live_view_serves_evicted :
    let y := (Reference.stall false).apply Reference.settings Reference.attached
    LiveFresh Reference.attached ∧ y.live.map (fun v => v.held.map StateEntry.infoHash) =
      some [hexEncode Reference.hashA] ∧ y.state.torrents.values = [] ∧ ¬LiveFresh y := by
  intro y
  have hlive : y.live = some ⟨0, [servedEntry (Reference.held (hexEncode Reference.hashA)
    Reference.location)]⟩ := by decide +kernel
  have hgone : y.state.torrents.values = [] := by decide +kernel
  refine ⟨Reference.attached_fresh, by decide +kernel, hgone, fun hfresh => ?_⟩
  have hperm := (hfresh _ hlive).2.length_eq
  rw [snapshotEntries, State.all, hgone] at hperm
  cases hperm

end KeepAt
