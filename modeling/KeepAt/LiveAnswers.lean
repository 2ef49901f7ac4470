import KeepAt.LiveServer
import KeepAt.StableSort
import Mathlib.Data.List.Infix

namespace KeepAt

variable {x y : LiveServer} {held : List HeldTorrentView}

/-- What never goes back: what the handle has held, the promotion, and what the disk figures have been. -/
structure LiveServer.Grows (x y : LiveServer) : Prop where
  past : x.past <+: y.past
  live : x.inner.isBooting = false → y.inner.isBooting = false
  readings : x.disk.readings <+: y.disk.readings
  seed : y.disk.seed = x.disk.seed
  startedAt : y.startedAt = x.startedAt

/-- The disk figures of an answer: those of a walk that ended within the cache's time, or within that time of the
start those that the daemon was started with, which may be of any age. -/
def LiveServer.DiskAt (x : LiveServer) (at_ : Nat) (disk : Nat × Nat) : Prop :=
  (∃ walk ∈ x.disk.readings, walk.value = disk ∧ walk.stop ≤ at_ ∧ at_ < walk.stop + diskCacheTtl) ∨
    (x.disk.seed = some (x.startedAt, disk) ∧ at_ < x.startedAt + diskCacheTtl)

theorem LiveServer.DiskAt.grow {at_ : Nat} {disk : Nat × Nat} (h : x.DiskAt at_ disk) (grows : x.Grows y) :
    y.DiskAt at_ disk := by
  rcases h with ⟨walk, hwalk, hfresh⟩ | ⟨hseed, hlt⟩
  · exact Or.inl ⟨walk, grows.readings.subset hwalk, hfresh⟩
  · refine Or.inr ⟨?_, ?_⟩
    · rw [grows.seed, grows.startedAt, hseed]
    · rwa [grows.startedAt]

def QueryStage.Sound (x : LiveServer) (since : Nat) : QueryStage → Prop
  | .accepted | .asked | .answered => True
  | .sawActivity activity => activity ≠ .booting → x.inner.isBooting = false
  | .sawHandle activity inner | .sawSession activity inner _ | .walking activity inner _ =>
    inner ∈ x.past.drop since ∧ (activity ≠ .booting → inner.isBooting = false)

structure LiveQuery.Sound (x : LiveServer) (q : LiveQuery) : Prop where
  since : q.since < x.past.length
  stage : q.stage.Sound x q.since

/-- The figures of a runtime answer that come from the handle are those of one thing that it held after the
query was accepted, and its disk figures are those of a recent walk or, at first, of the start. -/
structure RuntimeView.FromPast (view : RuntimeView) (x : LiveServer) (since at_ : Nat) : Prop where
  handle : ∃ inner ∈ x.past.drop since, view.heldTorrents = inner.heldLen ∧
    view.diskCommittedBytes = inner.committed ∧ view.quarantinedTorrents = inner.quarantined ∧
    view.booting = inner.isBooting
  booting : view.booting = true → view.activity = .booting ∧ view.seedingTorrents = 0 ∧
    view.checksInProgress = 0 ∧ view.downloadingTorrents = view.heldTorrents
  disk : x.DiskAt at_ (view.diskUsedBytes, view.diskLimitBytes)

/-- A held answer lists what the handle held after the query was accepted: while booting as still to be verified,
then by title, with the progress that the session shows. -/
structure HeldView.FromPast (view : HeldView) (x : LiveServer) (since : Nat) (torrents : List SessionTorrent) :
    Prop where
  handle : ∃ inner ∈ x.past.drop since, view.booting = inner.isBooting ∧
    (view.torrents.map HeldTorrentView.infoHash).Perm inner.hashes
  booting : view.booting = true → ∀ t ∈ view.torrents, t.verifying = true ∧ t.finished = false ∧ t.progressBytes = 0
  ordered : view.booting = false → view.torrents.Pairwise fun a b => a.title ≤ b.title
  progress : view.booting = false → ∀ t ∈ view.torrents,
    (t.progressBytes, t.finished, t.verifying) = liveProgress torrents t.infoHash

def LiveAnswer.FromPast (x : LiveServer) : LiveAnswer → Prop
  | .runtime since at_ view => view.FromPast x since at_
  | .held since torrents view => view.FromPast x since torrents

theorem mem_drop_mono {α : Type} {xs ys : List α} (h : xs <+: ys) {n : Nat} {a : α} (ha : a ∈ xs.drop n) :
    a ∈ ys.drop n := (h.drop n).subset ha

theorem mem_drop_of_getLast? {α : Type} {xs : List α} {a : α} (h : xs.getLast? = some a) {n : Nat}
    (hn : n < xs.length) : a ∈ xs.drop n := by
  obtain ⟨front, rfl⟩ := List.getLast?_eq_some_iff.mp h
  rw [List.length_append, List.length_singleton] at hn
  rw [List.drop_append_of_le_length (by omega)]
  exact List.mem_append_right _ (List.mem_singleton_self a)

theorem QueryStage.Sound.grow (grows : x.Grows y) {since : Nat} {stage : QueryStage} (h : stage.Sound x since) :
    stage.Sound y since := by
  cases stage with
  | accepted | asked | answered => trivial
  | sawActivity activity => exact fun ha => grows.live (h ha)
  | sawHandle | sawSession | walking => exact ⟨mem_drop_mono grows.past h.1, h.2⟩

theorem LiveQuery.Sound.grow {q : LiveQuery} (h : q.Sound x) (grows : x.Grows y) : q.Sound y :=
  ⟨h.since.trans_le grows.past.length_le, h.stage.grow grows⟩

theorem LiveAnswer.FromPast.grow (grows : x.Grows y) {a : LiveAnswer} (h : a.FromPast x) : a.FromPast y := by
  cases a with
  | runtime since at_ view =>
    obtain ⟨⟨inner, hinner, hfigures⟩, hbooting, hdisk⟩ := h
    exact ⟨⟨inner, mem_drop_mono grows.past hinner, hfigures⟩, hbooting, hdisk.grow grows⟩
  | held since torrents view =>
    obtain ⟨⟨inner, hinner, hlisted⟩, hbooting, hordered, hprogress⟩ := h
    exact ⟨⟨inner, mem_drop_mono grows.past hinner, hlisted⟩, hbooting, hordered, hprogress⟩

/-- Before the session is there nothing is verified. -/
def HandleInner.Unverified : HandleInner → Prop
  | .booting held => ∀ t ∈ held, t.verifying = true ∧ t.finished = false ∧ t.progressBytes = 0
  | .live _ => True

theorem unverified_views (entries : List StateEntry) : (HandleInner.booting (entries.map verifyingView)).Unverified := by
  intro t ht
  obtain ⟨entry, -, rfl⟩ := List.mem_map.mp ht
  exact ⟨rfl, rfl, rfl⟩

theorem HandleInner.heldView_fromPast {inner : HandleInner} {since : Nat} (torrents : List SessionTorrent)
    (hinner : inner ∈ x.past.drop since) (unverified : inner.Unverified) :
    (inner.heldView torrents).FromPast x since torrents := by
  cases inner with
  | booting held =>
    exact ⟨⟨_, hinner, rfl, .refl _⟩, fun _ => unverified, fun h => Bool.noConfusion h,
      fun h => Bool.noConfusion h⟩
  | live view =>
    have hperm := List.perm_insertionSort (fun a b : HeldTorrentView => a.title ≤ b.title)
      (view.held.map (heldTorrentView torrents))
    refine ⟨⟨_, hinner, rfl, ?_⟩, fun h => Bool.noConfusion h, fun _ => ?_, fun _ t ht => ?_⟩
    · refine (hperm.map _).trans (.of_eq ?_)
      rw [List.map_map]
      rfl
    · have htotal : ∀ a b : HeldTorrentView, a.title ≤ b.title ∨ b.title ≤ a.title := fun a b => le_total _ _
      exact (isStableSort_insertionSort htotal (fun _ _ _ => le_trans) _).ordered
    · obtain ⟨entry, -, rfl⟩ := List.mem_map.mp (hperm.mem_iff.mp ht)
      rfl

/-- What holds of a server at any moment. -/
structure LiveServer.Sound (x : LiveServer) : Prop where
  unverified : ∀ inner ∈ x.past, inner.Unverified
  current : x.past.getLast? = some x.inner
  promoted : x.engine ≠ .booting → x.inner.isBooting = false
  activity : x.activity ≠ .booting → x.engine = .running
  queries : ∀ q ∈ x.queries, q.Sound x
  permits : x.queries.length ≤ maxConcurrentQueries
  disk : x.disk.Sound diskCacheTtl
  seed : ∀ p ∈ x.disk.seed, p.1 = x.startedAt
  answers : ∀ a ∈ x.answers, a.FromPast x

theorem LiveServerStep.grows (step : LiveServerStep x y) : x.Grows y := by
  cases step with
  | wait d => exact ⟨List.prefix_refl _, id, List.prefix_refl _, rfl, rfl⟩
  | activate view phase => exact ⟨List.prefix_append _ _, fun _ => rfl, List.prefix_refl _, rfl, rfl⟩
  | refresh view =>
    refine ⟨List.prefix_append _ _, fun hlive => ?_, List.prefix_refl _, rfl, rfl⟩
    unfold LiveServer.setInner HandleInner.refresh
    cases hinner : x.inner with
    | booting held => rw [hinner] at hlive; cases hlive
    | live old => rfl
  | answerWalked => exact ⟨List.prefix_refl _, id, List.prefix_append _ _, rfl, rfl⟩
  | _ => exact ⟨List.prefix_refl _, id, List.prefix_refl _, rfl, rfl⟩

/-- What becomes of the queries when one of them takes a step. -/
theorem LiveServer.Sound.replace (h : x.Sound) (grows : x.Grows y) {before after : List LiveQuery}
    {q q' : LiveQuery} (at_ : x.queries = before ++ q :: after) (queries : y.queries = before ++ q' :: after)
    (next : q'.Sound y) : (∀ q ∈ y.queries, q.Sound y) ∧ y.queries.length ≤ maxConcurrentQueries := by
  have hkept := h.queries
  have hpermits := h.permits
  rw [at_, List.forall_mem_append, List.forall_mem_cons] at hkept
  rw [at_, List.length_append, List.length_cons] at hpermits
  rw [queries, List.forall_mem_append, List.forall_mem_cons, List.length_append, List.length_cons]
  exact ⟨⟨fun q hq => (hkept.1 q hq).grow grows, next, fun q hq => (hkept.2.2 q hq).grow grows⟩, hpermits⟩

theorem LiveServer.Sound.query (h : x.Sound) {before after : List LiveQuery} {q : LiveQuery}
    (at_ : x.queries = before ++ q :: after) : q.Sound x :=
  h.queries q (by rw [at_]; exact List.mem_append_right _ List.mem_cons_self)

theorem runtimeView_fromPast {since : Nat} {activity : Activity} {inner : HandleInner} (session : SessionRead)
    {disk : Nat × Nat} (uptimeSeconds rss : Nat) (hinner : inner ∈ x.past.drop since)
    (hactivity : activity ≠ .booting → inner.isBooting = false) {at_ : Nat}
    (hdisk : x.DiskAt at_ disk) :
    (runtimeView activity inner session disk uptimeSeconds rss).FromPast x since at_ := by
  refine ⟨⟨inner, hinner, rfl, rfl, rfl, rfl⟩, fun hbooting => ?_, hdisk⟩
  have hbooting : inner.isBooting = true := hbooting
  refine ⟨?_, ?_⟩
  · by_contra hne
    rw [hactivity hne] at hbooting
    cases hbooting
  · simp [runtimeView, hbooting]

theorem LiveServerStep.sound (step : LiveServerStep x y) (h : x.Sound) : y.Sound := by
  have grows := step.grows
  have kept : ∀ a ∈ x.answers, a.FromPast y := fun a ha => (h.answers a ha).grow grows
  have queries : ∀ q ∈ x.queries, q.Sound y := fun q hq => (h.queries q hq).grow grows
  have hseed : ∀ p ∈ y.disk.seed, p.1 = y.startedAt := by
    rw [grows.seed, grows.startedAt]
    exact h.seed
  cases step with
  | wait d =>
    exact ⟨h.unverified, h.current, h.promoted, h.activity, queries, h.permits,
      (TtlCell.Step.wait d).sound h.disk, hseed, kept⟩
  | activate view phase =>
    refine ⟨?_, by simp [LiveServer.setInner], fun _ => rfl, fun ha => absurd (h.activity ha) (by rw [phase]; decide),
      queries, h.permits, h.disk, hseed, kept⟩
    exact List.forall_mem_append.mpr ⟨h.unverified, List.forall_mem_singleton.mpr trivial⟩
  | announce phase =>
    exact ⟨h.unverified, h.current, fun _ => h.promoted (by rw [phase]; decide), fun _ => rfl, queries, h.permits,
      h.disk, hseed, kept⟩
  | setActivity activity phase engine =>
    exact ⟨h.unverified, h.current, h.promoted, fun _ => phase, queries, h.permits, h.disk, hseed, kept⟩
  | refresh view =>
    refine ⟨?_, by simp [LiveServer.setInner], fun hp => grows.live (h.promoted hp), h.activity, queries, h.permits,
      h.disk, hseed, kept⟩
    refine List.forall_mem_append.mpr ⟨h.unverified, List.forall_mem_singleton.mpr ?_⟩
    cases x.inner with
    | booting held => exact unverified_views view.held
    | live old => trivial
  | accept permit =>
    have hlength : 0 < x.past.length := List.length_pos_of_mem (List.mem_of_getLast? h.current)
    refine ⟨h.unverified, h.current, h.promoted, h.activity, List.forall_mem_cons.mpr ⟨⟨?_, trivial⟩, queries⟩,
      permit, h.disk, hseed, kept⟩
    dsimp only
    omega
  | ask before after since at_ =>
    obtain ⟨hqueries, hpermits⟩ := h.replace grows at_ rfl ⟨(h.query at_).since, trivial⟩
    exact ⟨h.unverified, h.current, h.promoted, h.activity, hqueries, hpermits, h.disk, hseed, kept⟩
  | answerHeld before after since torrents at_ =>
    have hsince := (h.query at_).since
    obtain ⟨hqueries, hpermits⟩ := h.replace grows at_ rfl ⟨hsince, trivial⟩
    refine ⟨h.unverified, h.current, h.promoted, h.activity, hqueries, hpermits, h.disk, hseed,
      List.forall_mem_append.mpr ⟨kept, List.forall_mem_singleton.mpr ?_⟩⟩
    exact HandleInner.heldView_fromPast torrents (mem_drop_of_getLast? h.current hsince)
      (h.unverified _ (List.mem_of_getLast? h.current))
  | seeActivity before after since at_ =>
    obtain ⟨hqueries, hpermits⟩ := h.replace grows at_ rfl ⟨(h.query at_).since, fun ha =>
      h.promoted (by rw [h.activity ha]; decide)⟩
    exact ⟨h.unverified, h.current, h.promoted, h.activity, hqueries, hpermits, h.disk, hseed, kept⟩
  | seeHandle before after since activity at_ =>
    have hquery := h.query at_
    obtain ⟨hqueries, hpermits⟩ := h.replace grows at_ rfl
      ⟨hquery.since, mem_drop_of_getLast? h.current hquery.since, hquery.stage⟩
    exact ⟨h.unverified, h.current, h.promoted, h.activity, hqueries, hpermits, h.disk, hseed, kept⟩
  | seeSession before after since activity inner session at_ =>
    have hquery := h.query at_
    obtain ⟨hqueries, hpermits⟩ := h.replace grows at_ rfl ⟨hquery.since, hquery.stage⟩
    exact ⟨h.unverified, h.current, h.promoted, h.activity, hqueries, hpermits, h.disk, hseed, kept⟩
  | answerCached before after since activity inner session disk rss at_ free fresh =>
    have hquery := h.query at_
    obtain ⟨hqueries, hpermits⟩ := h.replace grows at_ rfl ⟨hquery.since, trivial⟩
    refine ⟨h.unverified, h.current, h.promoted, h.activity, hqueries, hpermits, h.disk, hseed,
      List.forall_mem_append.mpr ⟨kept, List.forall_mem_singleton.mpr ?_⟩⟩
    have hstage := hquery.stage.grow grows
    refine runtimeView_fromPast session _ rss hstage.1 hstage.2 ?_
    rcases h.disk.fresh fresh with hwalk | ⟨stamp, hstamp, hlt⟩
    · exact Or.inl hwalk
    · obtain rfl : stamp = x.startedAt := h.seed _ hstamp
      exact Or.inr ⟨hstamp, hlt⟩
  | walk before after since activity inner session at_ free stale =>
    have hquery := h.query at_
    obtain ⟨hqueries, hpermits⟩ := h.replace grows at_ rfl ⟨hquery.since, hquery.stage⟩
    exact ⟨h.unverified, h.current, h.promoted, h.activity, hqueries, hpermits,
      (TtlCell.Step.begin_ free stale).sound h.disk, hseed, kept⟩
  | answerWalked before after since activity inner session began disk rss at_ reading =>
    have hquery := h.query at_
    obtain ⟨hqueries, hpermits⟩ := h.replace grows at_ rfl ⟨hquery.since, trivial⟩
    refine ⟨h.unverified, h.current, h.promoted, h.activity, hqueries, hpermits,
      (TtlCell.Step.finish began disk reading).sound h.disk, hseed,
      List.forall_mem_append.mpr ⟨kept, List.forall_mem_singleton.mpr ?_⟩⟩
    have hstage := hquery.stage.grow grows
    exact runtimeView_fromPast session _ rss hstage.1 hstage.2 (Or.inl ⟨⟨began, x.disk.now, disk⟩,
      List.mem_append_right _ (List.mem_singleton_self _), rfl, le_rfl, Nat.lt_add_of_pos_right (by decide)⟩)
  | hangUp before after since stage at_ outside =>
    have hkept := queries
    have hpermits := h.permits
    rw [at_, List.forall_mem_append, List.forall_mem_cons] at hkept
    rw [at_, List.length_append, List.length_cons] at hpermits
    refine ⟨h.unverified, h.current, h.promoted, h.activity, List.forall_mem_append.mpr ⟨hkept.1, hkept.2.2⟩, ?_,
      h.disk, hseed, kept⟩
    rw [List.length_append]
    omega

theorem LiveServer.boot_sound (now : Nat) (entries : List StateEntry) (snapshot : Option (Nat × Nat)) :
    (LiveServer.boot now entries snapshot).Sound where
  unverified := List.forall_mem_singleton.mpr (unverified_views entries)
  current := rfl
  promoted h := absurd rfl h
  activity h := absurd rfl h
  queries _ hq := absurd hq List.not_mem_nil
  permits := Nat.zero_le _
  disk := TtlCell.start_sound _ _ _
  seed p hp := by
    obtain rfl := Option.some.inj hp
    rfl
  answers _ ha := absurd ha List.not_mem_nil

/-- Whatever the engine does meanwhile, and however the queries overlap: each answer tells one state that the
handle held since its query was accepted, and the disk figures of a walk that ended within the cache's time or,
for that time after the start, those that the last daemon saved. No more queries are open than there are permits,
and the walks over the disks keep their distance, from the start too. -/
theorem live_answers_tell_the_past {now : Nat} {entries : List StateEntry} {snapshot : Option (Nat × Nat)}
    (run : Relation.ReflTransGen LiveServerStep (.boot now entries snapshot) x) :
    (∀ a ∈ x.answers, a.FromPast x) ∧ x.queries.length ≤ maxConcurrentQueries ∧
      x.startedAt = now ∧ x.disk.seed = some (now, seededDisk snapshot) ∧
      (∀ walk ∈ x.disk.readings, now + diskCacheTtl ≤ walk.start) ∧
      x.disk.readings.Pairwise fun r r' => r.stop + diskCacheTtl ≤ r'.start := by
  have h : x.Sound := run_preserves (P := LiveServer.Sound) LiveServerStep.sound run
    (LiveServer.boot_sound now entries snapshot)
  obtain ⟨hstarted, hseed⟩ : x.startedAt = now ∧ x.disk.seed = some (now, seededDisk snapshot) :=
    run_preserves (P := fun x : LiveServer => x.startedAt = now ∧ x.disk.seed = some (now, seededDisk snapshot))
      (fun step h => ⟨step.grows.startedAt.trans h.1, step.grows.seed.trans h.2⟩) run ⟨rfl, rfl⟩
  exact ⟨h.answers, h.permits, hstarted, hseed, h.disk.seeded _ hseed, h.disk.spaced⟩

def quietSession : SessionRead :=
  let zero : F64 := ((0 : Nat) : F64)
  ⟨[⟨"aa", 0, false, true⟩], 0, 0, 0, zero, zero, zero, zero⟩

/-- One query reads the activity before the engine is attached, and the handle after. -/
theorem live_answers_tell_the_past_attached :
    ∃ x : LiveServer, x.answers.length = 1 ∧ ∀ a ∈ x.answers, a.FromPast x := by
  let x₀ := LiveServer.boot 0 [⟨"t", "aa", 7, 2⟩] (some (555, 999))
  let view : LiveView := ⟨0, [⟨"t", "aa", 7, 2⟩]⟩
  have accepted : LiveServerStep x₀ _ := .accept (by decide)
  have run := (((((Relation.ReflTransGen.single accepted).tail (.ask [] [] _ rfl)).tail
    (.seeActivity [] [] _ rfl)).tail (.activate view rfl)).tail (.seeHandle [] [] _ _ rfl)).tail
    (.seeSession [] [] _ _ _ quietSession rfl)
  have whole := run.tail (.answerCached [] [] _ _ _ _ (555, 999) 4096 rfl rfl (by decide))
  exact ⟨_, rfl, (live_answers_tell_the_past whole).1⟩

end KeepAt
