import KeepAt.AtGrants
import KeepAt.Reference
import KeepAt.Runs

namespace KeepAt

variable {parse : String → Option ParsedUrl} {s : Settings} {Permits : Job → Prop}
  {Redirects : String → Prop} {P : Attempt → Prop} {x y : Traffic}

/-- Every request to Academic Torrents went out on a grant of its own, and grants are at least `1 / r`
seconds apart. -/
structure Traffic.Capped (parse : String → Option ParsedUrl) (r : ℚ) (x : Traffic) : Prop where
  granted : ∀ q ∈ x.sent, q.request.toAt parse = true →
    ∃ k, q.grant = some k ∧ OwnGrant x.limiter.grants q.caller k q.sentAt
  once : (x.sent.filterMap SentRequest.grant).Nodup
  spaced : x.limiter.grants.Pairwise fun a b => 1 / r ≤ ((b.2 - a.2 : Int) : ℚ) / 10 ^ 9

theorem spaced_of_gap {r : ℚ} {gap : Time} (whole : 1 / r ≤ (gap : ℚ) / 10 ^ 9) {t u : Time} (h : t + gap ≤ u) :
    1 / r ≤ ((u - t : Int) : ℚ) / 10 ^ 9 := by
  have hgap : gap ≤ u - t := le_sub_iff_add_le'.mpr h
  have hcast : (gap : ℚ) ≤ ((u - t : Int) : ℚ) := Int.cast_le.mpr hgap
  refine whole.trans ?_
  gcongr

/-- The cap holds of a run exactly as long as nothing has asked for the catalog and no redirect has been followed to
Academic Torrents. -/
theorem capped_iff {r : ℚ} {gap : Time} (whole : 1 / r ≤ (gap : ℚ) / 10 ^ 9)
    (h : TrafficSound (fun a => a.Paced parse ∨ a = catalogAttempt ∨ ∃ url, a = followAttempt url) gap x) :
    x.Capped parse r ↔ ∀ q ∈ x.sent, ¬q.request.Ungranted parse := by
  constructor
  · intro hcapped q hq hungranted
    obtain ⟨a, hkind, hrequest, hgrant⟩ := h.backed q hq
    have hunlimited : a.limited = false := by
      rcases hkind with hpaced | rfl | ⟨url, rfl⟩
      · exact absurd hungranted (hpaced.other _ hrequest)
      · rfl
      · rfl
    obtain ⟨k, hk, -⟩ := hcapped.granted q hq hungranted.toAt
    rw [hk, hunlimited] at hgrant
    cases hgrant
  · intro hother
    refine ⟨fun q hq hat => ?_, h.used, h.limiter.spaced.imp (spaced_of_gap whole)⟩
    obtain ⟨a, hkind, hrequest, hgrant⟩ := h.backed q hq
    have hgranted := hother q hq
    have hlimited : a.limited = true := by
      rcases hkind with hpaced | rfl | ⟨url, rfl⟩
      · exact hpaced.limited q.request hrequest hat
      · rw [← Option.some.inj hrequest] at hgranted
        exact absurd trivial hgranted
      · rw [← Option.some.inj hrequest] at hgranted hat
        exact absurd hat hgranted
    obtain ⟨k, hk⟩ := Option.isSome_iff_exists.mp (hgrant.trans hlimited)
    exact ⟨k, hk, h.owned q hq k hk⟩

theorem representable_zero : Representable 0 := ⟨by norm_num, 0, 0, by norm_num⟩

theorem limits_of_pos {r : ℚ} {hr : Representable r} (positive : 0 < r) : limits (.fin r hr) = true := by
  have hzero : ((0 : Nat) : F64) = .fin 0 representable_zero := F64.ofRat_eq_fin representable_zero
  have hpos : ¬F64.fin r hr ≤ ((0 : Nat) : F64) := by
    rw [hzero, F64.fin_le_fin]
    exact not_le_of_gt positive
  simp [limits, hpos]

theorem TrafficSound.mono {P Q : Attempt → Prop} {gap : Time} (h : TrafficSound P gap x)
    (kind : ∀ a, P a → Q a) : TrafficSound Q gap x where
  limiter := h.limiter
  callers := fun i =>
    have hcaller := h.callers i
    ⟨fun a ha => kind a (hcaller.attempts a ha), hcaller.waited, hcaller.waits, hcaller.owned, hcaller.unused⟩
  turn := h.turn
  used := h.used
  owned := h.owned
  backed := fun q hq =>
    have ⟨a, ha, hrest⟩ := h.backed q hq
    ⟨a, kind a ha, hrest⟩

theorem trafficRun_sound {r : ℚ} {hr : Representable r} (rate : s.scan.rateLimitPerSecond = .fin r hr)
    (positive : 0 < r) (boot : x.Booted)
    (permits : ∀ job, Permits job → ∀ a ∈ job.attempts parse s, P a)
    (redirects : ∀ url, Redirects url → P (followAttempt url))
    (run : Relation.ReflTransGen (TrafficStep parse s Permits Redirects) x y) :
    TrafficSound P (limiterGap s.scan.rateLimitPerSecond) y := by
  have hgap : 0 ≤ (limiterGap s.scan.rateLimitPerSecond : Time) := Int.natCast_nonneg _
  have hlimits : limits s.scan.rateLimitPerSecond = true := by
    rw [rate]
    exact limits_of_pos positive
  exact run_preserves (P := TrafficSound P (limiterGap s.scan.rateLimitPerSecond))
    (trafficStep_sound hgap hlimits permits redirects) run boot.sound

/-- In a run whose catalog loads are all served from the cache and whose answers never redirect to Academic Torrents,
the cap holds, at a rate whose gap is not below `1 / r` once rounded to nanoseconds. -/
theorem at_requests_capped {r : ℚ} {hr : Representable r} (rate : s.scan.rateLimitPerSecond = .fin r hr)
    (positive : 0 < r) (whole : 1 / r ≤ (limiterGap s.scan.rateLimitPerSecond : ℚ) / 10 ^ 9) (boot : x.Booted)
    (run : Relation.ReflTransGen
      (TrafficStep parse s (Job.CatalogCached s) fun url => isAtTrackerUrl parse url = false) x y) :
    y.Capped parse r := by
  have hsound : TrafficSound (Attempt.Paced parse) (limiterGap s.scan.rateLimitPerSecond) y :=
    trafficRun_sound rate positive boot
      (fun job cached a ha => (job_paced ha).resolve_right fun h => h.2 cached)
      (fun _ => followAttempt_paced) run
  refine (capped_iff ?_ (hsound.mono fun _ => Or.inl)).mpr fun q hq hungranted => ?_
  · rw [Int.cast_natCast]
    exact whole
  · obtain ⟨a, hpaced, hrequest, -⟩ := hsound.backed q hq
    exact hpaced.other _ hrequest hungranted

namespace Reference

def traffic : Traffic := ⟨⟨0, 0, none, []⟩, fun _ => .idle, []⟩

theorem traffic_booted : traffic.Booted := ⟨rfl, rfl, fun _ => rfl, rfl⟩

theorem representable_half : Representable (5 / 10) := by
  have hlt : (5 / 10 : ℚ) < 2 ^ 1024 := lt_of_lt_of_le (by norm_num) (one_le_pow₀ (by norm_num) : (1 : ℚ) ≤ _)
  refine ⟨?_, 1, -1, by norm_num⟩
  rw [abs_of_pos (by norm_num)]
  exact hlt

theorem rate_eq : settings.scan.rateLimitPerSecond = .fin (5 / 10) representable_half :=
  F64.ofRat_eq_fin representable_half

theorem limiterGap_eq : limiterGap settings.scan.rateLimitPerSecond = 2 * 10 ^ 9 := by decide +kernel

/-- No string is an URL. -/
def noUrl (_ : String) : Option ParsedUrl := none

def reread (hash : InfoHash) : Job := .rereadCandidate (hexEncode hash) .empty

end Reference

open Reference in
/-- Two tasks download a `.torrent` each. The first answer redirects elsewhere, and the second task sleeps until the
limiter lets it. -/
theorem at_requests_capped_two :
    ∃ y, Relation.ReflTransGen (TrafficStep noUrl settings (Job.CatalogCached settings)
        fun url => isAtTrackerUrl noUrl url = false) traffic y ∧
      y.sent.map (fun q => (q.caller, q.request, q.sentAt)) =
        [(0, .torrent (hexEncode hashA), 0), (0, .redirected "https://mirror/a", 0),
          (1, .torrent (hexEncode hashB), 2 * 10 ^ 9 + 1)] ∧
      y.Capped noUrl (5 / 10) := by
  let gap : Time := limiterGap settings.scan.rateLimitPerSecond
  let l₁ : Gate Nat Time := ⟨0, 0, some (0, .entered), []⟩
  let l₂ : Gate Nat Time := ⟨0, 0, some (0, .ready), []⟩
  let l₃ : Gate Nat Time := ⟨0, 0 + gap, none, [(0, 0)]⟩
  let l₄ : Gate Nat Time := ⟨0, 0 + gap, some (1, .entered), [(0, 0)]⟩
  let l₅ : Gate Nat Time := ⟨1, 0 + gap, some (1, .sleeping (1 + (0 + gap - 0))), [(0, 0)]⟩
  let l₆ : Gate Nat Time := ⟨2 * 10 ^ 9 + 1, 0 + gap, some (1, .sleeping (1 + (0 + gap - 0))), [(0, 0)]⟩
  let l₇ : Gate Nat Time := ⟨2 * 10 ^ 9 + 1, 0 + gap, some (1, .ready), [(0, 0)]⟩
  let l₈ : Gate Nat Time := ⟨2 * 10 ^ 9 + 1, 2 * 10 ^ 9 + 1 + gap, none, [(0, 0), (1, 2 * 10 ^ 9 + 1)]⟩
  let first : Attempt := ⟨true, some (.torrent (hexEncode hashA))⟩
  let second : Attempt := ⟨true, some (.torrent (hexEncode hashB))⟩
  let x₁ := traffic.update 0 (.begin ((reread hashA).attempts noUrl settings))
  let x₂ := x₁.update 1 (.begin ((reread hashB).attempts noUrl settings))
  let x₃ : Traffic := { x₂ with limiter := l₁ }
  let x₄ : Traffic := { x₃ with limiter := l₂ }
  let x₅ := x₄.granted 0 l₃
  let x₆ := x₅.send 0 (.torrent (hexEncode hashA))
  let xf := x₆.follow 0 "https://mirror/a" 9
  let x₇ : Traffic := { xf with limiter := l₄ }
  let x₈ : Traffic := { x₇ with limiter := l₅ }
  let x₉ : Traffic := { x₈ with limiter := l₆ }
  let xa : Traffic := { x₉ with limiter := l₇ }
  let xb := xa.granted 1 l₈
  let y := xb.send 1 (.torrent (hexEncode hashB))
  let Step := TrafficStep noUrl settings (Job.CatalogCached settings) fun url => isAtTrackerUrl noUrl url = false
  have startsA : Step traffic x₁ := .start 0 (reread hashA) rfl rfl trivial
  have startsB : Step x₁ x₂ := .start 1 (reread hashB) rfl rfl trivial
  have entersA : Step x₂ x₃ := .enter 0 first l₁ (by decide +kernel) rfl rfl rfl (.enter 0 rfl)
  have passesA : Step x₃ x₄ := .pace l₂ (.pass 0 rfl le_rfl)
  have grantsA : Step x₄ x₅ := .grant 0 l₃ (by decide +kernel) (.grant 0 rfl)
  have sendsA : Step x₅ x₆ := .send 0 first _ (by decide +kernel) rfl (fun _ => rfl) rfl
  have follows : Step x₆ xf := .follow 0 _ 9 rfl rfl
  have entersB : Step xf x₇ := .enter 1 second l₄ (by decide +kernel) rfl rfl rfl (.enter 1 rfl)
  have sleepsB : Step x₇ x₈ := .pace l₅ (.sleep 1 1 rfl (by decide +kernel) (by decide))
  have waits : Step x₈ x₉ := .pace l₆ (.elapse (2 * 10 ^ 9 + 1) (by decide +kernel))
  have wakesB : Step x₉ xa := .pace l₇ (.wake 1 _ rfl (by decide +kernel))
  have grantsB : Step xa xb := .grant 1 l₈ (by decide +kernel) (.grant 1 rfl)
  have sendsB : Step xb y := .send 1 second _ (by decide +kernel) rfl (fun _ => rfl) rfl
  have run : Relation.ReflTransGen Step traffic y :=
    ((((((((((((Relation.ReflTransGen.single startsA).tail startsB).tail entersA).tail passesA).tail grantsA).tail
      sendsA).tail follows).tail entersB).tail sleepsB).tail waits).tail wakesB).tail grantsB).tail sendsB
  refine ⟨y, run, by decide +kernel, at_requests_capped rate_eq (by norm_num) ?_ traffic_booted run⟩
  rw [limiterGap_eq]
  norm_num

open Reference in
/-- A daemon with no catalog yet, at the default rate. -/
theorem catalog_request_ungranted :
    ∃ y, Relation.ReflTransGen (TrafficStep noUrl settings (fun _ => True) fun _ => True) traffic y ∧
      y.sent = [⟨0, .catalog, none, 0⟩] ∧ y.limiter.grants = [] ∧ ¬y.Capped noUrl (5 / 10) := by
  let job : Job := .loadCatalog ⟨none, none⟩
  let x := traffic.update 0 (.begin (job.attempts noUrl settings))
  let y := x.send 0 .catalog
  let Step := TrafficStep noUrl settings (fun _ => True) fun _ => True
  have starts : Step traffic x := .start 0 job rfl rfl trivial
  have sends : Step x y := .send 0 catalogAttempt .catalog rfl rfl nofun rfl
  have hsent : y.sent = [⟨0, .catalog, none, 0⟩] := rfl
  refine ⟨y, (Relation.ReflTransGen.single starts).tail sends, hsent, rfl, fun hcapped => ?_⟩
  obtain ⟨k, hk, -⟩ := hcapped.granted _ (hsent ▸ List.mem_singleton_self _) rfl
  cases hk

end KeepAt
