import KeepAt.AtPacing

namespace KeepAt

variable {parse : String → Option ParsedUrl} {s : Settings} {Permits : Job → Prop}
  {Redirects : String → Prop} {x y : Traffic}

/-- The caller's own grant, at that position, not after the given time. -/
def OwnGrant (grants : List (Nat × Time)) (caller k : Nat) (latest : Time) : Prop :=
  ∃ t, grants[k]? = some (caller, t) ∧ t ≤ latest

theorem OwnGrant.later {grants grants' : List (Nat × Time)} {caller k : Nat} {latest latest' : Time}
    (h : OwnGrant grants caller k latest) (hp : grants <+: grants') (hl : latest ≤ latest') :
    OwnGrant grants' caller k latest' := by
  obtain ⟨t, hk, ht⟩ := h
  obtain ⟨later, rfl⟩ := hp
  obtain ⟨hlt, -⟩ := List.getElem?_eq_some_iff.mp hk
  rw [← List.getElem?_append_left hlt] at hk
  exact ⟨t, hk, ht.trans hl⟩

theorem OwnGrant.lt {grants : List (Nat × Time)} {caller k : Nat} {latest : Time}
    (h : OwnGrant grants caller k latest) : k < grants.length := by
  obtain ⟨t, hk, -⟩ := h
  exact (List.getElem?_eq_some_iff.mp hk).1

theorem OwnGrant.owner {grants : List (Nat × Time)} {i j k : Nat} {latest latest' : Time}
    (hi : OwnGrant grants i k latest) (hj : OwnGrant grants j k latest') : i = j := by
  obtain ⟨t, hk, -⟩ := hi
  obtain ⟨u, hk', -⟩ := hj
  exact congrArg Prod.fst (Option.some.inj (hk.symm.trans hk'))

def usedGrants (sent : List SentRequest) : List Nat := sent.filterMap SentRequest.grant

def Caller.AtLimiter (c : Caller) : Prop := ∃ a, c.attempts.head? = some a ∧ a.limited = true

/-- A caller with attempts of one kind, whose grant, if it has waited for one, is its own and not used yet. -/
structure CallerSound (P : Attempt → Prop) (limiter : Gate Nat Time) (sent : List SentRequest) (i : Nat)
    (c : Caller) : Prop where
  attempts : ∀ a ∈ c.attempts, P a
  waited : c.waited = c.grant.isSome
  waits : c.waited = true → c.AtLimiter
  owned : ∀ k, c.grant = some k → OwnGrant limiter.grants i k limiter.clock
  unused : ∀ k, c.grant = some k → k ∉ usedGrants sent

/-- Every request was an attempt of that kind, or a redirect as one, with a grant if and only if the attempt was
limited. -/
structure TrafficSound (P : Attempt → Prop) (gap : Time) (x : Traffic) : Prop where
  limiter : GateSound gap x.limiter
  callers : ∀ i, CallerSound P x.limiter x.sent i (x.callers i)
  turn : ∀ i, x.limiter.holder = some i → (x.callers i).AtLimiter ∧ (x.callers i).waited = false
  used : (usedGrants x.sent).Nodup
  owned : ∀ q ∈ x.sent, ∀ k, q.grant = some k → OwnGrant x.limiter.grants q.caller k q.sentAt
  backed : ∀ q ∈ x.sent, ∃ a, P a ∧ a.request = some q.request ∧ q.grant.isSome = a.limited

variable {P : Attempt → Prop} {gap : Time} {limiter limiter' : Gate Nat Time} {sent : List SentRequest}
  {event : GateEvent Nat}

theorem GateStep.grants_prefix (step : GateStep gap limiter event limiter') :
    limiter.grants <+: limiter'.grants := by
  rcases step.grants with heq | ⟨i, -, heq⟩
  · exact heq ▸ List.prefix_refl _
  · exact heq ▸ List.prefix_append _ _

theorem CallerSound.step {i : Nat} {c : Caller} (h : CallerSound P limiter sent i c)
    (step : GateStep gap limiter event limiter') : CallerSound P limiter' sent i c :=
  ⟨h.attempts, h.waited, h.waits, fun k hk => (h.owned k hk).later step.grants_prefix step.clock_le, h.unused⟩

theorem CallerSound.fresh {i : Nat} {attempts : List Attempt} (allowed : ∀ a ∈ attempts, P a) :
    CallerSound P limiter sent i (.begin attempts) :=
  ⟨allowed, rfl, nofun, nofun, nofun⟩

theorem CallerSound.awaiting {i : Nat} {c : Caller} (h : CallerSound P limiter sent i c) (awaits : Option Nat) :
    CallerSound P limiter sent i { c with awaits } :=
  ⟨h.attempts, h.waited, h.waits, h.owned, h.unused⟩

theorem CallerSound.rest {i : Nat} {c : Caller} {sent' : List SentRequest} (h : CallerSound P limiter sent i c) :
    CallerSound P limiter sent' i c.rest :=
  .fresh fun a ha => h.attempts a (List.mem_of_mem_tail ha)

theorem TrafficSound.limiterStep (h : TrafficSound P gap x) (positive : 0 ≤ gap)
    (step : GateStep gap x.limiter event limiter)
    (turn : ∀ i, event.holderAfter x.limiter.holder = some i →
      (x.callers i).AtLimiter ∧ (x.callers i).waited = false) :
    TrafficSound P gap { x with limiter } where
  limiter := gateStep_sound positive step h.limiter
  callers := fun i => (h.callers i).step step
  turn := fun i hi => turn i (step.holder.symm.trans hi)
  used := h.used
  owned := fun q hq k hk => (h.owned q hq k hk).later step.grants_prefix le_rfl
  backed := h.backed

theorem TrafficSound.update {i : Nat} {c : Caller} (h : TrafficSound P gap x)
    (hc : CallerSound P x.limiter x.sent i c)
    (turn : x.limiter.holder = some i → c.AtLimiter ∧ c.waited = false) :
    TrafficSound P gap (x.update i c) := by
  have hcallers := x.forall_update (P := CallerSound P x.limiter x.sent) hc fun j _ => h.callers j
  have hturn := x.forall_update
    (P := fun j c => x.limiter.holder = some j → c.AtLimiter ∧ c.waited = false) turn fun j _ => h.turn j
  exact ⟨h.limiter, hcallers, hturn, h.used, h.owned, h.backed⟩

theorem TrafficSound.granted {i : Nat} (h : TrafficSound P gap x) (positive : 0 ≤ gap)
    (step : GateStep gap x.limiter (.grant i) limiter) : TrafficSound P gap (x.granted i limiter) := by
  have hpaced := h.limiterStep positive step nofun
  have hcaller := hpaced.callers i
  have hgrants : limiter.grants = x.limiter.grants ++ [(i, x.limiter.clock)] := by
    cases step with
    | grant i held => rfl
  have hfree : limiter.holder ≠ some i := by
    rw [step.holder]
    exact nofun
  refine hpaced.update ⟨hcaller.attempts, rfl, fun _ => (h.turn i step.grant_held).1, fun k hk => ?_,
    fun k hk hused => ?_⟩ fun hi => absurd hi hfree
  · obtain rfl := Option.some.inj hk
    refine ⟨x.limiter.clock, ?_, step.clock_le⟩
    rw [hgrants, List.getElem?_concat_length]
  · obtain rfl := Option.some.inj hk
    obtain ⟨q, hq, hgrant⟩ := List.mem_filterMap.mp hused
    exact absurd (h.owned q hq _ hgrant).lt (lt_irrefl _)

/-- A caller that may go on with its next attempt does not hold the limiter. -/
theorem TrafficSound.outside {i : Nat} {a : Attempt} (h : TrafficSound P gap x)
    (next : (x.callers i).attempts.head? = some a)
    (through : a.limited = true → (x.callers i).waited = true) : x.limiter.holder ≠ some i := by
  intro hi
  obtain ⟨⟨b, hb, hlimited⟩, hwaiting⟩ := h.turn i hi
  obtain rfl := Option.some.inj (next.symm.trans hb)
  rw [through hlimited] at hwaiting
  cases hwaiting

theorem CallerSound.grant_isSome {i : Nat} {c : Caller} {a : Attempt} (h : CallerSound P limiter sent i c)
    (next : c.attempts.head? = some a) (through : a.limited = true → c.waited = true) :
    c.grant.isSome = a.limited := by
  rw [← h.waited]
  cases hwaited : c.waited with
  | true =>
    obtain ⟨b, hb, hlimited⟩ := h.waits hwaited
    obtain rfl := Option.some.inj (next.symm.trans hb)
    exact hlimited.symm
  | false =>
    cases hlimited : a.limited with
    | false => rfl
    | true => exact (hwaited.symm.trans (through hlimited)).symm ▸ rfl

theorem usedGrants_concat (q : SentRequest) : usedGrants (sent ++ [q]) = usedGrants sent ++ q.grant.toList := by
  rw [usedGrants, usedGrants, List.filterMap_append]
  cases hq : q.grant <;> simp [hq]

/-- A request of one caller uses none of another caller's grants. -/
theorem CallerSound.unaffected {i j : Nat} {c d : Caller} {q : SentRequest} (h : CallerSound P limiter sent j d)
    (sender : CallerSound P limiter sent i c) (hj : j ≠ i) (own : ∀ k, q.grant = some k → c.grant = some k) :
    CallerSound P limiter (sent ++ [q]) j d := by
  refine ⟨h.attempts, h.waited, h.waits, h.owned, fun k hk hused => ?_⟩
  rw [usedGrants_concat, List.mem_append, Option.mem_toList] at hused
  rcases hused with hused | hmine
  · exact h.unused k hk hused
  · exact hj ((h.owned k hk).owner (sender.owned k (own k hmine)))

theorem CallerSound.used_nodup {i : Nat} {c : Caller} {q : SentRequest} (h : CallerSound P limiter sent i c)
    (own : ∀ k, q.grant = some k → c.grant = some k) (used : (usedGrants sent).Nodup) :
    (usedGrants (sent ++ [q])).Nodup := by
  rw [usedGrants_concat]
  cases hgrant : q.grant with
  | none => simpa using used
  | some k =>
    refine used.append (List.nodup_singleton k) fun l hl hl' => ?_
    obtain rfl := List.mem_singleton.mp hl'
    exact h.unused l (own l hgrant) hl

/-- A caller sends a request on its own grant, or on none, and goes on as `c`. -/
theorem TrafficSound.record {i : Nat} {request : HttpRequest} {grant : Option Nat} {c : Caller} {a : Attempt}
    (h : TrafficSound P gap x) (own : ∀ k, grant = some k → (x.callers i).grant = some k)
    (hc : CallerSound P x.limiter (x.sent ++ [⟨i, request, grant, x.limiter.clock⟩]) i c)
    (turn : x.limiter.holder = some i → c.AtLimiter ∧ c.waited = false) (kind : P a)
    (asked : a.request = some request) (granted : grant.isSome = a.limited) :
    TrafficSound P gap
      (Traffic.update { x with sent := x.sent ++ [⟨i, request, grant, x.limiter.clock⟩] } i c) := by
  let q : SentRequest := ⟨i, request, grant, x.limiter.clock⟩
  have hcaller := h.callers i
  have hq : ∀ q' ∈ x.sent ++ [q], q' ∈ x.sent ∨ q' = q := fun q' h' => by simpa using h'
  have hothers : ∀ j, j ≠ i → CallerSound P x.limiter (x.sent ++ [q]) j (x.callers j) :=
    fun j hj => (h.callers j).unaffected hcaller hj own
  have hcallers := x.forall_update (P := CallerSound P x.limiter (x.sent ++ [q])) hc hothers
  have hturn := x.forall_update
    (P := fun j c => x.limiter.holder = some j → c.AtLimiter ∧ c.waited = false) turn fun j _ => h.turn j
  refine ⟨h.limiter, hcallers, hturn, hcaller.used_nodup own h.used, fun q' hq' k hk => ?_, fun q' hq' => ?_⟩
  · rcases hq q' hq' with hold | rfl
    · exact h.owned q' hold k hk
    · exact hcaller.owned k (own k hk)
  · rcases hq q' hq' with hold | rfl
    · exact h.backed q' hold
    · exact ⟨a, kind, asked, granted⟩

theorem TrafficSound.send {i : Nat} {a : Attempt} {request : HttpRequest} (h : TrafficSound P gap x)
    (next : (x.callers i).attempts.head? = some a) (asked : a.request = some request)
    (through : a.limited = true → (x.callers i).waited = true) :
    TrafficSound P gap (x.send i request) := by
  have hcaller := h.callers i
  exact h.record (fun _ hk => hk) (hcaller.rest.awaiting _) (fun hi => absurd hi (h.outside next through))
    (hcaller.attempts a (List.mem_of_mem_head? next)) asked (hcaller.grant_isSome next through)

theorem TrafficSound.follow {i : Nat} {url : String} (h : TrafficSound P gap x) (kind : P (followAttempt url))
    (left : Nat) : TrafficSound P gap (x.follow i url left) := by
  have hcaller := h.callers i
  refine h.record nofun (CallerSound.awaiting ⟨hcaller.attempts, hcaller.waited, hcaller.waits, hcaller.owned,
    fun k hk hused => hcaller.unused k hk ?_⟩ _) (h.turn i) kind rfl rfl
  rw [usedGrants_concat] at hused
  simpa using hused

theorem trafficStep_sound (positive : 0 ≤ (limiterGap s.scan.rateLimitPerSecond : Time))
    (limited : limits s.scan.rateLimitPerSecond = true)
    (permits : ∀ job, Permits job → ∀ a ∈ job.attempts parse s, P a)
    (redirects : ∀ url, Redirects url → P (followAttempt url)) (step : TrafficStep parse s Permits Redirects x y)
    (h : TrafficSound P (limiterGap s.scan.rateLimitPerSecond) x) :
    TrafficSound P (limiterGap s.scan.rateLimitPerSecond) y := by
  cases step with
  | start i job free answered permitted =>
    refine h.update (.fresh (permits job permitted)) fun hi => ?_
    obtain ⟨⟨a, ha, -⟩, -⟩ := h.turn i hi
    rw [free] at ha
    cases ha
  | pace limiter step => exact h.limiterStep positive step h.turn
  | enter i a limiter next limited waiting answered step =>
    refine h.limiterStep positive step fun j hj => ?_
    obtain rfl := Option.some.inj hj
    exact ⟨⟨a, next, limited⟩, waiting⟩
  | grant i limiter on step => exact h.granted positive step
  | unlimited i limiter off step =>
    rw [limited] at off
    cases off
  | send i a request next asked through answered => exact h.send next asked through
  | follow i url left awaits redirected => exact h.follow (redirects url redirected) left
  | answered i => exact h.update ((h.callers i).awaiting none) (h.turn i)
  | skip i a next nothing through answered =>
    exact h.update (h.callers i).rest fun hi => absurd hi (h.outside next through)
  | cancel i outside => exact h.update (.fresh nofun) fun hi => absurd hi outside
  | cancelInside i limiter step =>
    have hfree : limiter.holder ≠ some i := by
      rw [step.holder]
      exact nofun
    exact (h.limiterStep positive step nofun).update (.fresh nofun) fun hi => absurd hi hfree

theorem Traffic.Booted.sound (boot : x.Booted) : TrafficSound P gap x where
  limiter := gateSound_of_fresh boot.ungranted boot.free
  callers := fun i => by
    rw [boot.idle i]
    exact .fresh nofun
  turn := fun i hi => by
    rw [Gate.holder, boot.free] at hi
    cases hi
  used := by
    rw [boot.quiet]
    exact List.nodup_nil
  owned := by
    rw [boot.quiet]
    exact nofun
  backed := by
    rw [boot.quiet]
    exact nofun

end KeepAt
