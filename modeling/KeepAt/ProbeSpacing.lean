import KeepAt.QuarantineGate

namespace KeepAt

/-- Whatever of the registry a move reads the clock for, it reads this time. -/
def Move.At (t : Time) : Move → Prop
  | .action (.reconcile _ env) => env.vanished.now = t
  | .action (.evictStalled _ env) => env.now = t
  | .action (.act _ _ _ env) => env.now = t
  | .action (.bookkeep env) => env.now = t
  | .action (.enforceTrip now _ _) => now = t
  | .action _ => True
  | .probe hex _ _ _ now env => now = t ∧ (env hex).act.now = t

def Timed (_ : Watch) (m : Move) (clock : Time) : Prop := m.At clock

/-- The move is no call of a scan that fills space with a hash in its probe, and its time is a cooldown away
from the end of the calendar. -/
def Spaced (s : Settings) (x : Watch) (m : Move) (clock : Time) : Prop :=
  m.At clock ∧ clock + s.scan.quarantineCooldown ≤ maxUtc ∧
    ∀ c n seederFloor env, m = .action (.act c n seederFloor env) →
      ¬ProbeFills s x.engine c n seederFloor env

/-- An entry whose hash was added is gated for a cooldown from then on. -/
def EntrySpaced (s : Settings) (clock : Time) (entry : Option Quarantine) (log : EntryLog) : Prop :=
  ∀ t, log.addedAt = some t →
    t ≤ clock ∧ ∃ q, entry = some q ∧ t + s.scan.quarantineCooldown ≤ q.cooldownUntil

structure AdditionsSpaced (s : Settings) (x : Watch) : Prop where
  entries : ∀ hex, EntrySpaced s x.clock (x.engine.state.quarantineGet hex) (x.since hex)
  additions : ∀ a ∈ x.additions, ∀ t, a.since.addedAt = some t →
    t + s.scan.quarantineCooldown ≤ a.gatedAt

variable {s : Settings} {now : Time}

theorem le_farFuture {d : Duration} (h : d ≤ maxDurationKnob) (fits : now + d ≤ maxUtc) :
    now + d ≤ farFuture now := by
  have hdecade : maxDurationKnob ≤ 520 * week := by decide
  unfold farFuture checkedAdd
  split
  next => exact Int.add_le_add_left (Int.ofNat_le.mpr (h.trans hdecade)) now
  next => exact fits

theorem fromStd_eq {d : Duration} (h : d ≤ maxDurationKnob) : fromStd d = d := by
  have hmillis : maxDurationKnob ≤ (2 ^ 63 - 1) * 10 ^ 6 := by decide
  exact if_pos (h.trans hmillis)

theorem cooldown_le_rearmUntil (validated : s.scan.quarantineCooldown ≤ maxDurationKnob)
    (fits : now + s.scan.quarantineCooldown ≤ maxUtc) :
    now + s.scan.quarantineCooldown ≤ rearmUntil s.scan now := by
  have hfar := le_farFuture validated fits
  unfold rearmUntil
  generalize farFuture now = far at hfar ⊢
  unfold checkedAdd
  split
  next =>
    refine Int.add_le_add_left (Int.ofNat_le.mpr ?_) now
    exact (fromStd_eq validated).ge.trans (le_max_left _ _)
  next => exact hfar

theorem cooldown_le_tripEntry (validated : s.scan.quarantineCooldown ≤ maxDurationKnob)
    (fits : now + s.scan.quarantineCooldown ≤ maxUtc) (entry : Option Quarantine) (title suffix : String)
    (trip : Trip) :
    now + s.scan.quarantineCooldown ≤ (tripEntry s entry title suffix trip now).cooldownUntil := by
  have hfar := le_farFuture validated fits
  simp only [tripEntry, nextQuarantineEntry]
  split
  next => exact hfar
  next =>
    rw [fromStd_eq validated, checkedAdd, if_pos fits]
    exact le_rfl

variable {e : Engine} {hex : String} {m : Move} {entry entry' : Option Quarantine} {log : EntryLog}
  {clock : Time}

theorem EntrySpaced.kept (h : EntrySpaced s clock entry log) (later : clock ≤ now)
    (tripped : Option Time) (same : ∀ q, entry = some q → ∃ q', entry' = some q' ∧
      (q'.cooldownUntil = q.cooldownUntil ∨ now + s.scan.quarantineCooldown ≤ q'.cooldownUntil)) :
    EntrySpaced s now entry' (log.after s entry' tripped none) := by
  intro t ht
  have hold : log.addedAt = some t := by
    cases entry' with
    | none => cases ht
    | some q' => exact ht
  obtain ⟨hle, q, hq, hgap⟩ := h t hold
  obtain ⟨q', hq', hsame | hfresh⟩ := same q hq
  · exact ⟨hle.trans later, q', hq', hsame ▸ hgap⟩
  · exact ⟨hle.trans later, q', hq', (Int.add_le_add_right (hle.trans later) _).trans hfresh⟩

/-- Without an addition an entry moves its deadline at most to a cooldown from now, or goes. -/
theorem EntryChange.spaced (change : EntryChange s e hex m entry entry') (timed : m.At now)
    (validated : s.scan.quarantineCooldown ≤ maxDurationKnob)
    (fits : now + s.scan.quarantineCooldown ≤ maxUtc) (later : clock ≤ now)
    (h : EntrySpaced s clock entry log) :
    EntrySpaced s now entry' (log.after s entry' (m.trippedAt hex) none) := by
  cases change with
  | kept => exact h.kept later _ fun q hq => ⟨q, hq, Or.inl rfl⟩
  | tripped _ at_ env trip title suffix =>
    obtain rfl : at_ = now := timed
    exact h.kept later _ fun _ _ => ⟨_, rfl, Or.inr (cooldown_le_tripEntry validated fits _ _ _ _)⟩
  | rearmed q listed heldCount seederFloor at_ env lapsed =>
    obtain rfl : at_ = now := timed.1
    exact h.kept later _ fun _ _ => ⟨_, rfl, Or.inr (cooldown_le_rearmUntil validated fits)⟩
  | removed q env settled =>
    intro t ht
    cases ht

/-- A re-probe that adds its hash gates it for a cooldown, and a call of a scan adds only hashes that the
registry does not know. -/
theorem Adds.spaced {added : List String} (adds : Adds s e m added) (log : EntryLog) (hm : hex ∈ added)
    (timed : m.At now) (validated : s.scan.quarantineCooldown ≤ maxDurationKnob)
    (fits : now + s.scan.quarantineCooldown ≤ maxUtc)
    (unprobed : ∀ c n seederFloor env, m = .action (.act c n seederFloor env) →
      ¬ProbeFills s e c n seederFloor env) :
    let after := (m.apply s e).state.quarantineGet hex
    EntrySpaced s now after (log.after s after (m.trippedAt hex) m.gatedAt) := by
  intro after t ht
  cases adds with
  | nothing => cases hm
  | called c n seederFloor env gated unregistered =>
    obtain rfl := List.mem_singleton.mp hm
    have hnone := unregistered (unprobed c n seederFloor env rfl)
    have hafter : after = none := by
      have hkept : ((actOnCandidate s e c n seederFloor env).1).state.quarantineGet (hexEncode c.infoHash) =
          e.state.quarantineGet (hexEncode c.infoHash) := by
        rw [State.quarantineGet, actOnCandidate_quarantined, State.quarantineGet]
      exact hkept.trans hnone
    rw [hafter] at ht
    cases ht
  | probed key listed n seederFloor at_ env q registered gated rearmed =>
    obtain rfl := List.mem_singleton.mp hm
    obtain ⟨rfl, hact⟩ := timed
    have hafter : after = some { q with cooldownUntil := rearmUntil s.scan at_ } := rearmed
    rw [hafter] at ht ⊢
    have htime : (env hex).act.now = t := Option.some.inj ht
    obtain rfl : at_ = t := hact.symm.trans htime
    exact ⟨le_rfl, _, rfl, cooldown_le_rearmUntil validated fits⟩

theorem watchStep_spaced {x y : Watch} (validated : s.scan.quarantineCooldown ≤ maxDurationKnob)
    (step : WatchStep s (Spaced s) x y) (h : AdditionsSpaced s x) : AdditionsSpaced s y := by
  cases step with
  | move m clock later allowed permitted =>
    obtain ⟨timed, fits, unprobed⟩ := permitted
    have adds := Move.adds (s := s) allowed
    refine ⟨fun hex => ?_, fun a ha t ht => ?_⟩
    · have change := Move.entry_change (s := s) allowed hex
      by_cases hadded : hex ∈ addedHashes x.engine (m.apply s x.engine)
      · have hspaced := adds.spaced (x.since hex) hadded timed validated fits unprobed
        simpa only [Watch.after, if_pos hadded] using hspaced
      · have hspaced := change.spaced timed validated fits later (h.entries hex)
        simpa only [Watch.after, if_neg hadded] using hspaced
    · rcases Watch.mem_additions ha with hold | ⟨hadded, hgate, -, hsince⟩
      · exact h.additions a hold t ht
      · obtain ⟨-, q, hq, hgap⟩ := h.entries a.hex t (hsince ▸ ht)
        exact hgap.trans (adds.gated hadded hgate hq)
  | rehash ts hperm => exact ⟨h.entries, h.additions⟩

/-- While no scan fills space with a hash in its probe, two additions under one registry entry are a
cooldown apart. -/
theorem additions_cooldown_apart (validated : s.scan.quarantineCooldown ≤ maxDurationKnob) {e : Engine}
    {clock : Time} {y : Watch}
    (run : Relation.ReflTransGen (WatchStep s (Spaced s)) (Watch.start e clock) y) :
    ∀ a ∈ y.additions, ∀ t, a.since.addedAt = some t → t + s.scan.quarantineCooldown ≤ a.gatedAt := by
  have start : AdditionsSpaced s (Watch.start e clock) := by
    refine ⟨fun hex t ht => ?_, by simp [Watch.start]⟩
    cases ht
  exact (run_preserves (P := AdditionsSpaced s) (watchStep_spaced validated) run start).additions

namespace Reference

def downloaded : FetchEnv := ⟨some (file 97), true⟩

def actAt (now : Time) : ActEnv := { Reference.env true with now, fetch := downloaded }

def probeAt (now : Time) : Move :=
  .probe (hexEncode hashA) [hexEncode hashA] 0 0 now fun _ =>
    ⟨downloaded, fun _ _ => some ⟨1, 0, 0⟩, actAt now, true⟩

def fillAt (now : Time) : Move := .action (.act (candidate hashA 1) 0 0 (actAt now))

/-- When a torrent that came in at the first instant has stalled for too long. -/
def stalledTime : Time := 1 + settings.scan.stallEvictionTimeout

def stallAt (now : Time) : Move :=
  .action (.evictStalled [hexEncode hashA]
    ⟨now, fun _ => none, fun _ => 0, fun _ => ⟨⟨true, true, true⟩, now⟩⟩)

def probed : Watch := Watch.start (quarantined (engine [] List.nodup_nil) (hexEncode hashA) (quarantine 0 1)) 1

/-- A configuration whose cooldown is twice its stall timeout. -/
def patient : Settings :=
  { settings with
    cfg :=
      { settings.cfg with
        config := { settings.cfg.config with
          scan := { settings.cfg.config.scan with
            quarantineCooldown := 2 * settings.cfg.config.scan.stallEvictionTimeout } } } }

theorem spelled_hashA : SpelledList [hexEncode hashA] :=
  fun _ h => ⟨hashA, List.mem_singleton.mp h⟩

theorem probeAt_spaced {x : Watch} {now : Time} (h : now + settings.scan.quarantineCooldown ≤ maxUtc) :
    Spaced settings x (probeAt now) now := ⟨⟨rfl, rfl⟩, h, fun _ _ _ _ he => by cases he⟩

end Reference

open Reference in
theorem additions_cooldown_apart_two :
    let y := ((probed.after settings (probeAt 1) 1).after settings (stallAt stalledTime)
      stalledTime).after settings (probeAt stalledTime) stalledTime
    y.additions.map (fun a => (a.gatedAt, a.since.addedAt)) = [(1, none), (stalledTime, some 1)] ∧
      ∀ a ∈ y.additions, ∀ t, a.since.addedAt = some t →
        t + settings.scan.quarantineCooldown ≤ a.gatedAt := by
  intro y
  have fits : stalledTime + settings.scan.quarantineCooldown ≤ maxUtc := by decide +kernel
  have first : WatchStep settings (Spaced settings) probed (probed.after settings (probeAt 1) 1) :=
    .move probed (probeAt 1) 1 le_rfl ⟨spelled_hashA, quarantine 0 1, by decide +kernel, by decide +kernel⟩
      (probeAt_spaced (by decide +kernel))
  have second : WatchStep settings (Spaced settings) (probed.after settings (probeAt 1) 1)
      ((probed.after settings (probeAt 1) 1).after settings (stallAt stalledTime) stalledTime) :=
    .move (probed.after settings (probeAt 1) 1) (stallAt stalledTime) stalledTime
      (by decide +kernel) (by simp [stallAt, Move.Allowed])
      ⟨rfl, fits, fun _ _ _ _ he => by cases he⟩
  have third : WatchStep settings (Spaced settings)
      ((probed.after settings (probeAt 1) 1).after settings (stallAt stalledTime) stalledTime) y :=
    .move ((probed.after settings (probeAt 1) 1).after settings (stallAt stalledTime) stalledTime)
      (probeAt stalledTime) stalledTime le_rfl
      ⟨spelled_hashA, { quarantine 0 1 with cooldownUntil := rearmUntil settings.scan 1 },
        by decide +kernel, by decide +kernel⟩
      (probeAt_spaced fits)
  exact ⟨by decide +kernel, additions_cooldown_apart (by decide +kernel)
    (((Relation.ReflTransGen.single first).tail second).tail third)⟩

open Reference in
/-- Two scans add the same hash in its probe, as a stall eviction takes it out in between. -/
theorem additions_within_cooldown :
    let y := ((probed.after patient (fillAt 1) 1).after patient (stallAt stalledTime)
      stalledTime).after patient (fillAt (stalledTime + 1)) (stalledTime + 1)
    Relation.ReflTransGen (WatchStep patient Timed) probed y ∧
      patient.scan.quarantineCooldown ≤ maxDurationKnob ∧
      ∃ a ∈ y.additions, ∃ t, a.since.addedAt = some t ∧
        a.gatedAt < t + patient.scan.quarantineCooldown := by
  intro y
  have run : Relation.ReflTransGen (WatchStep patient Timed) probed y :=
    ((Relation.ReflTransGen.single (.move probed (fillAt 1) 1 le_rfl (by simp [fillAt, Move.Allowed]) rfl)).tail
      (.move _ (stallAt stalledTime) stalledTime (by decide +kernel) (by simp [stallAt, Move.Allowed]) rfl)).tail
      (.move _ (fillAt (stalledTime + 1)) (stalledTime + 1) (by decide +kernel)
        (by simp [fillAt, Move.Allowed]) rfl)
  exact ⟨run, by decide +kernel, y.additions.getLast (by decide +kernel), List.getLast_mem _, 1,
    by decide +kernel, by decide +kernel⟩

end KeepAt
