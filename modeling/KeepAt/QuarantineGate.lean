import KeepAt.TripAccounting

namespace KeepAt

/-- An entry that a trip escalated stays escalated, and gated until the far future of the last such trip. -/
def EntryGated (s : Settings) (entry : Option Quarantine) (log : EntryLog) : Prop :=
  ∀ t, log.escalatedAt = some t →
    ∃ q, entry = some q ∧ Escalated s q ∧ farFuture t ≤ q.cooldownUntil

structure Gated (s : Settings) (x : Watch) : Prop where
  entries : ∀ hex, EntryGated s (x.engine.state.quarantineGet hex) (x.since hex)
  additions : ∀ a ∈ x.additions, ∀ t, a.since.escalatedAt = some t → farFuture t ≤ a.gatedAt

variable {s : Settings}

theorem farFuture_le_maxUtc (t : Time) : farFuture t ≤ maxUtc := by
  unfold farFuture checkedAdd
  split
  next h => exact h
  next => exact le_rfl

/-- A re-arm moves no deadline that has passed back before its own time. -/
theorem le_rearmUntil {scan : ScanConfig} {t now : Time} (passed : t ≤ now) (representable : t ≤ maxUtc) :
    t ≤ rearmUntil scan now := by
  have hlater : ∀ d : Duration, t ≤ now + d := fun d =>
    passed.trans (Int.le_add_of_nonneg_right (Int.natCast_nonneg d))
  unfold rearmUntil farFuture checkedAdd
  split
  next => exact hlater _
  next =>
    split
    next => exact hlater _
    next => exact representable

theorem EntryChange.gated {e : Engine} {hex : String} {m : Move} {entry entry' : Option Quarantine}
    {log : EntryLog} {added : Option Time} (change : EntryChange s e hex m entry entry')
    (room : ∀ q, (m.trippedAt hex).isSome → entry = some q → q.attempts < u32Max)
    (h : EntryGated s entry log) :
    EntryGated s entry' (log.after s entry' (m.trippedAt hex) added) := by
  intro t ht
  cases change with
  | kept _ _ untripped =>
    cases entry with
    | none => cases ht
    | some q =>
      simp only [untripped, EntryLog.after, Option.none_or, ite_self] at ht
      exact h t ht
  | tripped _ now env trip title suffix =>
    have htripped : (Move.action (.enforceTrip now env (hex, trip))).trippedAt hex = some now := if_pos rfl
    rw [htripped] at room ht
    by_cases hesc : Escalated s (tripEntry s entry title suffix trip now)
    · simp only [EntryLog.after, if_pos hesc, Option.some_or] at ht
      obtain rfl := Option.some.inj ht
      refine ⟨_, rfl, hesc, ?_⟩
      have huntil : (tripEntry s entry title suffix trip now).cooldownUntil = farFuture now := if_pos hesc
      exact huntil.ge
    · simp only [EntryLog.after, if_neg hesc] at ht
      obtain ⟨q, rfl, ⟨hpos, hlimit⟩, -⟩ := h t ht
      have hroom := room q rfl rfl
      simp only [u32Max] at hroom
      have hattempts : (tripEntry s (some q) title suffix trip now).attempts = (q.attempts + 1) % 2 ^ 32 := rfl
      exact absurd ⟨hpos, by omega⟩ hesc
  | rearmed q listed heldCount seederFloor now env lapsed =>
    have hsame : log.escalatedAt = some t := by
      simp only [Move.trippedAt, EntryLog.after, Option.none_or, ite_self] at ht
      exact ht
    obtain ⟨q', hq', hesc, hfar⟩ := h t hsame
    obtain rfl := Option.some.inj hq'
    exact ⟨_, rfl, hesc, le_rearmUntil (hfar.trans lapsed) (farFuture_le_maxUtc t)⟩
  | removed q env settled => cases ht

theorem watchStep_gated {x y : Watch} (step : WatchStep s KeepsCount x y) (h : Gated s x) : Gated s y := by
  cases step with
  | move m clock later allowed permitted =>
    refine ⟨fun hex => (Move.entry_change allowed hex).gated (permitted hex) (h.entries hex), ?_⟩
    intro a ha t ht
    rcases Watch.mem_additions ha with hold | ⟨hadded, hgate, -, hsince⟩
    · exact h.additions a hold t ht
    · obtain ⟨q, hq, -, hfar⟩ := h.entries a.hex t (hsince ▸ ht)
      exact hfar.trans ((Move.adds allowed).gated hadded hgate hq)
  | rehash ts hperm => exact ⟨h.entries, h.additions⟩

/-- No addition is made while the entry of its hash lies in its cooldown at the time of the gate. While no
trip meets a full count, none is made before the far future of a trip that took the attempts over the limit,
as long as the entry persists. -/
theorem additions_pass_gate (e : Engine) (clock : Time) :
    (∀ y, Relation.ReflTransGen (WatchStep s AnyMove) (Watch.start e clock) y →
      ∀ a ∈ y.additions, ∀ q, a.entry = some q → q.cooldownUntil ≤ a.gatedAt) ∧
    ∀ y, Relation.ReflTransGen (WatchStep s KeepsCount) (Watch.start e clock) y →
      ∀ a ∈ y.additions, ∀ t, a.since.escalatedAt = some t → farFuture t ≤ a.gatedAt := by
  constructor
  · intro y run
    refine run_preserves (P := fun x => ∀ a ∈ x.additions, ∀ q, a.entry = some q → q.cooldownUntil ≤ a.gatedAt)
      ?_ run (by simp [Watch.start])
    intro x y step h
    cases step with
    | move m clock later allowed permitted =>
      intro a ha q hq
      rcases Watch.mem_additions ha with hold | ⟨hadded, hgate, hentry, -⟩
      · exact h a hold q hq
      · exact (Move.adds allowed).gated hadded hgate (hentry ▸ hq)
    | rehash ts hperm => exact h
  · intro y run
    have start : Gated s (Watch.start e clock) := by
      refine ⟨fun hex t ht => ?_, by simp [Watch.start]⟩
      cases ht
    exact (run_preserves (P := Gated s) watchStep_gated run start).additions

open Reference in
theorem additions_pass_gate_one :
    let e := quarantined (engine [] List.nodup_nil) (hexEncode hashA) (quarantine 0 1)
    let y := (Watch.start e 1).after settings (.action (.act (candidate hashA 1) 0 0 (Reference.env true))) 1
    y.additions = [⟨hexEncode hashA, 1, some (quarantine 0 1), .fresh⟩] ∧
      ∀ a ∈ y.additions, ∀ q, a.entry = some q → q.cooldownUntil ≤ a.gatedAt := by
  intro e y
  have run : Relation.ReflTransGen (WatchStep settings AnyMove) (Watch.start e 1) y :=
    .single (.move _ _ 1 le_rfl (by simp [Move.Allowed]) trivial)
  exact ⟨by decide +kernel, (additions_pass_gate e 1).1 y run⟩

namespace Reference

/-- When a cooldown from the start of the clock is over. -/
def cooldownEnd : Time := (settings.scan.quarantineCooldown : Int)

def ghostAct : ActEnv := { Reference.env true with now := cooldownEnd }

/-- The deadline of a wrapped count is that of a first trip. -/
theorem ghostEntry_cooldown {n : Nat} (tripped : n ≠ 0) (h : n % 2 ^ 32 = 0) :
    ∃ q, ghostEntry n = some q ∧ q.cooldownUntil = cooldownEnd := by
  obtain ⟨n, rfl⟩ := Nat.exists_eq_succ_of_ne_zero tripped
  refine ⟨_, rfl, ?_⟩
  have hattempts := ghostEntry_attempts n
  have hlimit : ¬(retryOnce.scan.quarantineMaxRetries > 0 ∧
      (((ghostEntry n).map Quarantine.attempts).getD 0 + 1) % 2 ^ 32 > retryOnce.scan.quarantineMaxRetries) := by
    rw [hattempts, Nat.mod_add_mod, ← Nat.succ_eq_add_one, h]
    simp
  simp only [tripEntry, nextQuarantineEntry, if_neg hlimit]
  decide +kernel

theorem ghostLog_escalated {n : Nat} (h : 2 ≤ n) : (ghostLog n).escalatedAt = some 0 := by
  obtain ⟨n, rfl⟩ := Nat.exists_eq_add_of_le' h
  clear h
  induction n with
  | zero => decide +kernel
  | succ n ih =>
    have hnext : (ghostLog (n + 3)).escalatedAt =
        if Escalated retryOnce (tripEntry retryOnce (ghostEntry (n + 2))
          (((ghostEntry (n + 2)).map Quarantine.title).getD ("untracked " ++ hexEncode hashA))
          ", untracked ghost" ghostTrip 0) then some 0 else (ghostLog (n + 2)).escalatedAt := rfl
    rw [hnext, ih, ite_self]

theorem ghost_fills {q : Quarantine} (h : q.cooldownUntil = cooldownEnd) :
    ProbeFills retryOnce (ghost (some q) .empty) (candidate hashA 1) 0 0 ghostAct := by
  have hgate : (ghost (some q) .empty).quarantineGate (hexEncode hashA) cooldownEnd = (none, true) := by
    simp only [Engine.quarantineGate, ghost_get, h, ge_iff_le, le_refl, if_true]
  have hread : (fetchMetadata retryOnce (engine [] List.nodup_nil).torrentCache (hexEncode hashA)
      ghostAct.fetch).2 = some (metadata hashA "a") := by decide +kernel
  have hfills : Fills retryOnce (fetched retryOnce (ghost none .empty) (candidate hashA 1) ghostAct)
      (candidate hashA 1) (metadata hashA "a") 0 0 (evaluationRoll true ghostAct.roll) ghostAct :=
    ⟨by decide +kernel, by decide +kernel, rfl, by decide +kernel⟩
  exact ⟨metadata hashA "a", ⟨hgate, hread, rfl⟩, hfills⟩

end Reference

open Reference in
/-- Escalated until the far future, a hash is added as soon as its count has wrapped. -/
theorem additions_miss_far_future :
    ∃ y, Relation.ReflTransGen (WatchStep retryOnce AnyMove) (Watch.start (ghost none .empty) 0) y ∧
      ∃ a ∈ y.additions, ∃ t, a.since.escalatedAt = some t ∧ a.gatedAt < farFuture t := by
  obtain ⟨x, run, hx⟩ := ghost_run (2 ^ 32)
  obtain ⟨q, hq, huntil⟩ := ghostEntry_cooldown (n := 2 ^ 32) (by decide) (Nat.mod_self _)
  have hengine : x.engine = ghost (some q) .empty := hx.engine.trans (congrArg (ghost · .empty) hq)
  let m : Move := .action (.act (candidate hashA 1) 0 0 ghostAct)
  have hadded : addedHashes x.engine (m.apply retryOnce x.engine) = [hexEncode hashA] := by
    rw [hengine]
    exact act_adds_of_fills (ghost_fills huntil)
  have hearly : cooldownEnd < farFuture 0 := by decide +kernel
  have hlater : x.clock ≤ cooldownEnd := by
    rw [hx.clock]
    decide +kernel
  refine ⟨x.after retryOnce m cooldownEnd, run.tail (.move x m _ hlater (by simp [m, Move.Allowed]) trivial),
    ⟨hexEncode hashA, cooldownEnd, x.engine.state.quarantineGet (hexEncode hashA), ghostLog (2 ^ 32)⟩,
    ?_, 0, ghostLog_escalated (by decide), hearly⟩
  refine List.mem_append_right _ ?_
  rw [hadded, ← hx.since]
  exact List.mem_singleton_self _

end KeepAt
