import KeepAt.PlacementCases
import KeepAt.Reference

namespace KeepAt

def systemRamFractionHardCap : F64 := .ofRat (8 / 10)

/-- The budget, the hard cap and the torrent count that a measured total, 0 when there is none, and
a configured maximum, 0 when it is unset, give. -/
def maxTorrentsForBudget (systemTotal configuredMaxRam : Nat) : Nat × Nat × Nat :=
  if systemTotal = 0 then
    (configuredMaxRam, 0,
      if configuredMaxRam = 0 then u64Max
      else configuredMaxRam / max (typicalTorrentRam configuredMaxRam) 1)
  else
    let hardCap := ((systemTotal : F64) * systemRamFractionHardCap).toU64
    let budget := if configuredMaxRam > 0 then min configuredMaxRam hardCap else hardCap
    (budget, hardCap, budget / max (typicalTorrentRam budget) 1)

/-- The settings carry the figures computed at startup. -/
def Settings.PricedFor (s : Settings) (systemTotal : Nat) : Prop :=
  s.ramBudget = (maxTorrentsForBudget systemTotal s.cfg.config.maxRam).1 ∧
    s.maxTorrents = (maxTorrentsForBudget systemTotal s.cfg.config.maxRam).2.2

theorem maxTorrentsForBudget_unmeasured : maxTorrentsForBudget 0 0 = (0, 0, u64Max) := rfl

theorem maxTorrentsForBudget_le_hardCap {systemTotal configuredMaxRam : Nat} (h : systemTotal ≠ 0) :
    (maxTorrentsForBudget systemTotal configuredMaxRam).1 ≤
      (maxTorrentsForBudget systemTotal configuredMaxRam).2.1 := by
  unfold maxTorrentsForBudget
  rw [if_neg h]
  dsimp only
  split
  next => exact min_le_right _ _
  next => exact le_rfl

variable {s : Settings} {e : Engine} {c : Candidate} {md : TorrentMeta} {n seederFloor : Nat}
  {env : ActEnv}

/-- The count check and the headroom check of the free-space path. -/
def FillChecksPass (s : Settings) (e : Engine) (c : Candidate) (n : Nat) : Prop :=
  n < s.maxTorrents ∧ torrentRam c.pieceCount s.peerLimit ≤ e.ramHeadroomBytes s

/-- What a fill asks for besides the two checks: readable metadata past the descriptor guard, a
location with room, and an add that succeeds. -/
structure FillReady (s : Settings) (e : Engine) (c : Candidate) (seederFloor : Nat) (env : ActEnv)
    (probe : Bool) (md : TorrentMeta) : Prop where
  reached : ActReaches s e c env probe md
  room : ∃ l ∈ s.storage, sizeNeeded md.totalLength ≤ e.freeBytes env.deviceFree l
  succeeds : AddSucceeds s (fetched s e c env) { c with pieceCount := md.pieceCount } md md.totalLength []
    seederFloor (evaluationRoll probe env.roll) env.fill

theorem ramHeadroomBytes_le_budget (s : Settings) (e : Engine) : e.ramHeadroomBytes s ≤ s.ramBudget :=
  Nat.sub_le _ _

theorem fillChecksPass_budget_pos (h : FillChecksPass s e c n) : 0 < s.ramBudget :=
  (torrentRam_pos _ _).trans_le (h.2.trans (ramHeadroomBytes_le_budget s e))

/-- With the total unmeasurable and no maximum configured, the count check passes every count below
the largest one, but the zero budget leaves no headroom: no fill is ever made, and what a call places it
places over held torrents. -/
theorem unmeasured_ram_refuses_fill (priced : s.PricedFor 0) (unset : s.cfg.config.maxRam = 0)
    (e : Engine) (c : Candidate) (n seederFloor : Nat) (env : ActEnv) :
    (n < u64Max → n < s.maxTorrents) ∧ ¬FillChecksPass s e c n ∧
      (∀ probe md loc, ¬FillPlaced s (fetched s e c env) { c with pieceCount := md.pieceCount } md n
        seederFloor (evaluationRoll probe env.roll) env (actOnCandidate s e c n seederFloor env) loc) ∧
      (e.state.torrents.values = [] →
        (actOnCandidate s e c n seederFloor env).1.state.torrents = e.state.torrents) := by
  obtain ⟨hbudget, hmax⟩ := priced
  rw [unset, maxTorrentsForBudget_unmeasured] at hbudget hmax
  dsimp only at hbudget hmax
  have hrefused : ∀ e' c', ¬FillChecksPass s e' c' n := fun e' c' h => by
    have := fillChecksPass_budget_pos h
    omega
  have hnofill : ∀ probe md loc, ¬FillPlaced s (fetched s e c env) { c with pieceCount := md.pieceCount }
      md n seederFloor (evaluationRoll probe env.roll) env (actOnCandidate s e c n seederFloor env) loc :=
    fun probe md loc h => hrefused _ _ ⟨h.belowCap, h.fitsRam⟩
  refine ⟨fun h => hmax ▸ h, hrefused e c, hnofill, fun hempty => ?_⟩
  rcases actOnCandidate_cases s e c n seederFloor env with
    ⟨he | he, -⟩ | ⟨probe, md, -, ⟨loc, h⟩ | ⟨location, ds, h⟩⟩
  · rw [he]
  · rw [he]
    rfl
  · exact absurd h (hnofill probe md loc)
  · obtain ⟨_, _, hswap, -⟩ := h.swap
    obtain ⟨hheld, -, hne, -⟩ := displaceableAt_spec hswap.selected
    obtain ⟨d, hd⟩ := List.exists_mem_of_ne_nil ds hne
    have hmem : d ∈ e.state.torrents.values := (hheld d hd).1
    rw [hempty] at hmem
    cases hmem

namespace Reference

/-- What startup builds on a host whose RAM cannot be measured. -/
def unmeasured : Settings :=
  { settings with maxTorrents := u64Max, ramBudget := 0, ramBudget_le := Nat.zero_le _ }

theorem unmeasured_priced : unmeasured.PricedFor 0 := ⟨rfl, rfl⟩

end Reference

theorem unmeasured_ram_refuses_fill_reference :
    ¬FillChecksPass Reference.unmeasured (Reference.engine [] List.nodup_nil)
      (Reference.candidate Reference.hashA 1) 0 :=
  (unmeasured_ram_refuses_fill Reference.unmeasured_priced rfl _ _ 0 0 (Reference.env true)).2.1

/-- An empty node with 200 MiB free and a ready candidate of 100 MiB places nothing. -/
theorem unmeasured_ram_holds_nothing :
    let e := Reference.engine [] List.nodup_nil
    let c := Reference.candidate Reference.hashA 1
    Reference.unmeasured.PricedFor 0 ∧ Reference.unmeasured.cfg.config.maxRam = 0 ∧
      FillReady Reference.unmeasured e c 0 (Reference.env true) false (Reference.metadata Reference.hashA "a") ∧
      (actOnCandidate Reference.unmeasured e c 0 0 (Reference.env true)).1.state.torrents.values = [] :=
  ⟨Reference.unmeasured_priced, rfl,
    ⟨⟨by decide +kernel, by decide +kernel, by decide⟩, by decide +kernel,
      by unfold AddSucceeds; decide +kernel⟩, by decide +kernel⟩

end KeepAt
