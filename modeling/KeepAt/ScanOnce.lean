import KeepAt.AdmissionIntegrity
import KeepAt.HeldCount

namespace KeepAt

variable {s : Settings} {e : Engine} {seederFloor : Nat} {Reads : String → TorrentMeta → Prop}

/-- Every hash a scan has added is one it has acted on, and none was added twice. -/
structure AddedOnce (x : ScanState) : Prop where
  acted : ∀ hex ∈ x.admitted.map Prod.fst, hex ∈ x.acted
  once : (x.admitted.map Prod.fst).Nodup

/-- A step adds nothing, or the one candidate it is the first to act on. -/
theorem ScanStep.admitted_cases {x y : ScanState} (step : ScanStep s seederFloor Reads x y) :
    (y.admitted = x.admitted ∧ x.acted ⊆ y.acted) ∨ ∃ hex bytes, hex ∉ x.acted ∧
      y.admitted = x.admitted ++ [(hex, bytes)] ∧ y.acted = hex :: x.acted := by
  cases step with
  | evaluate item env pending reads => exact Or.inl ⟨rfl, List.Subset.refl _⟩
  | receive ev rest idle open_ arrived => exact Or.inl ⟨rfl, List.Subset.refl _⟩
  | act c rest env next reads =>
    by_cases hm : hexEncode c.infoHash ∈ x.acted
    · simp only [ScanState.act, if_pos hm]
      exact Or.inl ⟨trivial, List.Subset.refl _⟩
    · rcases actOnCandidate_admitted s x.engine c x.heldCount seederFloor env with
        ⟨-, hh⟩ | ⟨md, location, place, displaced, hadm⟩
      · refine Or.inl ⟨?_, ?_⟩ <;> simp only [ScanState.act, if_neg hm]
        · simp only [hh, List.drop_length, List.filterMap_nil, List.map_nil, List.append_nil]
        · exact List.subset_cons_self _ _
      · refine Or.inr ⟨hexEncode c.infoHash, bytesHash s (fetched s x.engine c env).torrentCache
          (hexEncode c.infoHash), hm, ?_, ?_⟩ <;> simp only [ScanState.act, if_neg hm]
        simp only [hadm.addedHash, List.map_cons, List.map_nil]
  | rehash ts h => exact Or.inl ⟨rfl, List.Subset.refl _⟩
  | finish idle open_ walked drained => exact Or.inl ⟨rfl, List.Subset.refl _⟩

theorem scanStep_addedOnce {x y : ScanState} (step : ScanStep s seederFloor Reads x y) (h : AddedOnce x) :
    AddedOnce y := by
  rcases step.admitted_cases with ⟨hadmitted, hacted⟩ | ⟨hex, bytes, hnew, hadmitted, hacted⟩
  · refine ⟨fun hex hm => hacted (h.acted hex (hadmitted ▸ hm)), ?_⟩
    rw [hadmitted]
    exact h.once
  · have hkeys : y.admitted.map Prod.fst = x.admitted.map Prod.fst ++ [hex] := by
      rw [hadmitted, List.map_append]
      rfl
    refine ⟨fun k hk => ?_, ?_⟩
    · rw [hacted]
      rw [hkeys, List.mem_append, List.mem_singleton] at hk
      exact hk.elim (fun hk => List.mem_cons_of_mem _ (h.acted k hk)) fun hk => hk ▸ List.mem_cons_self
    · rw [hkeys, ← List.concat_eq_append]
      exact h.once.concat fun hm => hnew (h.acted hex hm)

theorem scanStep_admitted_prefix {x y : ScanState} (step : ScanStep s seederFloor Reads x y) :
    x.admitted <+: y.admitted := by
  rcases step.admitted_cases with ⟨hadmitted, -⟩ | ⟨hex, bytes, -, hadmitted, -⟩
  · rw [hadmitted]
  · exact ⟨_, hadmitted.symm⟩

theorem beginScan_addedOnce (s : Settings) (e : Engine) (items : List Item) (env : ScanEnv) :
    AddedOnce (beginScan s e items env) := by
  simp only [beginScan]
  split
  next => exact ⟨by simp, List.nodup_nil⟩
  next => exact ⟨by simp, List.nodup_nil⟩

theorem PendingHash.unheld {items : List Item} {hash : InfoHash} (h : PendingHash s e items hash) :
    ¬e.state.torrents.Has (hexEncode hash) := by
  obtain ⟨item, -, hpending, rfl⟩ := h
  intro hheld
  have hreason : prefilterReason s (heldHashes e) item = .held := if_pos hheld
  rw [hreason] at hpending
  cases hpending

/-- Where every read for a hash finds metadata of that hash, a scan adds no hash twice. Whatever it adds
after some moment was held neither at its start nor at that moment, and so is nothing that it has dropped
since. -/
theorem scan_never_readds {items : List Item} {env : ScanEnv} {x y : ScanState}
    (run : Relation.ReflTransGen (ScanStep s seederFloor MatchingRead) (beginScan s e items env) x)
    (later : Relation.ReflTransGen (ScanStep s seederFloor MatchingRead) x y) :
    (y.admitted.map Prod.fst).Nodup ∧ ∃ added, y.admitted = x.admitted ++ added ∧
      ∀ hex ∈ added.map Prod.fst, ¬e.state.torrents.Has hex ∧ ¬x.engine.state.torrents.Has hex := by
  have once : AddedOnce y :=
    run_preserves (P := AddedOnce) scanStep_addedOnce (run.trans later) (beginScan_addedOnce s e items env)
  obtain ⟨added, hadded⟩ := run_extends (f := ScanState.admitted) scanStep_admitted_prefix later
  refine ⟨once.once, added, hadded.symm, fun hex hm => ?_⟩
  have hstart : ¬e.state.torrents.Has hex := by
    obtain ⟨p, hp, rfl⟩ := List.mem_map.mp hm
    obtain ⟨hash, hpending, rfl⟩ := (scanRun_listed (run.trans later)).admitted p
      (hadded ▸ List.mem_append_right _ hp)
    exact hpending.unheld
  refine ⟨hstart, fun hheld => ?_⟩
  have hbefore := ((scanRun_listed run).held hex hheld).resolve_left hstart
  have hkeys := once.once
  rw [← hadded, List.map_append] at hkeys
  exact List.disjoint_of_nodup_append hkeys hbefore hm

open Reference in
theorem scan_never_readds_swap :
    let y := fullLast.act full 0 evaluated [] (fullEnv true)
    fullLast.engine.state.torrents.Has (hexEncode hashB) ∧ ¬y.engine.state.torrents.Has (hexEncode hashB) ∧
      y.admitted = [(hexEncode hashA, some hashA)] ∧ (y.admitted.map Prod.fst).Nodup := by
  intro y
  have evaluates : ScanStep full 0 MatchingRead fullStart
      (fullStart.evaluate full (item hashA) evaluateEnv) :=
    .evaluate fullStart (item hashA) evaluateEnv (by decide +kernel)
      (matchingRead_of_cached (metadata hashA "a") (by decide +kernel) rfl)
  have receives : ScanStep full 0 MatchingRead (fullStart.evaluate full (item hashA) evaluateEnv)
      fullArrived :=
    .receive (fullStart.evaluate full (item hashA) evaluateEnv) _ [] (by decide +kernel)
      (by decide +kernel) (by decide +kernel)
  have finishes : ScanStep full 0 MatchingRead fullArrived fullLast :=
    .finish fullArrived (by decide +kernel) (by decide +kernel) (by decide +kernel) (by decide +kernel)
  have acts : ScanStep full 0 MatchingRead fullLast y :=
    .act fullLast evaluated [] (fullEnv true) (by decide +kernel)
      (matchingRead_of_cached (metadata hashA "a") (by decide +kernel) rfl)
  have run : Relation.ReflTransGen (ScanStep full 0 MatchingRead) fullStart fullLast :=
    ((Relation.ReflTransGen.single evaluates).tail receives).tail finishes
  exact ⟨by decide +kernel, by decide +kernel, by decide +kernel, (scan_never_readds run (.single acts)).1⟩

end KeepAt
