import KeepAt.HeldCount
import KeepAt.PlacementOutcome
import KeepAt.StateOps

namespace KeepAt

/-- The live handle serves the held list and the count of the state. -/
def LiveFresh (e : Engine) : Prop :=
  ∀ v, e.live = some v → v.quarantined = e.state.quarantineCount ∧ v.held.Perm (snapshotEntries e.state)

variable {s : Settings} {e e' : Engine}

theorem LiveFresh.pushLive (e : Engine) : LiveFresh e.pushLive := by
  intro v hv
  obtain ⟨_, -, rfl⟩ := Option.map_eq_some_iff.mp hv
  exact ⟨rfl, .refl _⟩

/-- What changes nothing that is served leaves the view fresh. -/
theorem LiveFresh.keep (h : LiveFresh e) (live : e'.live = e.live)
    (count : e'.state.quarantineCount = e.state.quarantineCount)
    (entries : (snapshotEntries e'.state).Perm (snapshotEntries e.state)) : LiveFresh e' := by
  intro v hv
  obtain ⟨hcount, hheld⟩ := h v (live ▸ hv)
  exact ⟨hcount.trans count.symm, hheld.trans entries.symm⟩

theorem Entered.fresh {hash : InfoHash} (h : Entered s e hash e') : LiveFresh e' := by
  obtain ⟨before, -, rfl⟩ := h.pushed
  exact .pushLive before

theorem finishSwap_fresh {remove : String → RemoveEnv} {ds : List Torrent} {d : SwapDecision F64}
    (h : 0 < (finishSwap e remove ds d).2.2.2) : LiveFresh (finishSwap e remove ds d).1 := by
  simp only [finishSwap] at h ⊢
  rw [if_pos h]
  exact .pushLive _

/-- If the call swaps, the removal of one torrent that it displaces is saved. -/
def SwapPushes (s : Settings) (e : Engine) (c : Candidate) (n seederFloor : Nat) (env : ActEnv) : Prop :=
  ∀ probe md ds, ActReaches s e c env probe md →
    SwapsFor s (fetched s e c env) { c with pieceCount := md.pieceCount } md n seederFloor probe
      (evaluationRoll probe env.roll) env ds → ∃ d ∈ ds, (env.swap.remove d.infoHash).saved = true

theorem savedRemovals_pos {remove : String → RemoveEnv} {ds : List Torrent} {d : Torrent} (hd : d ∈ ds)
    (saved : (remove d.infoHash).saved = true) : 0 < savedRemovals remove ds :=
  List.length_pos_of_mem (List.mem_filter.mpr ⟨hd, saved⟩)

theorem placeCandidate_fresh {c : Candidate} {md : TorrentMeta} {n seederFloor : Nat} {probe : Bool}
    {roll : F64} {env : ActEnv} (h : LiveFresh e)
    (pushes : ∀ ds, SwapsFor s e c md n seederFloor probe roll env ds →
      ∃ d ∈ ds, (env.swap.remove d.infoHash).saved = true) :
    LiveFresh (placeCandidate s e c md n seederFloor probe roll env).1 := by
  have hfill := tryFill_outcome s e c md n seederFloor roll env
  have hcases := tryFill_cases s e c md n seederFloor roll env
  simp only [placeCandidate]
  generalize tryFill s e c md n seederFloor roll env = filled at hfill hcases ⊢
  obtain ⟨after, added, d⟩ := filled
  rcases hfill with ⟨rfl, rfl⟩ | ⟨rfl, hentered⟩
  · obtain ⟨-, -, hreached⟩ := hcases.resolve_right (by simp)
    rw [if_neg (by simp)]
    split
    next => exact h
    next hopen =>
      split
      next => exact h
      next hprobe =>
        rcases trySwap_cases s after c md md.totalLength seederFloor roll env.swap with
          ⟨-, hkept, -⟩ | ⟨location, ds, hswap⟩
        · exact hkept.symm ▸ h
        · obtain ⟨before, rest, heq, hfirst⟩ := hswap.first
          have hswaps : SwapsFor s after c md n seederFloor probe roll env ds := by
            obtain rfl : probe = false := by simpa using hprobe
            exact ⟨hreached.mp (by simpa using hopen), before, location, rest, heq, hfirst, hswap.admits,
              hswap.selected⟩
          obtain ⟨t, ht, hsaved⟩ := pushes ds hswaps
          have hcount := hswap.count
          rcases swapLoop_outcome after.state.all md.totalLength seederFloor roll env.swap
            (heldLocations after.state.all) _ with hkept | ⟨mid, ds', d', -, -, hfinish⟩
          · exact hkept.symm ▸ h
          · have hpos : 0 < (finishSwap mid env.swap.remove ds' d').2.2.2 := by
              rw [← hfinish]
              exact hcount ▸ savedRemovals_pos ht hsaved
            rw [trySwap, hfinish]
            exact finishSwap_fresh hpos
  · exact hentered.fresh

theorem actOnCandidate_fresh {c : Candidate} {n seederFloor : Nat} {env : ActEnv} (h : LiveFresh e)
    (pushes : SwapPushes s e c n seederFloor env) :
    LiveFresh (actOnCandidate s e c n seederFloor env).1 := by
  have hread : LiveFresh (fetched s e c env) := h.keep rfl rfl (.refl _)
  by_cases hreaches : ∃ probe md, ActReaches s e c env probe md
  · obtain ⟨probe, md, hreach⟩ := hreaches
    rw [actOnCandidate_reached hreach]
    exact placeCandidate_fresh hread fun ds hswaps => pushes probe md ds hreach hswaps
  · rcases (actOnCandidate_stopped n seederFloor fun probe md hr => hreaches ⟨probe, md, hr⟩).1 with hr | hr
    · exact hr.symm ▸ h
    · exact hr.symm ▸ hread

/-- If a torrent is due, the removal of one that is due is saved. -/
def DropPushes (due : Torrent → Option String) (env : String → EvictEnv) (held : List Torrent) : Prop :=
  (∃ t ∈ held, (due t).isSome) → ∃ t ∈ held, (due t).isSome ∧ (env t.infoHash).remove.saved = true

theorem evict_dropped (e : Engine) (t : Torrent) (cause : Cause) (reason : String) (env : EvictEnv) :
    (e.evict t cause reason env).2 = env.remove.saved := e.dropHeld_saved t.infoHash env.remove

theorem evictFold_marks {due : Torrent → Option String} {cause : Cause} {env : String → EvictEnv}
    {ts : List Torrent} {acc : Engine × Bool}
    (h : acc.2 = true ∨ ∃ t ∈ ts, (due t).isSome ∧ (env t.infoHash).remove.saved = true) :
    (ts.foldl (Engine.evictStep due cause env) acc).2 = true := by
  induction ts generalizing acc with
  | nil => exact h.resolve_right (by simp)
  | cons t ts ih =>
    refine ih ?_
    unfold Engine.evictStep
    rcases h with h | ⟨u, hu, hdue, hsaved⟩
    · split
      next => exact Or.inl h
      next => exact Or.inl (by simp [h])
    · rcases List.mem_cons.mp hu with rfl | hu
      · split
        next hnone => simp [hnone] at hdue
        next => exact Or.inl (by simp [evict_dropped, hsaved])
      · exact Or.inr ⟨u, hu, hdue, hsaved⟩

theorem evictFold_quiet {due : Torrent → Option String} {cause : Cause} {env : String → EvictEnv}
    {ts : List Torrent} {acc : Engine × Bool} (h : ∀ t ∈ ts, due t = none) :
    ts.foldl (Engine.evictStep due cause env) acc = acc := by
  induction ts with
  | nil => rfl
  | cons t ts ih =>
    obtain ⟨ht, hrest⟩ := List.forall_mem_cons.mp h
    have hskip : Engine.evictStep due cause env acc t = acc := by simp only [Engine.evictStep, ht]
    rw [List.foldl_cons, hskip]
    exact ih hrest

theorem evictDue_fresh {due : Torrent → Option String} {cause : Cause} {env : String → EvictEnv}
    {ts : List Torrent} (h : LiveFresh e) (pushes : DropPushes due env ts) :
    LiveFresh (e.evictDue due cause env ts) := by
  simp only [Engine.evictDue]
  by_cases hany : ∃ t ∈ ts, (due t).isSome
  · rw [if_pos (evictFold_marks (Or.inr (pushes hany)))]
    exact .pushLive _
  · have hnone : ∀ t ∈ ts, due t = none := fun t ht => by
      by_contra hn
      exact hany ⟨t, ht, Option.isSome_iff_ne_none.mpr hn⟩
    rw [evictFold_quiet hnone]
    exact h

end KeepAt
