import KeepAt.PlacementCases

namespace KeepAt

variable {s : Settings} {e : Engine} {c : Candidate} {md : TorrentMeta}

/-- An add that went through: the torrent is in the session, in the held map and in the ledger, and the
live view has been pushed. -/
structure Entered (s : Settings) (e : Engine) (hash : InfoHash) (after : Engine) : Prop where
  session : ∃ sessionOk, addTorrentBytes s e.session e.torrentCache (hexEncode hash) sessionOk =
    some after.session
  entry : ∃ t : Torrent, t.infoHash = hexEncode hash ∧ after.state.torrents = e.state.torrents.insert t
  cache : after.torrentCache = e.torrentCache
  recorded : ∃ c sizeBytes location displaced seederFloor decision ts, c.infoHash = hash ∧
    after.history = e.history ++ [addEvent c sizeBytes location displaced seederFloor decision ts]
  pushed : ∃ before : Engine, before.live = e.live ∧ after = before.pushLive

/-- What a call leaves: what it found, its metadata read, an add, or an add that displaced held torrents. -/
inductive ActOutcome (s : Settings) (e : Engine) (c : Candidate) (env : ActEnv) : Engine → Prop
  | kept : ActOutcome s e c env e
  | read : ActOutcome s e c env (fetched s e c env)
  | filled (md : TorrentMeta) (after : Engine)
      (reads : (fetchMetadata s e.torrentCache (hexEncode c.infoHash) env.fetch).2 = some md)
      (entered : Entered s (fetched s e c env) c.infoHash after) : ActOutcome s e c env after
  | swapped (md : TorrentMeta) (mid : Engine) (ds : List Torrent) (d : SwapDecision F64)
      (reads : (fetchMetadata s e.torrentCache (hexEncode c.infoHash) env.fetch).2 = some md)
      (entered : Entered s (fetched s e c env) c.infoHash mid)
      (held : ∀ t ∈ ds, t ∈ e.state.torrents.values) :
      ActOutcome s e c env (finishSwap mid env.swap.remove ds d).1

theorem tryAdd_entered {sizeBytes seederFloor : Nat} {location : PathBuf} {displaced : List Held} {roll : F64}
    {env : PlaceEnv} (h : (tryAdd s e c md sizeBytes location displaced seederFloor roll env).2.1 = true) :
    Entered s e c.infoHash (tryAdd s e c md sizeBytes location displaced seederFloor roll env).1 := by
  rcases tryAdd_cases s e c md sizeBytes location displaced seederFloor roll env with
    ⟨-, hr⟩ | ⟨-, session, hsession, hr⟩
  · rw [hr] at h
    cases h
  · rw [hr]
    refine ⟨⟨env.sessionOk, hsession⟩, ⟨heldEntry c md sizeBytes location env, rfl, ?_⟩, rfl, ?_, ?_⟩
    · exact State.put_torrents _ _ _
    · exact ⟨c, sizeBytes, location, displaced, seederFloor, _, env.recordedAt, rfl, rfl⟩
    · exact ⟨Engine.record { e with
          session, state := (e.state.put (heldEntry c md sizeBytes location env) env.saved).1 }
        (addEvent c sizeBytes location displaced seederFloor _ env.recordedAt), rfl, rfl⟩

/-- A swap leaves the engine alone, or removes what it displaces after an add. -/
theorem swapLoop_outcome (held : List Torrent) (sizeBytes seederFloor : Nat) (roll : F64) (env : SwapEnv)
    (locations : List PathBuf) (last : SwapDecision F64) :
    let r := swapLoop s held c md sizeBytes seederFloor roll env e locations last
    r.1 = e ∨ ∃ mid ds d, Entered s e c.infoHash mid ∧ (∀ t ∈ ds, t ∈ held) ∧
      r = finishSwap mid env.remove ds d := by
  induction locations generalizing last with
  | nil => exact Or.inl rfl
  | cons location rest ih =>
    intro r
    simp only [r, swapLoop]
    split
    next => exact ih last
    next ds hselected =>
      split
      next => exact ih _
      next =>
        cases hadded : (tryAdd s e c md sizeBytes location (ds.map heldView) seederFloor roll
            (env.place location)).2.1 with
        | true =>
          rw [if_pos rfl]
          obtain ⟨-, hsub, -⟩ := selectDisplaceable_spec hselected
          exact Or.inr ⟨_, ds, _, tryAdd_entered hadded,
            fun t ht => (mem_heldAt.mp (hsub.subset ht)).1, rfl⟩
        | false =>
          have hsame : (tryAdd s e c md sizeBytes location (ds.map heldView) seederFloor roll
              (env.place location)).1 = e := by
            rcases tryAdd_cases s e c md sizeBytes location (ds.map heldView) seederFloor roll
              (env.place location) with ⟨-, hr⟩ | ⟨-, session, -, hr⟩
            · rw [hr]
            · rw [hr] at hadded
              cases hadded
          rw [if_neg (by simp), hsame]
          exact ih _

theorem tryFill_outcome (s : Settings) (e : Engine) (c : Candidate) (md : TorrentMeta)
    (n seederFloor : Nat) (roll : F64) (env : ActEnv) :
    let r := tryFill s e c md n seederFloor roll env
    (r.2.1 = false ∧ r.1 = e) ∨ (r.2.1 = true ∧ Entered s e c.infoHash r.1) := by
  intro r
  rcases tryFill_cases s e c md n seederFloor roll env with ⟨hsame, hadded, -⟩ | ⟨hadded, -⟩
  · exact Or.inl ⟨hadded, hsame⟩
  · refine Or.inr ⟨hadded, ?_⟩
    simp only [r, tryFill] at hadded ⊢
    split at hadded
    next => cases hadded
    next loc _ => exact tryAdd_entered hadded

theorem placeCandidate_outcome (n seederFloor : Nat) (probe : Bool) (roll : F64) (env : ActEnv) :
    let r := placeCandidate s e c md n seederFloor probe roll env
    r.1 = e ∨ Entered s e c.infoHash r.1 ∨ ∃ mid ds d, Entered s e c.infoHash mid ∧
      (∀ t ∈ ds, t ∈ e.state.torrents.values) ∧ r.1 = (finishSwap mid env.swap.remove ds d).1 := by
  have hfill := tryFill_outcome s e c md n seederFloor roll env
  simp only [placeCandidate]
  generalize tryFill s e c md n seederFloor roll env = filled at hfill ⊢
  obtain ⟨after, added, d⟩ := filled
  rcases hfill with ⟨rfl, rfl⟩ | ⟨rfl, hentered⟩
  · rw [if_neg (by simp)]
    split
    next => exact Or.inl rfl
    next =>
      split
      next => exact Or.inl rfl
      next =>
        rcases swapLoop_outcome after.state.all md.totalLength seederFloor roll env.swap
          (heldLocations after.state.all) _ with hkept | ⟨mid, ds, d, hentered, hheld, hfinish⟩
        · exact Or.inl hkept
        · exact Or.inr (Or.inr ⟨mid, ds, d, hentered, hheld, congrArg Prod.fst hfinish⟩)
  · exact Or.inr (Or.inl hentered)

theorem actOnCandidate_outcome (s : Settings) (e : Engine) (c : Candidate) (n seederFloor : Nat)
    (env : ActEnv) : ActOutcome s e c env (actOnCandidate s e c n seederFloor env).1 := by
  by_cases hreaches : ∃ probe md, ActReaches s e c env probe md
  · obtain ⟨probe, md, hreach⟩ := hreaches
    have hreads := hreach.2.1
    rw [actOnCandidate_reached hreach]
    rcases placeCandidate_outcome n seederFloor probe (evaluationRoll probe env.roll) env with
      hkept | hentered | ⟨mid, ds, d, hentered, hheld, hfinish⟩
    · rw [hkept]
      exact .read
    · exact .filled md _ hreads hentered
    · rw [hfinish]
      exact .swapped md mid ds d hreads hentered hheld
  · rcases (actOnCandidate_stopped n seederFloor fun probe md hr => hreaches ⟨probe, md, hr⟩).1 with h | h
    · rw [h]
      exact .kept
    · rw [h]
      exact .read

end KeepAt
