import KeepAt.HeldCount
import KeepAt.RegistryMoves

namespace KeepAt

/-- The call fills free space with a hash whose cooldown has lapsed. -/
def ProbeFills (s : Settings) (e : Engine) (c : Candidate) (n seederFloor : Nat) (env : ActEnv) : Prop :=
  ∃ md, ActReaches s e c env true md ∧
    Fills s (fetched s e c env) { c with pieceCount := md.pieceCount } md n seederFloor
      (evaluationRoll true env.roll) env

/-- What a move adds to what is held. -/
inductive Adds (s : Settings) (e : Engine) : Move → List String → Prop
  | nothing (m : Move) : Adds s e m []
  | called (c : Candidate) (n seederFloor : Nat) (env : ActEnv)
      (gated : ∀ q, e.state.quarantineGet (hexEncode c.infoHash) = some q → q.cooldownUntil ≤ env.now)
      (unregistered : ¬ProbeFills s e c n seederFloor env →
        e.state.quarantineGet (hexEncode c.infoHash) = none) :
      Adds s e (.action (.act c n seederFloor env)) [hexEncode c.infoHash]
  | probed (hex : String) (listed : List String) (n seederFloor : Nat) (now : Time)
      (env : String → ProbeEnv) (q : Quarantine) (registered : e.state.quarantineGet hex = some q)
      (gated : q.cooldownUntil ≤ (env hex).act.now)
      (rearmed : ((Move.probe hex listed n seederFloor now env).apply s e).state.quarantineGet hex =
        some { q with cooldownUntil := rearmUntil s.scan now }) :
      Adds s e (.probe hex listed n seederFloor now env) [hex]

variable {s : Settings} {e : Engine}

/-- Between the two engines the ledger gains no add. -/
def Unadded (before after : Engine) : Prop :=
  ∃ events, after.history = before.history ++ events ∧ events.filterMap Event.addedHash = []

theorem Unadded.of_history {before after : Engine} (h : after.history = before.history) :
    Unadded before after := ⟨[], by rw [h, List.append_nil], rfl⟩

theorem Unadded.trans {e₁ e₂ e₃ : Engine} (h : Unadded e₁ e₂) (k : Unadded e₂ e₃) : Unadded e₁ e₃ := by
  obtain ⟨evs, hh, hn⟩ := h
  obtain ⟨evs', hh', hn'⟩ := k
  exact ⟨evs ++ evs', by rw [hh', hh, List.append_assoc], by rw [List.filterMap_append, hn, hn']; rfl⟩

theorem Unadded.addedHashes {before after : Engine} (h : Unadded before after) :
    addedHashes before after = [] := by
  obtain ⟨evs, hh, hn⟩ := h
  rw [KeepAt.addedHashes, hh, List.drop_left, hn]

theorem evictDue_unadded (due : Torrent → Option String) (cause : Cause) (env : String → EvictEnv)
    (e : Engine) (ts : List Torrent) : Unadded e (e.evictDue due cause env ts) := by
  have hstep : ∀ (acc : Engine × Bool) (t : Torrent),
      Unadded acc.1 (Engine.evictStep due cause env acc t).1 := by
    intro acc t
    simp only [Engine.evictStep]
    split
    next => exact .of_history rfl
    next =>
      simp only [Engine.evict]
      split
      next => exact ⟨[removeEvent t cause _ _], rfl, rfl⟩
      next => exact .of_history rfl
  have hfold : ∀ (ts : List Torrent) (acc : Engine × Bool),
      Unadded acc.1 (ts.foldl (Engine.evictStep due cause env) acc).1 := by
    intro ts
    induction ts with
    | nil => exact fun _ => .of_history rfl
    | cons t ts ih => exact fun acc => (hstep acc t).trans (ih _)
  have hs := hfold ts (e, false)
  simp only [Engine.evictDue]
  split
  next => exact hs.trans (.of_history rfl)
  next => exact hs

theorem Action.apply_unadded {a : Action} (uncalled : ∀ c n seederFloor env, a ≠ .act c n seederFloor env) :
    Unadded e (a.apply s e) := by
  cases a with
  | reconcile catalog env =>
    let listed : Engine := { e with lastCatalog := some catalog }
    have hpass : Unadded listed (vanishedPass s listed catalog env.vanished) := by
      rcases vanishedPass_cases s listed catalog env.vanished with ⟨-, h⟩ | ⟨-, h⟩ <;> rw [h]
      · exact .of_history rfl
      · exact evictDue_unadded _ _ _ _ _
    exact (Unadded.of_history rfl).trans (hpass.trans (.of_history (Engine.updateEach_history _ _ _)))
  | refresh env readAt => exact .of_history (Engine.updateEach_history _ _ _)
  | evictStalled catalog env =>
    rw [Action.apply]
    rcases evictStalledTorrents_cases s e catalog env with ⟨-, h⟩ | ⟨-, h⟩ <;> rw [h]
    · exact .of_history rfl
    · exact evictDue_unadded _ _ _ _ _
  | readMetadata hex env => exact .of_history rfl
  | act c n seederFloor env => exact absurd rfl (uncalled c n seederFloor env)
  | bookkeep env => exact .of_history rfl
  | rememberCatalog catalog => exact .of_history rfl
  | rearm hex q saved => exact .of_history rfl
  | enforceTrip now env trip =>
    obtain ⟨hex, trip⟩ := trip
    rw [Action.apply]
    cases hget : e.state.get hex with
    | none => exact .of_history (enforceTrip_untracked s now env trip hget).2
    | some held =>
      obtain ⟨-, hh⟩ := enforceTrip_tracked s now env trip hget
      split at hh
      next => exact ⟨_, hh, rfl⟩
      next => exact .of_history hh
  | pushLive => exact .of_history rfl

theorem FillPlaced.added {c : Candidate} {md : TorrentMeta} {n seederFloor : Nat} {roll : F64} {env : ActEnv}
    {r : Engine × Nat} {loc : StorageLocation} (h : FillPlaced s e c md n seederFloor roll env r loc) :
    addedHashes e r.1 = [hexEncode c.infoHash] := by
  rw [addedHashes, h.recorded, List.drop_left]
  rfl

theorem SwapPlaced.added {c : Candidate} {md : TorrentMeta} {n seederFloor : Nat} {probe : Bool} {roll : F64}
    {env : ActEnv} {r : Engine × Nat} {location : PathBuf} {ds : List Torrent}
    (h : SwapPlaced s e c md n seederFloor probe roll env r location ds) :
    addedHashes e r.1 = [hexEncode c.infoHash] := by
  obtain ⟨d, removed, hswap, -⟩ := h.swap
  have hrec := hswap.recorded
  dsimp only at hrec
  rw [addedHashes, hrec, List.drop_left]
  rfl

theorem act_adds (s : Settings) (e : Engine) (c : Candidate) (n seederFloor : Nat) (env : ActEnv) :
    Adds s e (.action (.act c n seederFloor env))
      (addedHashes e (actOnCandidate s e c n seederFloor env).1) := by
  rcases actOnCandidate_cases s e c n seederFloor env with
    ⟨he, -⟩ | ⟨probe, md, hreach, ⟨loc, h⟩ | ⟨location, ds, h⟩⟩
  · have hsame : addedHashes e (actOnCandidate s e c n seederFloor env).1 = [] := by
      rcases he with he | he <;> rw [he] <;> exact (Unadded.of_history rfl).addedHashes
    rw [hsame]
    exact .nothing _
  · have hadded : addedHashes e (actOnCandidate s e c n seederFloor env).1 = [hexEncode c.infoHash] := h.added
    obtain ⟨hgated, hunprobed⟩ := quarantineGate_passed hreach.1
    rw [hadded]
    refine .called c n seederFloor env hgated fun hfills => ?_
    cases probe with
    | true => exact absurd ⟨md, hreach, h.fills⟩ hfills
    | false => exact hunprobed rfl
  · have hadded : addedHashes e (actOnCandidate s e c n seederFloor env).1 = [hexEncode c.infoHash] := h.added
    obtain ⟨hgated, hunprobed⟩ := quarantineGate_passed hreach.1
    rw [hadded]
    exact .called c n seederFloor env hgated fun _ => hunprobed h.reached.1

theorem act_adds_of_fills {c : Candidate} {n seederFloor : Nat} {env : ActEnv}
    (h : ProbeFills s e c n seederFloor env) :
    addedHashes e (actOnCandidate s e c n seederFloor env).1 = [hexEncode c.infoHash] := by
  obtain ⟨md, hreach, hfills⟩ := h
  have hcount : (actOnCandidate s e c n seederFloor env).2 = n + 1 := by
    rw [actOnCandidate_reached hreach]
    exact placeCandidate_of_fills true hfills
  rcases actOnCandidate_cases s e c n seederFloor env with
    ⟨-, hstay⟩ | ⟨probe, md', -, ⟨loc, h⟩ | ⟨location, ds, h⟩⟩
  · exact absurd (hstay.symm.trans hcount) (Nat.lt_succ_self n).ne
  · exact h.added
  · exact h.added

/-- A move adds nothing, or one hash that its gate let through. -/
theorem Move.adds {m : Move} (allowed : m.Allowed e) : Adds s e m (addedHashes e (m.apply s e)) := by
  cases m with
  | action a =>
    by_cases hact : ∃ c n seederFloor env, a = .act c n seederFloor env
    · obtain ⟨c, n, seederFloor, env, rfl⟩ := hact
      exact act_adds s e c n seederFloor env
    · have hnone := (Action.apply_unadded (s := s) (e := e) (a := a)
        fun c n f env he => hact ⟨c, n, f, env, he⟩).addedHashes
      rw [Move.apply, hnone]
      exact .nothing _
  | probe hex listed n seederFloor now env =>
    obtain ⟨hspelled, q, hq, -⟩ := allowed
    have happly : (Move.probe hex listed n seederFloor now env).apply s e =
        (reprobeOne s listed seederFloor now env (e, n) (hex, q)).1 := by simp only [Move.apply, hq]
    rw [happly]
    rcases reprobeOne_cases s listed seederFloor now env (e, n) hex q with
      ⟨torrentCache, hr⟩ | ⟨torrentCache, c, hc, -, hlisted, hr⟩
    · have hnone : Unadded e (reprobeOne s listed seederFloor now env (e, n) (hex, q)).1 :=
        .of_history (by rw [hr])
      rw [hnone.addedHashes]
      exact .nothing _
    · have hhex : hexEncode c.infoHash = hex := by rw [hc, hexEncode_decodeHash (hspelled hex hlisted)]
      have hadds := act_adds s { e with torrentCache } c n seederFloor (env hex).act
      rw [hr]
      change Adds s e _ (addedHashes { e with torrentCache } (actOnCandidate s { e with torrentCache } c n
        seederFloor (env hex).act).1)
      generalize addedHashes { e with torrentCache } (actOnCandidate s { e with torrentCache } c n
        seederFloor (env hex).act).1 = added at hadds ⊢
      cases hadds with
      | nothing => exact .nothing _
      | called _ _ _ _ gated _ =>
        rw [hhex] at gated ⊢
        refine .probed hex listed n seederFloor now env q hq (gated q hq) ?_
        rw [happly, hr, State.quarantinePut_get, if_pos rfl]

/-- What happened to a hash since its registry entry was created: its trips, the last of them that left
more attempts than the positive limit of retries, and its last addition. -/
structure EntryLog where
  trips : Nat
  escalatedAt : Option Time
  addedAt : Option Time
  deriving DecidableEq

def EntryLog.fresh : EntryLog := ⟨0, none, none⟩

def Escalated (s : Settings) (q : Quarantine) : Prop :=
  0 < s.scan.quarantineMaxRetries ∧ s.scan.quarantineMaxRetries < q.attempts

instance (s : Settings) (q : Quarantine) : Decidable (Escalated s q) := inferInstanceAs (Decidable (_ ∧ _))

/-- The log after a move that left the entry so, tripped the hash at one time and added it at another. -/
def EntryLog.after (s : Settings) (log : EntryLog) (entry : Option Quarantine) (tripped added : Option Time) :
    EntryLog :=
  match entry with
  | none => .fresh
  | some q =>
    { trips := if tripped.isSome then log.trips + 1 else log.trips
      escalatedAt := if Escalated s q then tripped.or log.escalatedAt else log.escalatedAt
      addedAt := added.or log.addedAt }

/-- An addition to what is held, with the entry of the hash at that moment and the log of that entry. -/
structure Addition where
  hex : String
  gatedAt : Time
  entry : Option Quarantine
  since : EntryLog
  deriving DecidableEq

/-- An engine under observation of its registry. -/
structure Watch where
  engine : Engine
  clock : Time
  since : String → EntryLog
  additions : List Addition

namespace Watch

def start (e : Engine) (clock : Time) : Watch := ⟨e, clock, fun _ => .fresh, []⟩

def addition (x : Watch) (m : Move) (hex : String) : Option Addition :=
  m.gatedAt.map fun t => ⟨hex, t, x.engine.state.quarantineGet hex, x.since hex⟩

def after (s : Settings) (x : Watch) (m : Move) (clock : Time) : Watch :=
  let e := m.apply s x.engine
  let added := addedHashes x.engine e
  { engine := e
    clock
    since := fun hex => (x.since hex).after s (e.state.quarantineGet hex) (m.trippedAt hex)
      (if hex ∈ added then m.gatedAt else none)
    additions := x.additions ++ added.filterMap (x.addition m) }

end Watch

/-- A hash that a move adds has no entry that its gate would have blocked. -/
theorem Adds.gated {m : Move} {added : List String} (h : Adds s e m added) {hex : String} (hm : hex ∈ added)
    {t : Time} (ht : m.gatedAt = some t) {q : Quarantine} (hq : e.state.quarantineGet hex = some q) :
    q.cooldownUntil ≤ t := by
  cases h with
  | nothing => cases hm
  | called c n seederFloor env gated _ =>
    obtain rfl := List.mem_singleton.mp hm
    exact Option.some.inj ht ▸ gated q hq
  | probed hex' listed n seederFloor now env q' registered gated _ =>
    obtain rfl := List.mem_singleton.mp hm
    obtain rfl := Option.some.inj (registered.symm.trans hq)
    exact Option.some.inj ht ▸ gated

theorem Watch.mem_additions {x : Watch} {m : Move} {clock : Time} {a : Addition}
    (h : a ∈ (x.after s m clock).additions) :
    a ∈ x.additions ∨ a.hex ∈ addedHashes x.engine (m.apply s x.engine) ∧ m.gatedAt = some a.gatedAt ∧
      a.entry = x.engine.state.quarantineGet a.hex ∧ a.since = x.since a.hex := by
  refine (List.mem_append.mp h).imp_right fun hm => ?_
  obtain ⟨hex, hhex, ha⟩ := List.mem_filterMap.mp hm
  obtain ⟨t, ht, rfl⟩ := Option.map_eq_some_iff.mp ha
  exact ⟨hhex, ht, rfl, rfl⟩

/-- A step under a nondecreasing clock. `Permits` says which moves a run may contain at which times. -/
inductive WatchStep (s : Settings) (Permits : Watch → Move → Time → Prop) : Watch → Watch → Prop
  | move (x : Watch) (m : Move) (clock : Time) (later : x.clock ≤ clock) (allowed : m.Allowed x.engine)
      (permitted : Permits x m clock) : WatchStep s Permits x (x.after s m clock)
  | rehash (x : Watch) (ts : List Torrent) (h : ts.Perm x.engine.state.torrents.values) :
      WatchStep s Permits x { x with engine := { x.engine with state := x.engine.state.rehash ts h } }

def AnyMove (_ : Watch) (_ : Move) (_ : Time) : Prop := True

/-- Every run of moves goes through the steps. -/
theorem moveRun_watched {x : Watch} {e' : Engine} (run : Relation.ReflTransGen (MoveStep s) x.engine e') :
    ∃ y, y.engine = e' ∧ Relation.ReflTransGen (WatchStep s AnyMove) x y := by
  induction run with
  | refl => exact ⟨x, rfl, .refl⟩
  | tail _ step ih =>
    obtain ⟨y, rfl, run⟩ := ih
    cases step with
    | move m allowed => exact ⟨_, rfl, run.tail (.move y m y.clock le_rfl allowed trivial)⟩
    | rehash ts h => exact ⟨_, rfl, run.tail (.rehash y ts h)⟩

end KeepAt
