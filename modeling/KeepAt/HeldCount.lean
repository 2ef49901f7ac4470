import KeepAt.AdmissionIntegrity
import KeepAt.ConfiguredPlacement
import KeepAt.PlacementRun
import KeepAt.ProbeFrame
import KeepAt.ScanCalls

namespace KeepAt

/-- The call fills free space. -/
def Fills (s : Settings) (e : Engine) (c : Candidate) (md : TorrentMeta) (n seederFloor : Nat) (roll : F64)
    (env : ActEnv) : Prop :=
  (fillTarget s e c md n env).isSome ∧ AddSucceeds s e c md md.totalLength [] seederFloor roll env.fill

/-- The call takes the swap path, and displaces these torrents at the first location that admits it. -/
def SwapsFor (s : Settings) (e : Engine) (c : Candidate) (md : TorrentMeta) (n seederFloor : Nat)
    (probe : Bool) (roll : F64) (env : ActEnv) (ds : List Torrent) : Prop :=
  SwapReached s e c md n seederFloor probe roll env ∧
    ∃ before location after, heldLocations e.state.all = before ++ location :: after ∧
      (∀ l ∈ before, ¬SwapAdmits s e e.state.all c md md.totalLength seederFloor roll env.swap l) ∧
      SwapAdmits s e e.state.all c md md.totalLength seederFloor roll env.swap location ∧
      displaceableAt s e.state.all c md md.totalLength location = some ds

/-- The candidate is held when the call places it, or the removal of a torrent it displaces is not
saved. -/
def Miscounts (s : Settings) (e : Engine) (c : Candidate) (n seederFloor : Nat) (env : ActEnv) : Prop :=
  ∃ probe md, ActReaches s e c env probe md ∧
    (Fills s (fetched s e c env) { c with pieceCount := md.pieceCount } md n seederFloor
        (evaluationRoll probe env.roll) env ∧ e.state.torrents.Has (hexEncode c.infoHash) ∨
      ∃ ds, SwapsFor s (fetched s e c env) { c with pieceCount := md.pieceCount } md n seederFloor probe
        (evaluationRoll probe env.roll) env ds ∧
        (e.state.torrents.Has (hexEncode c.infoHash) ∨
          ∃ d ∈ ds, (env.swap.remove d.infoHash).saved = false))

variable {s : Settings} {e : Engine} {c : Candidate} {md : TorrentMeta} {n seederFloor : Nat}
  {probe : Bool} {roll : F64} {env : ActEnv} {ds : List Torrent}

theorem placeCandidate_of_fills (probe : Bool) (h : Fills s e c md n seederFloor roll env) :
    (placeCandidate s e c md n seederFloor probe roll env).2 = n + 1 := by
  obtain ⟨target, ht⟩ := Option.isSome_iff_exists.mp h.1
  rcases tryAdd_cases s e c md md.totalLength target.path [] seederFloor roll env.fill with
    ⟨hn, -⟩ | ⟨-, session, -, hadd⟩
  · exact absurd h.2 hn
  · simp only [placeCandidate, tryFill, ht, hadd, if_true]

theorem savedRemovals_eq_iff {remove : String → RemoveEnv} :
    savedRemovals remove ds = ds.length ↔ ∀ d ∈ ds, (remove d.infoHash).saved = true :=
  List.length_filter_eq_length_iff

/-- What a placement leaves in the map: what was there, with the candidate and without the displaced. -/
theorem placed_size (e : Engine) (ds : List Torrent) (hex : String) {torrents : HeldMap} {t : Torrent}
    (hkey : t.infoHash = hex)
    (hheld : ∀ d ∈ ds, d ∈ e.state.torrents.values) (hnodup : (ds.map Torrent.infoHash).Nodup)
    (h : torrents = (e.state.torrents.insert t).eraseAll (ds.map Torrent.infoHash)) :
    torrents.size + ds.length =
      if e.state.torrents.Has hex then e.state.torrents.size else e.state.torrents.size + 1 := by
  subst hkey
  have hkeys : ∀ k ∈ ds.map Torrent.infoHash, (e.state.torrents.insert t).Has k := by
    intro k hk
    obtain ⟨d, hd, rfl⟩ := List.mem_map.mp hk
    exact KeyedList.has_insert.mpr (Or.inr (KeyedList.has_of_mem (hheld d hd)))
  have hsize := KeyedList.size_eraseAll hnodup hkeys
  rw [← h, List.length_map, KeyedList.size_insert] at hsize
  exact hsize

theorem SwapPlaced.swapsFor {r : Engine × Nat} {location : PathBuf}
    (h : SwapPlaced s e c md n seederFloor probe roll env r location ds) :
    SwapsFor s e c md n seederFloor probe roll env ds := by
  obtain ⟨_, _, hswap, -⟩ := h.swap
  obtain ⟨before, after, heq, hbefore⟩ := hswap.first
  exact ⟨h.reached, before, location, after, heq, hbefore, hswap.admits, hswap.selected⟩

theorem SwapsFor.unique {ds' : List Torrent} (h : SwapsFor s e c md n seederFloor probe roll env ds)
    (h' : SwapsFor s e c md n seederFloor probe roll env ds') : ds' = ds := by
  obtain ⟨-, before, location, after, heq, hbefore, hadmits, hsel⟩ := h
  obtain ⟨-, before', location', after', heq', hbefore', hadmits', hsel'⟩ := h'
  obtain rfl := first_unique (heq.symm.trans heq') hadmits hadmits' hbefore hbefore'
  exact Option.some.inj (hsel'.symm.trans hsel)

theorem FillPlaced.fills {r : Engine × Nat} {loc : StorageLocation}
    (h : FillPlaced s e c md n seederFloor roll env r loc) : Fills s e c md n seederFloor roll env :=
  ⟨Option.isSome_iff_exists.mpr (fillTarget_isSome h.configured h.belowCap h.fitsRam h.fitsDisk), h.succeeds⟩

theorem Fills.not_swapsFor (h : Fills s e c md n seederFloor roll env) :
    ¬SwapsFor s e c md n seederFloor probe roll env ds :=
  fun hswap => (hswap.1.2 h.1).1 h.2

theorem ActReaches.unique {probe' : Bool} {md' : TorrentMeta} (h : ActReaches s e c env probe md)
    (h' : ActReaches s e c env probe' md') : probe' = probe ∧ md' = md :=
  ⟨congrArg Prod.snd (h'.1.symm.trans h.1), Option.some.inj (h'.2.1.symm.trans h.2.1)⟩

/-- After a fill the count is right exactly when the candidate was not held. -/
theorem FillPlaced.count_iff {r : Engine × Nat} {loc : StorageLocation}
    (h : FillPlaced s e c md n seederFloor roll env r loc) (counted : n = e.state.torrents.size) :
    r.2 = r.1.state.torrents.size ↔ ¬e.state.torrents.Has (hexEncode c.infoHash) := by
  have hsize := placed_size e [] (hexEncode c.infoHash) rfl (by simp) List.nodup_nil h.torrents
  rw [List.length_nil] at hsize
  rw [h.count, counted]
  constructor
  · intro hcount hheld
    rw [if_pos hheld] at hsize
    omega
  · intro hfresh
    rw [if_neg hfresh] at hsize
    omega

/-- After a swap the count is right exactly when the candidate was not held and every removal was saved. -/
theorem SwapPlaced.count_iff {r : Engine × Nat} {location : PathBuf}
    (h : SwapPlaced s e c md n seederFloor probe roll env r location ds)
    (counted : n = e.state.torrents.size) (room : n < u64Max) :
    r.2 = r.1.state.torrents.size ↔ ¬e.state.torrents.Has (hexEncode c.infoHash) ∧
      ∀ d ∈ ds, (env.swap.remove d.infoHash).saved = true := by
  obtain ⟨hds, hnodup, -, hsub, -⟩ := h.displaced
  obtain ⟨d, removed, hswap, hcount⟩ := h.swap
  have hsize := placed_size e ds (hexEncode c.infoHash) rfl (fun d hd => (hds d hd).1) hnodup hswap.torrents
  dsimp only at hsize
  have hremoved : removed = savedRemovals env.swap.remove ds := hswap.count
  have hle := savedRemovals_le env.swap.remove ds
  have hheld : ds.length ≤ e.state.torrents.size := hsub.length_le.trans (List.length_filter_le _ _)
  rw [hcount, saturatingAdd_eq (by omega), hremoved, ← savedRemovals_eq_iff]
  constructor
  · intro hsame
    split at hsize
    next => omega
    next hfresh => exact ⟨hfresh, by omega⟩
  · rintro ⟨hfresh, hall⟩
    rw [if_neg hfresh] at hsize
    omega

/-- After a call that starts with the right count, the count is right exactly when the call does not
miscount. -/
theorem actOnCandidate_count_iff (s : Settings) (e : Engine) (c : Candidate) (n seederFloor : Nat)
    (env : ActEnv) (counted : n = e.state.torrents.size) (room : n < u64Max) :
    let r := actOnCandidate s e c n seederFloor env
    r.2 = r.1.state.torrents.size ↔ ¬Miscounts s e c n seederFloor env := by
  subst counted
  intro r
  by_cases hr : ∃ probe md, ActReaches s e c env probe md
  · obtain ⟨probe, md, hreach⟩ := hr
    simp only [r, actOnCandidate_reached hreach]
    rcases placeCandidate_cases s (fetched s e c env) { c with pieceCount := md.pieceCount } md _
        seederFloor probe (evaluationRoll probe env.roll) env with
      ⟨hstay, hnone⟩ | ⟨loc, h⟩ | ⟨location, ds, h⟩
    · refine iff_of_true (by rw [hstay]; rfl) ?_
      rintro ⟨probe', md', hreach', hcase⟩
      obtain ⟨rfl, rfl⟩ := hreach.unique hreach'
      rcases hcase with ⟨hfills, -⟩ | ⟨ds, ⟨hswap, before, location, after, heq, -, hadmits, -⟩, -⟩
      · have hcount := placeCandidate_of_fills probe' hfills
        rw [hstay] at hcount
        exact absurd hcount (Nat.lt_succ_self _).ne
      · exact hnone hswap location (by rw [heq]; simp) hadmits
    · refine (h.count_iff rfl).trans
        (not_congr ⟨fun hheld => ⟨probe, md, hreach, Or.inl ⟨h.fills, hheld⟩⟩, ?_⟩)
      rintro ⟨probe', md', hreach', hcase⟩
      obtain ⟨rfl, rfl⟩ := hreach.unique hreach'
      rcases hcase with ⟨-, hheld⟩ | ⟨ds, hswap, -⟩
      · exact hheld
      · exact absurd hswap h.fills.not_swapsFor
    · rw [h.count_iff rfl room]
      constructor
      · rintro ⟨hfresh, hall⟩ ⟨probe', md', hreach', hcase⟩
        obtain ⟨rfl, rfl⟩ := hreach.unique hreach'
        rcases hcase with ⟨hfills, -⟩ | ⟨ds', hswap', hbad⟩
        · exact hfills.not_swapsFor h.swapsFor
        · obtain rfl := h.swapsFor.unique hswap'
          obtain ⟨d, hd, hunsaved⟩ := hbad.resolve_left hfresh
          rw [hall d hd] at hunsaved
          cases hunsaved
      · intro hmis
        refine ⟨fun hheld => hmis ⟨probe, md, hreach, Or.inr ⟨ds, h.swapsFor, Or.inl hheld⟩⟩, fun d hd => ?_⟩
        by_contra hunsaved
        rw [Bool.not_eq_true] at hunsaved
        exact hmis ⟨probe, md, hreach, Or.inr ⟨ds, h.swapsFor, Or.inr ⟨d, hd, hunsaved⟩⟩⟩
  · obtain ⟨hstop, hcount⟩ := actOnCandidate_stopped e.state.torrents.size seederFloor
      fun probe md h => hr ⟨probe, md, h⟩
    refine iff_of_true ?_ fun ⟨probe, md, hreach, _⟩ => hr ⟨probe, md, hreach⟩
    rw [hcount]
    rcases hstop with h | h <;> rw [h]
    rfl

/-- A call on a held count that a machine word can still count up, and that it does not miscount. -/
def Counts (s : Settings) (seederFloor : Nat) (x : ScanState) (c : Candidate) (env : ActEnv) : Prop :=
  x.engine.state.torrents.size < u64Max ∧ ¬Miscounts s x.engine c x.heldCount seederFloor env

def HeldCounted (x : CalledScan) : Prop := x.scan.heldCount = x.scan.engine.state.torrents.size

theorem calledStep_heldCounted {x y : CalledScan}
    (step : CalledStep s seederFloor AnyRead (Counts s seederFloor) x y) (h : HeldCounted x) :
    HeldCounted y := by
  cases step with
  | call c rest env next fresh reads permitted =>
    obtain ⟨hengine, hcount, -⟩ := ScanState.act_fresh s seederFloor rest env fresh
    have hroom : x.scan.heldCount < u64Max := h ▸ permitted.1
    have hiff := actOnCandidate_count_iff s x.scan.engine c x.scan.heldCount seederFloor env h hroom
    rw [HeldCounted, CalledScan.call, hengine, hcount]
    exact hiff.mpr permitted.2
  | quiet y step uncalled =>
    obtain ⟨hcount, hheld⟩ := step.quiet_held uncalled
    exact hcount.trans (h.trans hheld.length_eq.symm)

theorem beginScan_heldCounted (s : Settings) (e : Engine) (items : List Item) (env : ScanEnv) :
    HeldCounted ⟨beginScan s e items env, []⟩ := by
  simp only [HeldCounted, beginScan]
  split <;> rfl

/-- A call on a hash that is not held but registered counts up exactly when it adds the hash. -/
theorem actOnCandidate_probe_counted {q : Quarantine}
    (registered : e.state.quarantineGet (hexEncode c.infoHash) = some q)
    (fresh : ¬e.state.torrents.Has (hexEncode c.infoHash)) (counted : n = e.state.torrents.size) :
    let r := actOnCandidate s e c n seederFloor env
    r.2 = r.1.state.torrents.size := by
  intro r
  rcases actOnCandidate_cases s e c n seederFloor env with
    ⟨he, hcount⟩ | ⟨probe, md, hreach, ⟨loc, h⟩ | ⟨location, ds, h⟩⟩
  · rw [hcount, counted]
    rcases he with he | he <;> rw [he]
    rfl
  · exact (FillPlaced.count_iff (e := fetched s e c env) h counted).mpr fresh
  · have hnone := (quarantineGate_passed hreach.1).2 h.reached.1
    rw [registered] at hnone
    cases hnone

theorem reprobeOne_counted {listed : List String} {now : Time} {probes : String → ProbeEnv}
    {acc : Engine × Nat} {hex : String} {q : Quarantine} (spelled : SpelledList listed)
    (registered : (acc.1.state.quarantineGet hex).isSome) (counted : acc.2 = acc.1.state.torrents.size) :
    let r := reprobeOne s listed seederFloor now probes acc (hex, q)
    r.2 = r.1.state.torrents.size := by
  intro r
  rcases reprobeOne_cases s listed seederFloor now probes acc hex q with
    ⟨_, hr⟩ | ⟨torrentCache, c, hc, hget, hlisted, hr⟩
  · simp only [r, hr]
    exact counted
  · have hhex : hexEncode c.infoHash = hex := by rw [hc, hexEncode_decodeHash (spelled hex hlisted)]
    obtain ⟨q', hq⟩ := Option.isSome_iff_exists.mp registered
    simp only [r, hr, State.quarantinePut_torrents]
    exact actOnCandidate_probe_counted (e := { acc.1 with torrentCache }) (hhex.symm ▸ hq)
      (hhex.symm ▸ KeyedList.find_eq_none.mp hget) counted

/-- Over the calls of a scan that do not miscount, the running count is the number of held torrents
after every one of them. Over the calls of a re-probe it always is. -/
theorem heldCount_tracks_state (s : Settings) (seederFloor : Nat) :
    (∀ e items env y, Relation.ReflTransGen (CalledStep s seederFloor AnyRead (Counts s seederFloor))
        ⟨beginScan s e items env, []⟩ y → y.scan.heldCount = y.scan.engine.state.torrents.size) ∧
    ∀ (e : Engine) (listed : List String) (now : Time) (probes : String → ProbeEnv)
      (entries : List (String × Quarantine)), SpelledList listed → entries <+: lapsed e.state now →
      let acc := entries.foldl (reprobeOne s listed seederFloor now probes)
        ({ e with lastCatalog := some listed }, e.state.torrents.size)
      acc.2 = acc.1.state.torrents.size := by
  refine ⟨fun e items env y run => ?_, fun e listed now probes entries spelled hstart => ?_⟩
  · exact run_preserves (P := HeldCounted) calledStep_heldCounted run (beginScan_heldCounted s e items env)
  · have probed : ∀ (entries : List (String × Quarantine)) (acc : Engine × Nat),
        (∀ p ∈ entries, (acc.1.state.quarantineGet p.1).isSome) →
        acc.2 = acc.1.state.torrents.size →
        (entries.foldl (reprobeOne s listed seederFloor now probes) acc).2 =
          (entries.foldl (reprobeOne s listed seederFloor now probes) acc).1.state.torrents.size := by
      intro entries
      induction entries with
      | nil => exact fun _ _ h => h
      | cons p entries ih =>
        intro acc hreg hcount
        obtain ⟨hp, hrest⟩ := List.forall_mem_cons.mp hreg
        obtain ⟨-, hkeeps⟩ := reprobeOne_keeps_held s seederFloor now probes p.2 spelled hp
        exact ih _ (fun p' hp' => hkeeps p'.1 (hrest p' hp')) (reprobeOne_counted spelled hp hcount)
    refine probed entries _ (fun p hp => ?_) rfl
    exact Option.isSome_iff_exists.mpr ⟨p.2, (lapsed_registered (hstart.subset hp)).1⟩

namespace Reference

/-- Room for one torrent, which is taken, so that a candidate has to swap. -/
def full : Settings := { settings with maxTorrents := 1 }

def fullStart : ScanState :=
  beginScan full (engine [held (hexEncode hashB) location] (by decide)) [item hashA] scanEnv

def fullArrived : ScanState :=
  (fullStart.evaluate full (item hashA) evaluateEnv).receive full 0 ⟨"t", hashA, 100 * mib, 2, 1, 0⟩ []

def fullLast : ScanState := fullArrived.finish full 0

def fullEnv (saved : Bool) : ActEnv :=
  { Reference.env true with
    swap := { (Reference.env true).swap with remove := fun _ => ⟨true, true, saved⟩ } }

theorem fullScan_steps {Permits : ScanState → Candidate → ActEnv → Prop} (saved : Bool)
    (permitted : Permits fullLast evaluated (fullEnv saved)) :
    Relation.ReflTransGen (CalledStep full 0 AnyRead Permits) ⟨fullStart, []⟩
      (CalledScan.call full 0 ⟨fullLast, []⟩ evaluated [] (fullEnv saved)) := by
  have evaluates : CalledStep full 0 AnyRead Permits ⟨fullStart, []⟩
      ⟨fullStart.evaluate full (item hashA) evaluateEnv, []⟩ :=
    .quiet ⟨fullStart, []⟩ (fullStart.evaluate full (item hashA) evaluateEnv)
      (.evaluate fullStart (item hashA) evaluateEnv (by decide +kernel) fun _ _ => trivial)
      (fullStart.evaluate_acted _ _)
  have receives : CalledStep full 0 AnyRead Permits
      ⟨fullStart.evaluate full (item hashA) evaluateEnv, []⟩ ⟨fullArrived, []⟩ :=
    .quiet ⟨fullStart.evaluate full (item hashA) evaluateEnv, []⟩ fullArrived
      (.receive (fullStart.evaluate full (item hashA) evaluateEnv) _ [] (by decide +kernel)
        (by decide +kernel) (by decide +kernel))
      (ScanState.receive_acted _ _ _)
  have finishes : CalledStep full 0 AnyRead Permits ⟨fullArrived, []⟩ ⟨fullLast, []⟩ :=
    .quiet ⟨fullArrived, []⟩ fullLast (.finish fullArrived (by decide +kernel) (by decide +kernel)
      (by decide +kernel) (by decide +kernel)) fullArrived.finish_acted
  have calls : CalledStep full 0 AnyRead Permits ⟨fullLast, []⟩
      (CalledScan.call full 0 ⟨fullLast, []⟩ evaluated [] (fullEnv saved)) :=
    .call ⟨fullLast, []⟩ evaluated [] _ (by decide +kernel) (by decide +kernel) (fun _ _ => trivial)
      permitted
  exact (((Relation.ReflTransGen.single evaluates).tail receives).tail finishes).tail calls

end Reference

theorem heldCount_tracks_state_swap :
    let y := CalledScan.call Reference.full 0 ⟨Reference.fullLast, []⟩ Reference.evaluated []
      (Reference.fullEnv true)
    y.scan.engine.state.torrents.size = 1 ∧ y.scan.heldCount = y.scan.engine.state.torrents.size := by
  intro y
  have hiff := actOnCandidate_count_iff Reference.full Reference.fullLast.engine Reference.evaluated
    Reference.fullLast.heldCount 0 (Reference.fullEnv true) (by decide +kernel) (by decide +kernel)
  have counts : Counts Reference.full 0 Reference.fullLast Reference.evaluated (Reference.fullEnv true) :=
    ⟨by decide +kernel, hiff.mp (by decide +kernel)⟩
  obtain ⟨hscan, -⟩ := heldCount_tracks_state Reference.full 0
  exact ⟨by decide +kernel, hscan _ _ _ y (Reference.fullScan_steps true counts)⟩

/-- A swap whose displaced torrent leaves memory without the save: the count stays one too high. -/
theorem heldCount_misses_unsaved_removal :
    let y := CalledScan.call Reference.full 0 ⟨Reference.fullLast, []⟩ Reference.evaluated []
      (Reference.fullEnv false)
    Relation.ReflTransGen (CalledStep Reference.full 0 AnyRead AnyCall) ⟨Reference.fullStart, []⟩ y ∧
      y.scan.heldCount = 2 ∧ y.scan.engine.state.torrents.size = 1 :=
  ⟨Reference.fullScan_steps false trivial, by decide +kernel, by decide +kernel⟩

end KeepAt
