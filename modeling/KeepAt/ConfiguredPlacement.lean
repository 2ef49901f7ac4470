import KeepAt.Daemon
import KeepAt.Reference
import KeepAt.Runs

namespace KeepAt

variable {s : Settings} {e : Engine} {c : Candidate} {md : TorrentMeta} {n seederFloor : Nat}
  {probe : Bool} {roll : F64} {env : ActEnv} {r : Engine × Nat}

/-- The call takes the swap path, and the first held location that admits the swap is not among the
configured ones. -/
def SwapsOutside (s : Settings) (e : Engine) (c : Candidate) (n seederFloor : Nat) (env : ActEnv) :
    Prop :=
  ∃ probe md, ActReaches s e c env probe md ∧
    SwapReached s (fetched s e c env) { c with pieceCount := md.pieceCount } md n seederFloor probe
      (evaluationRoll probe env.roll) env ∧
    ∃ before location after, heldLocations e.state.all = before ++ location :: after ∧
      (∀ l ∈ before, ¬SwapAdmits s (fetched s e c env) e.state.all { c with pieceCount := md.pieceCount }
        md md.totalLength seederFloor (evaluationRoll probe env.roll) env.swap l) ∧
      SwapAdmits s (fetched s e c env) e.state.all { c with pieceCount := md.pieceCount } md
        md.totalLength seederFloor (evaluationRoll probe env.roll) env.swap location ∧
      location ∉ configuredPaths s

theorem addedLocations_self {e e' : Engine} (h : e'.history = e.history) : addedLocations e e' = [] := by
  simp [addedLocations, h]

theorem addedLocations_append {e e' : Engine} {events : List Event}
    (h : e'.history = e.history ++ events) :
    addedLocations e e' = events.filterMap Event.addLocation := by
  simp [addedLocations, h]

theorem FillPlaced.addedLocations {loc : StorageLocation}
    (h : FillPlaced s e c md n seederFloor roll env r loc) : addedLocations e r.1 = [loc.path] :=
  addedLocations_append h.recorded

theorem SwapPlaced.addedLocations {location : PathBuf} {ds : List Torrent}
    (h : SwapPlaced s e c md n seederFloor probe roll env r location ds) :
    addedLocations e r.1 = [location] := by
  obtain ⟨_, _, hswap, -⟩ := h.swap
  exact addedLocations_append hswap.recorded

theorem first_unique {α : Type} {P : α → Prop} {before before' after after' : List α} {x y : α}
    (h : before ++ x :: after = before' ++ y :: after') (hx : P x) (hy : P y)
    (hb : ∀ z ∈ before, ¬P z) (hb' : ∀ z ∈ before', ¬P z) : x = y := by
  rcases List.append_eq_append_iff.mp h with ⟨zs, rfl, hz⟩ | ⟨zs, rfl, hz⟩
  · cases zs with
    | nil => exact (List.cons.inj hz).1
    | cons z zs =>
      obtain ⟨rfl, -⟩ := List.cons.inj hz
      exact absurd hx (hb' _ (by simp))
  · cases zs with
    | nil => exact (List.cons.inj hz).1.symm
    | cons z zs =>
      obtain ⟨rfl, -⟩ := List.cons.inj hz
      exact absurd hy (hb _ (by simp))

/-- A call adds at configured locations only, exactly when it does not swap outside them. -/
theorem actOnCandidate_added_configured_iff (s : Settings) (e : Engine) (c : Candidate)
    (n seederFloor : Nat) (env : ActEnv) :
    (∀ l ∈ addedLocations e (actOnCandidate s e c n seederFloor env).1, l ∈ configuredPaths s) ↔
      ¬SwapsOutside s e c n seederFloor env := by
  by_cases hr : ∃ probe md, ActReaches s e c env probe md
  · obtain ⟨probe, md, hreach⟩ := hr
    have huniq : ∀ {probe' md'}, ActReaches s e c env probe' md' → probe' = probe ∧ md' = md :=
      fun h => ⟨congrArg Prod.snd (h.1.symm.trans hreach.1),
        Option.some.inj (h.2.1.symm.trans hreach.2.1)⟩
    have hhistory : ∀ r : Engine, addedLocations e r = addedLocations (fetched s e c env) r := fun _ => rfl
    rw [actOnCandidate_reached hreach, hhistory]
    rcases placeCandidate_cases s (fetched s e c env) { c with pieceCount := md.pieceCount } md n
        seederFloor probe (evaluationRoll probe env.roll) env with ⟨hr, hnone⟩ | ⟨loc, h⟩ | ⟨location, ds, h⟩
    · rw [hr, addedLocations_self rfl]
      refine iff_of_true (by simp) ?_
      rintro ⟨probe', md', hreach', hswap, before, location, after, heq, -, hadmits, -⟩
      obtain ⟨rfl, rfl⟩ := huniq hreach'
      have hheld : location ∈ heldLocations e.state.all := by simp [heq]
      exact hnone hswap location hheld hadmits
    · rw [h.addedLocations]
      refine iff_of_true ?_ ?_
      · rw [List.forall_mem_singleton]
        exact List.mem_map_of_mem h.configured
      · rintro ⟨probe', md', hreach', hswap, -⟩
        obtain ⟨rfl, rfl⟩ := huniq hreach'
        have hfill := fillTarget_isSome (s := s) (e := fetched s e c env) (n := n)
          (c := { c with pieceCount := md'.pieceCount }) h.configured h.belowCap h.fitsRam h.fitsDisk
        exact (hswap.2 (Option.isSome_iff_exists.mpr hfill)).1 h.succeeds
    · rw [h.addedLocations]
      obtain ⟨_, _, hswap, -⟩ := h.swap
      obtain ⟨before, after, heq, hbefore⟩ := hswap.first
      rw [List.forall_mem_singleton]
      constructor
      · rintro hl ⟨probe', md', hreach', -, before', location', after', heq', hbefore', hadmits', hout⟩
        obtain ⟨rfl, rfl⟩ := huniq hreach'
        have hsame := first_unique (heq.symm.trans heq') hswap.admits hadmits' hbefore hbefore'
        exact hout (hsame ▸ hl)
      · intro hout
        by_contra hl
        exact hout ⟨probe, md, hreach, h.reached, before, location, after, heq, hbefore, hswap.admits, hl⟩
  · obtain ⟨hstop, -⟩ := actOnCandidate_stopped n seederFloor fun probe md h => hr ⟨probe, md, h⟩
    have hnone : addedLocations e (actOnCandidate s e c n seederFloor env).1 = [] := by
      refine addedLocations_self ?_
      rcases hstop with h | h <;> rw [h]
      rfl
    rw [hnone]
    exact iff_of_true (by simp) fun ⟨probe, md, hreach, _⟩ => hr ⟨probe, md, hreach⟩

def SwapsInside (x : Node) (c : Candidate) (seederFloor : Nat) (env : ActEnv) : Prop :=
  ¬SwapsOutside x.settings x.engine c x.heldCount seederFloor env

/-- Every add went to a location configured at the time. -/
def PlacedConfigured (x : Node) : Prop := ∀ p ∈ x.placed, p.1 ∈ p.2

theorem nodeStep_placedConfigured {x y : Node} (step : NodeStep SwapsInside x y)
    (start : PlacedConfigured x) : PlacedConfigured y := by
  cases step with
  | act c seederFloor env permitted =>
    have hadded := (actOnCandidate_added_configured_iff _ _ _ _ _ _).mpr permitted
    intro p hp
    rcases List.mem_append.mp hp with hp | hp
    · exact start p hp
    · obtain ⟨l, hl, rfl⟩ := List.mem_map.mp hp
      exact hadded l hl
  | remove hex env => exact start
  | recount => exact start
  | rehash ts h => exact start
  | restart settings env => exact start

/-- Over restarts, reconfigurations and calls that do not swap outside the configured locations,
every add goes to a location configured at the time. -/
theorem nodeRun_placedConfigured {x y : Node} (run : Relation.ReflTransGen (NodeStep SwapsInside) x y)
    (start : PlacedConfigured x) : PlacedConfigured y :=
  run_preserves (P := PlacedConfigured) nodeStep_placedConfigured run start

theorem nodeRun_placedConfigured_fill :
    let x : Node := ⟨Reference.settings, Reference.engine [] List.nodup_nil, 0, []⟩
    let y := x.act (Reference.candidate Reference.hashA 1) 0 (Reference.env true)
    y.placed.length = 1 ∧ PlacedConfigured y := by
  intro x y
  have inside : SwapsInside x (Reference.candidate Reference.hashA 1) 0 (Reference.env true) := by
    rintro ⟨_, _, -, -, before, location, after, heq, -⟩
    exact absurd heq.symm (List.append_ne_nil_of_right_ne_nil _ (List.cons_ne_nil _ _))
  exact ⟨by decide +kernel,
    nodeRun_placedConfigured (.single (.act x _ _ _ inside)) (by intro p hp; cases hp)⟩

/-- At the cap, the only held torrent sits at a location of an earlier configuration, and the swap
that takes its place is put there. -/
theorem nodeRun_places_outside :
    let s := { Reference.settings with maxTorrents := 1 }
    let old : Torrent := Reference.held (hexEncode Reference.hashB) ["/", "old"]
    let x : Node := ⟨s, Reference.engine [old] (by decide), 0, []⟩
    let y := ((x.restart s ⟨fun _ => none, true, [], fun _ => true⟩).recount).act
      (Reference.candidate Reference.hashA 1) 0 (Reference.env true)
    Relation.ReflTransGen (NodeStep fun _ _ _ _ => True) x y ∧ PlacedConfigured x ∧ ¬PlacedConfigured y := by
  intro s old x y
  refine ⟨((Relation.ReflTransGen.single (.restart x _ _)).tail (.recount _)).tail
    (.act _ _ _ _ trivial), by (intro p hp; cases hp), ?_⟩
  unfold PlacedConfigured
  decide +kernel

end KeepAt
