import KeepAt.ConfiguredPlacement
import KeepAt.Ledger
import KeepAt.SwapOutcome
import Mathlib.Algebra.Order.BigOperators.Group.Finset

namespace KeepAt

/-- The swap is made at a location where a torrent that is to be displaced has exactly the candidate's
seeders. -/
def SwapsOverTie (s : Settings) (e : Engine) (c : Candidate) (md : TorrentMeta) (sizeBytes : Nat)
    (seederFloor : Nat) (roll : F64) (env : SwapEnv) : Prop :=
  ∃ before location after ds, heldLocations e.state.all = before ++ location :: after ∧
    (∀ l ∈ before, ¬SwapAdmits s e e.state.all c md sizeBytes seederFloor roll env l) ∧
    SwapAdmits s e e.state.all c md sizeBytes seederFloor roll env location ∧
    displaceableAt s e.state.all c md sizeBytes location = some ds ∧
    ∃ d ∈ ds, d.lastKnownSeeders = c.seeders

/-- An engine with the displacements so far: who went in, and who went out for it. -/
structure Swapped where
  engine : Engine
  displaced : List (String × String)

def Swapped.after (x : Swapped) (c : Candidate) (e : Engine) : Swapped :=
  { engine := e
    displaced := x.displaced ++
      ((heldHashes x.engine).filter fun hex => hex ∉ heldHashes e).map (hexEncode c.infoHash, ·) }

/-- A successful swap while the seeder counts stand still, on the torrents that the last one left. They
may be iterated in another order, and metadata may have been read meanwhile. -/
inductive SwapStep (s : Settings) (seeders : String → Nat) (Permits : Engine → Candidate → TorrentMeta →
    Nat → Nat → F64 → SwapEnv → Prop) : Swapped → Swapped → Prop
  | swap (x : Swapped) (e : Engine) (left : e.state.torrents.values.Perm x.engine.state.torrents.values)
      (c : Candidate) (md : TorrentMeta) (sizeBytes seederFloor : Nat) (roll : F64) (env : SwapEnv)
      (counted : c.seeders = seeders (hexEncode c.infoHash))
      (swapped : (trySwap s e c md sizeBytes seederFloor roll env).2.1 = true)
      (permitted : Permits e c md sizeBytes seederFloor roll env) :
      SwapStep s seeders Permits x (x.after c (trySwap s e c md sizeBytes seederFloor roll env).1)

/-- No swap displaces a torrent that has exactly the seeders of its candidate. -/
def Untied (s : Settings) (e : Engine) (c : Candidate) (md : TorrentMeta) (sizeBytes seederFloor : Nat)
    (roll : F64) (env : SwapEnv) : Prop := ¬SwapsOverTie s e c md sizeBytes seederFloor roll env

variable {s : Settings} {e : Engine} {c : Candidate} {md : TorrentMeta} {sizeBytes seederFloor : Nat}
  {roll : F64} {env : SwapEnv} {location : PathBuf} {ds : List Torrent}
  {r : Engine × Bool × SwapDecision F64 × Nat}

theorem displaceableAt_margin (h : displaceableAt s e.state.all c md sizeBytes location = some ds) {d : Torrent}
    (hd : d ∈ ds) : (c.seeders : Int) + s.scan.minSeedMargin ≤ d.lastKnownSeeders := by
  obtain ⟨-, -, hmargin, -⟩ := selectDisplaceable_spec h
  have hclears : (d.lastKnownSeeders : Int) - s.scan.minSeedMargin ≥ c.seeders :=
    of_decide_eq_true (hmargin d hd)
  omega

/-- Every displaced torrent is better seeded than the candidate, except at a tie. -/
theorem SwapAt.strict_iff (margin : 0 ≤ s.scan.minSeedMargin)
    (h : SwapAt s e e.state.all c md sizeBytes seederFloor roll env (heldLocations e.state.all) r location
      ds) :
    (∀ d ∈ ds, c.seeders < d.lastKnownSeeders) ↔ Untied s e c md sizeBytes seederFloor roll env := by
  obtain ⟨before, after, heq, hbefore⟩ := h.first
  constructor
  · rintro hlt ⟨before', location', after', ds', heq', hbefore', hadmits', hsel', d, hd, htie⟩
    obtain rfl := first_unique (heq.symm.trans heq') h.admits hadmits' hbefore hbefore'
    obtain rfl := Option.some.inj (h.selected.symm.trans hsel')
    exact absurd htie (hlt d hd).ne'
  · intro huntied d hd
    have hmargin := displaceableAt_margin h.selected hd
    have hne : d.lastKnownSeeders ≠ c.seeders := fun htie =>
      huntied ⟨before, location, after, ds, heq, hbefore, h.admits, h.selected, d, hd, htie⟩
    omega

theorem untied_of_margin (margin : 1 ≤ s.scan.minSeedMargin) :
    Untied s e c md sizeBytes seederFloor roll env := by
  rintro ⟨before, location, after, ds, -, -, -, hsel, d, hd, htie⟩
  have := displaceableAt_margin hsel hd
  omega

/-- Where one element of a set gives way to a lighter one, the sum of the weights falls. -/
theorem sum_replace_lt {ι : Type*} [DecidableEq ι] {weight : ι → Nat} {held out : Finset ι} {new old : ι}
    (sub : out ⊆ held) (hold : old ∈ out) (lighter : weight new < weight old) :
    ∑ i ∈ insert new held \ out, weight i < ∑ i ∈ held, weight i := by
  have hkept : insert new held \ out ⊆ insert new (held \ out) := by
    intro i hi
    obtain ⟨hi, hout⟩ := Finset.mem_sdiff.mp hi
    exact Finset.mem_insert.mpr ((Finset.mem_insert.mp hi).imp_right fun h => Finset.mem_sdiff.mpr ⟨h, hout⟩)
  have hnew : ∑ i ∈ insert new (held \ out), weight i ≤ weight new + ∑ i ∈ held \ out, weight i := by
    by_cases hm : new ∈ held \ out
    · rw [Finset.insert_eq_of_mem hm]
      omega
    · rw [Finset.sum_insert hm]
  have hold := Finset.single_le_sum (f := weight) (fun _ _ => Nat.zero_le _) hold
  calc ∑ i ∈ insert new held \ out, weight i
      ≤ ∑ i ∈ insert new (held \ out), weight i := Finset.sum_le_sum_of_subset hkept
    _ ≤ weight new + ∑ i ∈ held \ out, weight i := hnew
    _ < ∑ i ∈ out, weight i + ∑ i ∈ held \ out, weight i := by omega
    _ = ∑ i ∈ held, weight i := by rw [add_comm, Finset.sum_sdiff sub]

/-- The stored seeder counts are the ones that stand still. -/
def Counted (seeders : String → Nat) (e : Engine) : Prop :=
  ∀ t ∈ e.state.torrents.values, t.lastKnownSeeders = seeders t.infoHash

theorem SwapAt.heldSet (h : SwapAt s e e.state.all c md sizeBytes seederFloor roll env
    (heldLocations e.state.all) r location ds) :
    heldSet r.1 = insert (hexEncode c.infoHash) (heldSet e) \ (ds.map Torrent.infoHash).toFinset := by
  ext hex
  rw [mem_heldSet, h.torrents, KeyedList.has_eraseAll, KeyedList.has_insert, Finset.mem_sdiff,
    Finset.mem_insert, mem_heldSet, List.mem_toFinset]
  rfl

theorem SwapAt.counted {seeders : String → Nat} (counted : Counted seeders e)
    (hc : c.seeders = seeders (hexEncode c.infoHash))
    (h : SwapAt s e e.state.all c md sizeBytes seederFloor roll env (heldLocations e.state.all) r location
      ds) : Counted seeders r.1 := by
  intro t ht
  rcases ((h.mem t).mp ht).2 with rfl | ⟨ht, -⟩
  · exact hc
  · exact counted t ht

variable {seeders : String → Nat}
  {Permits : Engine → Candidate → TorrentMeta → Nat → Nat → F64 → SwapEnv → Prop}

/-- One step: the swap it makes, at the location and over the torrents it makes it. -/
theorem SwapStep.swapAt {x y : Swapped} (step : SwapStep s seeders Permits x y) :
    ∃ e c md sizeBytes seederFloor roll env r location ds,
      SwapAt s e e.state.all c md sizeBytes seederFloor roll env (heldLocations e.state.all) r location ds ∧
      e.state.torrents.values.Perm x.engine.state.torrents.values ∧ y = x.after c r.1 ∧
      c.seeders = seeders (hexEncode c.infoHash) ∧ Permits e c md sizeBytes seederFloor roll env := by
  cases step with
  | swap e left c md sizeBytes seederFloor roll env counted swapped permitted =>
    rcases trySwap_cases s e c md sizeBytes seederFloor roll env with ⟨-, -, hfailed⟩ | ⟨location, ds, h⟩
    · exact absurd (swapped.symm.trans hfailed) (by simp)
    · exact ⟨e, c, md, sizeBytes, seederFloor, roll, env, _, location, ds, h, left, rfl, counted, permitted⟩

theorem heldSet_perm {e e' : Engine} (h : e'.state.torrents.values.Perm e.state.torrents.values) :
    heldSet e' = heldSet e :=
  heldSet_of_has fun _ => (h.map Torrent.infoHash).mem_iff

/-- What one swap without a tie does: it keeps the counts, takes the sum of the seeders down, and
displaces only better seeded torrents. -/
theorem swapStep_improves (margin : 0 ≤ s.scan.minSeedMargin) {x y : Swapped}
    (step : SwapStep s seeders (Untied s) x y) (counted : Counted seeders x.engine) :
    Counted seeders y.engine ∧
      ∑ hex ∈ heldSet y.engine, seeders hex < ∑ hex ∈ heldSet x.engine, seeders hex ∧
      ∀ p ∈ y.displaced, p ∈ x.displaced ∨ seeders p.1 < seeders p.2 := by
  obtain ⟨e, c, md, sizeBytes, seederFloor, roll, env, r, location, ds, h, hperm, rfl, hc, huntied⟩ :=
    step.swapAt
  have hcounted : Counted seeders e := fun t ht => counted t (hperm.subset ht)
  have hstrict := (h.strict_iff margin).mpr huntied
  obtain ⟨hds, -, hne, -⟩ := displaceableAt_spec h.selected
  have hlighter : ∀ d ∈ ds, seeders (hexEncode c.infoHash) < seeders d.infoHash := by
    intro d hd
    rw [← hc, ← hcounted d (hds d hd).1]
    exact hstrict d hd
  refine ⟨h.counted hcounted hc, ?_, ?_⟩
  · obtain ⟨d, hd⟩ := List.exists_mem_of_ne_nil ds hne
    rw [← heldSet_perm hperm, Swapped.after, h.heldSet]
    refine sum_replace_lt ?_ (List.mem_toFinset.mpr (List.mem_map_of_mem hd)) (hlighter d hd)
    intro hex hm
    obtain ⟨d, hd, rfl⟩ := List.mem_map.mp (List.mem_toFinset.mp hm)
    exact mem_heldSet.mpr (KeyedList.has_of_mem (hds d hd).1)
  · intro p hp
    rcases List.mem_append.mp hp with hp | hp
    · exact Or.inl hp
    · obtain ⟨hex, hm, rfl⟩ := List.mem_map.mp hp
      obtain ⟨hin, hout⟩ := List.mem_filter.mp hm
      have hgone : hex ∉ heldSet r.1 := fun hh => (of_decide_eq_true hout) (List.mem_toFinset.mp hh)
      have hwas : hex ∈ heldSet e := by
        rw [heldSet_perm hperm]
        exact List.mem_toFinset.mpr hin
      rw [h.heldSet, Finset.mem_sdiff, not_and_not_right] at hgone
      obtain ⟨d, hd, rfl⟩ :=
        List.mem_map.mp (List.mem_toFinset.mp (hgone (Finset.mem_insert_of_mem hwas)))
      exact Or.inr (hlighter d hd)

def Improves (seeders : String → Nat) (x : Swapped) : Prop :=
  Counted seeders x.engine ∧ ∀ p ∈ x.displaced, seeders p.1 < seeders p.2

theorem swapStep_keeps_improves (margin : 0 ≤ s.scan.minSeedMargin) {x y : Swapped}
    (step : SwapStep s seeders (Untied s) x y) (h : Improves seeders x) : Improves seeders y := by
  obtain ⟨hcounted, -, hnew⟩ := swapStep_improves margin step h.1
  exact ⟨hcounted, fun p hp => (hnew p hp).elim (h.2 p) id⟩

/-- Under a margin that is not negative, a swap displaces only better seeded torrents exactly when it is
not made over a tie. Over runs of such swaps, with the seeder counts standing still, no held set comes
back, and what was displaced never displaces, over any chain of swaps, what displaced it. -/
theorem swaps_improve_and_never_cycle (margin : 0 ≤ s.scan.minSeedMargin) :
    (∀ e c md sizeBytes seederFloor roll env,
      (trySwap s e c md sizeBytes seederFloor roll env).2.1 = true → ∃ location ds,
        SwapAt s e e.state.all c md sizeBytes seederFloor roll env (heldLocations e.state.all)
          (trySwap s e c md sizeBytes seederFloor roll env) location ds ∧
        ((∀ d ∈ ds, c.seeders < d.lastKnownSeeders) ↔ Untied s e c md sizeBytes seederFloor roll env)) ∧
    ∀ seeders x y, Relation.ReflTransGen (SwapStep s seeders (Untied s)) x y →
      Counted seeders x.engine → x.displaced = [] →
      (∀ z, Relation.TransGen (SwapStep s seeders (Untied s)) y z →
        heldSet z.engine ≠ heldSet y.engine) ∧
      ∀ a b, (a, b) ∈ y.displaced →
        ¬Relation.TransGen (fun p q => (p, q) ∈ y.displaced) b a := by
  refine ⟨?_, ?_⟩
  · intro e c md sizeBytes seederFloor roll env hswapped
    rcases trySwap_cases s e c md sizeBytes seederFloor roll env with ⟨-, -, hfailed⟩ | ⟨location, ds, h⟩
    · exact absurd (hswapped.symm.trans hfailed) (by simp)
    · exact ⟨location, ds, h, h.strict_iff margin⟩
  · intro seeders x y run hcounted hstart
    have improves : Improves seeders y :=
      run_preserves (P := Improves seeders) (swapStep_keeps_improves margin) run
        ⟨hcounted, by simp [hstart]⟩
    refine ⟨fun z hz hsame => ?_, fun a b hab hback => ?_⟩
    · have hdown := run_lt (P := Improves seeders)
        (f := fun u : Swapped => ∑ hex ∈ heldSet u.engine, seeders hex) (swapStep_keeps_improves margin)
        (fun h hu => (swapStep_improves margin h hu.1).2.1) hz improves
      rw [hsame] at hdown
      exact lt_irrefl _ hdown
    · have hup := run_lt (P := fun _ => True) (f := fun hex => OrderDual.toDual (seeders hex))
        (fun _ h => h) (fun {p q} (h : (p, q) ∈ y.displaced) _ => improves.2 (p, q) h) hback trivial
      exact lt_asymm (improves.2 (a, b) hab) hup

namespace Reference

/-- Two torrents, each as large as its file, and two small ones, all with one seeder. -/
def tiedHeld (hash : InfoHash) (sizeBytes : Nat) : Torrent :=
  { held (hexEncode hash) Reference.location with sizeBytes, lastKnownSeeders := 1 }

def smallC : InfoHash := ⟨List.replicate 20 1, rfl⟩

def smallD : InfoHash := ⟨List.replicate 20 2, rfl⟩

def tied : Engine :=
  engine [tiedHeld hashB (100 * mib), tiedHeld smallC (40 * mib), tiedHeld smallD (40 * mib)] (by decide)

def noMargin : Settings :=
  { settings with cfg := { settings.cfg with config := { settings.cfg.config with
      scan := { settings.cfg.config.scan with minSeedMargin := 0 } } } }

end Reference

open Reference in
theorem swaps_improve_and_never_cycle_one :
    let e := engine [held (hexEncode hashB) Reference.location] (by decide)
    let x : Swapped := ⟨e, []⟩
    let y := x.after (candidate hashA 1) (trySwap settings e (candidate hashA 1) (metadata hashA "a")
      (100 * mib) 0 (.ofRat 0) (Reference.env true).swap).1
    y.displaced = [(hexEncode hashA, hexEncode hashB)] ∧
      ¬Relation.TransGen (fun p q => (p, q) ∈ y.displaced) (hexEncode hashB) (hexEncode hashA) := by
  intro e x y
  let seeders := fun hex => if hex = hexEncode hashA then 1 else 20
  have swap : SwapStep settings seeders (Untied settings) x y :=
    .swap x e (.refl _) (candidate hashA 1) (metadata hashA "a") (100 * mib) 0 (.ofRat 0)
      (Reference.env true).swap (by decide +kernel) (by decide +kernel) (untied_of_margin (by decide +kernel))
  have counted : Counted seeders x.engine := by
    unfold Counted
    decide +kernel
  have hdisplaced : y.displaced = [(hexEncode hashA, hexEncode hashB)] := by decide +kernel
  obtain ⟨-, hruns⟩ := swaps_improve_and_never_cycle (s := settings) (by decide +kernel)
  obtain ⟨-, hchain⟩ := hruns seeders x y (.single swap) counted rfl
  exact ⟨hdisplaced, hchain _ _ (by rw [hdisplaced]; exact List.mem_singleton_self _)⟩

open Reference in
/-- At margin zero one torrent takes the place of another with as many seeders, and is later displaced
by it. -/
theorem swaps_cycle_at_tie :
    let a := candidate hashA 1
    let b := candidate hashB 1
    let swap := (Reference.env true).swap
    let x : Swapped := ⟨tied, []⟩
    let y := x.after a (trySwap noMargin tied a (metadata hashA "a") (100 * mib) 0 (.ofRat 0) swap).1
    let e := { y.engine with torrentCache := tied.torrentCache }
    let z := y.after b (trySwap noMargin e b (metadata hashB "b") (100 * mib) 0 (.ofRat 0) swap).1
    0 ≤ noMargin.scan.minSeedMargin ∧ Counted (fun _ => 1) x.engine ∧
      Relation.ReflTransGen (SwapStep noMargin (fun _ => 1) fun _ _ _ _ _ _ _ => True) x z ∧
      (hexEncode hashA, hexEncode hashB) ∈ z.displaced ∧
      (hexEncode hashB, hexEncode hashA) ∈ z.displaced := by
  intro a b swap x y e z
  have first : SwapStep noMargin (fun _ => 1) (fun _ _ _ _ _ _ _ => True) x y :=
    .swap x tied (.refl _) a (metadata hashA "a") (100 * mib) 0 (.ofRat 0) swap (by decide +kernel)
      (by decide +kernel) trivial
  have second : SwapStep noMargin (fun _ => 1) (fun _ _ _ _ _ _ _ => True) y z :=
    .swap y e (.refl _) b (metadata hashB "b") (100 * mib) 0 (.ofRat 0) swap (by decide +kernel)
      (by decide +kernel) trivial
  refine ⟨by decide +kernel, ?_, (Relation.ReflTransGen.single first).tail second, ?_, ?_⟩
  · unfold Counted
    decide +kernel
  · decide +kernel
  · decide +kernel

end KeepAt
