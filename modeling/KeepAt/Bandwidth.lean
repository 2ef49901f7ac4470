import KeepAt.Config
import Mathlib.Algebra.BigOperators.Group.List.Basic
import Mathlib.Data.List.Chain

namespace KeepAt

def day : Duration := secs 86400

def maxEntries : Nat := 1500

/-- The bytes moved between two ticks, over exactly the span between them. -/
structure BandwidthEntry where
  start : Nat
  span : Duration
  up : Nat
  down : Nat
  deriving DecidableEq

def BandwidthEntry.stop (e : BandwidthEntry) : Nat := e.start + e.span

/-- A reading of the session's cumulative counters. -/
structure Tick where
  now : Nat
  upTotal : Nat
  downTotal : Nat
  deriving DecidableEq

structure RateTracker where
  entries : List BandwidthEntry
  lastUp : Nat
  lastDown : Nat
  lastTick : Nat
  started : Nat

namespace RateTracker

def new (start : Tick) : RateTracker :=
  { entries := [], lastUp := start.upTotal, lastDown := start.downTotal, lastTick := start.now,
    started := start.now }

/-- What a tick adds to the log: nothing over an empty span, and a span without traffic only while the log is
empty. -/
def pushed (tr : RateTracker) (t : Tick) : Option BandwidthEntry :=
  let span := t.now - tr.lastTick
  let up := t.upTotal - tr.lastUp
  let down := t.downTotal - tr.lastDown
  if span = 0 then none
  else if up > 0 ∨ down > 0 ∨ tr.entries = [] then some ⟨tr.lastTick, span, up, down⟩
  else none

/-- The two pruning loops, which take entries off the front. -/
def pruned (now : Nat) (entries : List BandwidthEntry) : List BandwidthEntry :=
  let kept := entries.dropWhile fun e => decide (now - e.stop > day)
  kept.drop (kept.length - maxEntries)

def tick (tr : RateTracker) (t : Tick) : RateTracker :=
  { tr with
    lastUp := t.upTotal
    lastDown := t.downTotal
    lastTick := t.now
    entries := if t.now - tr.lastTick = 0 then tr.entries else pruned t.now (tr.entries ++ (tr.pushed t).toList) }

/-- A tick next to everything ever recorded, the pruned entries included. -/
def observe (acc : RateTracker × List BandwidthEntry) (t : Tick) : RateTracker × List BandwidthEntry :=
  (acc.1.tick t, acc.2 ++ (acc.1.pushed t).toList)

def run (start : Tick) (ticks : List Tick) : RateTracker × List BandwidthEntry :=
  ticks.foldl observe (new start, [])

theorem pruned_suffix (now : Nat) (entries : List BandwidthEntry) : pruned now entries <:+ entries :=
  (List.drop_suffix _ _).trans (List.dropWhile_suffix _)

theorem pruned_length (now : Nat) (entries : List BandwidthEntry) :
    (pruned now entries).length ≤ maxEntries := by
  rw [pruned, List.length_drop]
  omega

end RateTracker

/-- No counter and no clock goes back. -/
def Tick.NotBefore (a b : Tick) : Prop :=
  a.now ≤ b.now ∧ a.upTotal ≤ b.upTotal ∧ a.downTotal ≤ b.downTotal

/-- Counters that grew between two ticks of the same time. -/
def missed (counter : Tick → Nat) : Tick → List Tick → Nat
  | _, [] => 0
  | a, b :: rest => (if a.now = b.now then counter b - counter a else 0) + missed counter b rest

/-- A log of disjoint spans in time order, and what it accounts for. -/
structure Accounts (start last : Tick) (missedUp missedDown : Nat)
    (acc : RateTracker × List BandwidthEntry) : Prop where
  started : acc.1.started = start.now
  lastUp : acc.1.lastUp = last.upTotal
  lastDown : acc.1.lastDown = last.downTotal
  lastTick : acc.1.lastTick = last.now
  began : start.now ≤ last.now
  ordered : acc.2.Pairwise fun a b => a.stop ≤ b.start
  inside : ∀ e ∈ acc.2, 0 < e.span ∧ start.now ≤ e.start ∧ e.stop ≤ last.now
  kept : acc.1.entries <:+ acc.2
  capped : acc.1.entries.length ≤ maxEntries
  up : (acc.2.map BandwidthEntry.up).sum + missedUp + start.upTotal = last.upTotal
  down : (acc.2.map BandwidthEntry.down).sum + missedDown + start.downTotal = last.downTotal

theorem accounts_new (start : Tick) : Accounts start start 0 0 (RateTracker.new start, []) where
  started := rfl
  lastUp := rfl
  lastDown := rfl
  lastTick := rfl
  began := le_rfl
  ordered := List.Pairwise.nil
  inside := by simp
  kept := List.suffix_rfl
  capped := Nat.zero_le _
  up := by simp
  down := by simp

/-- A tick at the time of the last one records nothing. -/
theorem pushed_of_same {start last t : Tick} {m n : Nat} {acc : RateTracker × List BandwidthEntry}
    (h : Accounts start last m n acc) (same : last.now = t.now) : acc.1.pushed t = none := by
  simp only [RateTracker.pushed, h.lastTick, same, Nat.sub_self, if_true]

/-- A later tick records all the growth, over the span since the last one. -/
theorem pushed_of_later {start last t : Tick} {m n : Nat} {acc : RateTracker × List BandwidthEntry}
    (h : Accounts start last m n acc) (later : last.now < t.now) :
    (∃ e, acc.1.pushed t = some e ∧ e.start = last.now ∧ e.stop = t.now ∧ 0 < e.span ∧
      e.up = t.upTotal - last.upTotal ∧ e.down = t.downTotal - last.downTotal) ∨
    acc.1.pushed t = none ∧ t.upTotal - last.upTotal = 0 ∧ t.downTotal - last.downTotal = 0 := by
  have hspan : ¬t.now - last.now = 0 := by omega
  simp only [RateTracker.pushed, h.lastTick, h.lastUp, h.lastDown, if_neg hspan]
  split
  · refine .inl ⟨_, rfl, rfl, ?_, Nat.pos_of_ne_zero hspan, rfl, rfl⟩
    show last.now + (t.now - last.now) = t.now
    omega
  · exact .inr ⟨rfl, by omega, by omega⟩

/-- A tick at the time of the last one leaves the log alone and forgets the growth since then. -/
theorem accounts_same {start last t : Tick} {m n : Nat} {acc : RateTracker × List BandwidthEntry}
    (h : Accounts start last m n acc) (after : last.NotBefore t) (same : last.now = t.now) :
    Accounts start t (m + (t.upTotal - last.upTotal)) (n + (t.downTotal - last.downTotal))
      (RateTracker.observe acc t) := by
  obtain ⟨-, hup, hdown⟩ := after
  have hpushed := pushed_of_same h same
  have hspan : t.now - acc.1.lastTick = 0 := by rw [h.lastTick, same]; exact Nat.sub_self _
  have hlog : (RateTracker.observe acc t).2 = acc.2 := by
    rw [RateTracker.observe, hpushed]
    exact List.append_nil _
  have hentries : (RateTracker.observe acc t).1.entries = acc.1.entries := if_pos hspan
  have hsumUp := h.up
  have hsumDown := h.down
  refine ⟨h.started, rfl, rfl, rfl, same ▸ h.began, hlog ▸ h.ordered, ?_, ?_, ?_, ?_, ?_⟩
  · rw [hlog, ← same]
    exact h.inside
  · rw [hlog, hentries]
    exact h.kept
  · rw [hentries]
    exact h.capped
  · rw [hlog]
    omega
  · rw [hlog]
    omega

/-- A later tick accounts for all the growth since the last one. -/
theorem accounts_later {start last t : Tick} {m n : Nat} {acc : RateTracker × List BandwidthEntry}
    (h : Accounts start last m n acc) (after : last.NotBefore t) (later : last.now < t.now) :
    Accounts start t m n (RateTracker.observe acc t) := by
  obtain ⟨-, hup, hdown⟩ := after
  have hspan : ¬t.now - acc.1.lastTick = 0 := by rw [h.lastTick]; omega
  have hentries : (RateTracker.observe acc t).1.entries =
      RateTracker.pruned t.now (acc.1.entries ++ (acc.1.pushed t).toList) := if_neg hspan
  have hbegan := h.began
  have hkept : (RateTracker.observe acc t).1.entries <:+ (RateTracker.observe acc t).2 := by
    rw [hentries]
    obtain ⟨before, hbefore⟩ := h.kept
    refine (RateTracker.pruned_suffix _ _).trans ⟨before, ?_⟩
    rw [← List.append_assoc, hbefore, RateTracker.observe]
  have hcapped : (RateTracker.observe acc t).1.entries.length ≤ maxEntries := by
    rw [hentries]
    exact RateTracker.pruned_length _ _
  have hearlier : ∀ a ∈ acc.2, 0 < a.span ∧ start.now ≤ a.start ∧ a.stop ≤ t.now := fun a ha =>
    ⟨(h.inside a ha).1, (h.inside a ha).2.1, (h.inside a ha).2.2.trans later.le⟩
  have hsumUp := h.up
  have hsumDown := h.down
  rcases pushed_of_later h later with ⟨e, hpushed, hstart, hstop, hpos, heup, hedown⟩ | ⟨hpushed, hnoUp, hnoDown⟩
  · have hlog : (RateTracker.observe acc t).2 = acc.2 ++ [e] := by rw [RateTracker.observe, hpushed]; rfl
    refine ⟨h.started, rfl, rfl, rfl, by omega, ?_, ?_, hkept, hcapped, ?_, ?_⟩
    · rw [hlog]
      refine List.pairwise_append.mpr ⟨h.ordered, List.pairwise_singleton _ _, fun a ha b hb => ?_⟩
      rw [List.mem_singleton.mp hb, hstart]
      exact (h.inside a ha).2.2
    · rw [hlog]
      intro a ha
      rcases List.mem_append.mp ha with ha | ha
      · exact hearlier a ha
      · rw [List.mem_singleton.mp ha]
        exact ⟨hpos, by omega, by omega⟩
    · rw [hlog, List.map_append, List.sum_append, List.map_singleton, List.sum_singleton, heup]
      omega
    · rw [hlog, List.map_append, List.sum_append, List.map_singleton, List.sum_singleton, hedown]
      omega
  · have hlog : (RateTracker.observe acc t).2 = acc.2 := by
      rw [RateTracker.observe, hpushed]
      exact List.append_nil _
    refine ⟨h.started, rfl, rfl, rfl, by omega, hlog ▸ h.ordered, ?_, hkept, hcapped, ?_, ?_⟩
    · rw [hlog]
      exact hearlier
    · rw [hlog]
      omega
    · rw [hlog]
      omega

/-- The reading a run of ticks ends at. -/
def lastOf (last : Tick) (ticks : List Tick) : Tick := ticks.getLast?.getD last

theorem lastOf_cons (last t : Tick) (ticks : List Tick) : lastOf last (t :: ticks) = lastOf t ticks := by
  rw [lastOf, lastOf, List.getLast?_cons, Option.getD_some]

theorem accounts_foldl {start last : Tick} {m n : Nat} {acc : RateTracker × List BandwidthEntry}
    (h : Accounts start last m n acc) {ticks : List Tick} (chain : (last :: ticks).IsChain Tick.NotBefore) :
    Accounts start (lastOf last ticks) (m + missed Tick.upTotal last ticks) (n + missed Tick.downTotal last ticks)
      (ticks.foldl RateTracker.observe acc) := by
  induction ticks generalizing last m n acc with
  | nil => exact h
  | cons t ticks ih =>
    obtain ⟨after, rest⟩ := List.isChain_cons_cons.mp chain
    rw [lastOf_cons, List.foldl_cons, missed, missed]
    by_cases same : last.now = t.now
    · have hstep := ih (accounts_same h after same) rest
      rw [if_pos same, if_pos same, ← Nat.add_assoc, ← Nat.add_assoc]
      exact hstep
    · have hstep := ih (accounts_later h after (lt_of_le_of_ne after.1 same)) rest
      rw [if_neg same, if_neg same, Nat.zero_add, Nat.zero_add]
      exact hstep

theorem missed_eq_zero_iff {counter : Tick → Nat} {last : Tick} {ticks : List Tick}
    (chain : (last :: ticks).IsChain fun a b => counter a ≤ counter b) :
    missed counter last ticks = 0 ↔
      (last :: ticks).IsChain fun a b => a.now = b.now → counter a = counter b := by
  induction ticks generalizing last with
  | nil => simp [missed]
  | cons t ticks ih =>
    obtain ⟨hle, rest⟩ := List.isChain_cons_cons.mp chain
    rw [missed, Nat.add_eq_zero_iff, ih rest, List.isChain_cons_cons]
    refine and_congr_left fun _ => ?_
    by_cases same : last.now = t.now
    · rw [if_pos same]
      constructor
      · intro hzero _
        omega
      · intro heq
        have := heq same
        omega
    · rw [if_neg same]
      exact iff_of_true rfl fun hnow => absurd hnow same

/-- The log after a run: disjoint spans in time order within the run, of which a bounded end is kept, and the
growth of both counters in the sums over everything recorded. -/
structure Conserves (start : Tick) (ticks : List Tick) : Prop where
  ordered : (RateTracker.run start ticks).2.Pairwise fun a b => a.stop ≤ b.start
  inside : ∀ e ∈ (RateTracker.run start ticks).2,
    0 < e.span ∧ start.now ≤ e.start ∧ e.stop ≤ (RateTracker.run start ticks).1.lastTick
  kept : (RateTracker.run start ticks).1.entries <:+ (RateTracker.run start ticks).2
  capped : (RateTracker.run start ticks).1.entries.length ≤ 1500
  up : ((RateTracker.run start ticks).2.map BandwidthEntry.up).sum =
    (lastOf start ticks).upTotal - start.upTotal
  down : ((RateTracker.run start ticks).2.map BandwidthEntry.down).sum =
    (lastOf start ticks).downTotal - start.downTotal

/-- Every byte is in the log exactly when no counter grew between two ticks of the same time. -/
theorem bandwidth_conserves_iff {start : Tick} {ticks : List Tick}
    (chain : (start :: ticks).IsChain Tick.NotBefore) :
    Conserves start ticks ↔ (start :: ticks).IsChain fun a b =>
      a.now = b.now → a.upTotal = b.upTotal ∧ a.downTotal = b.downTotal := by
  have h := accounts_foldl (accounts_new start) chain
  rw [Nat.zero_add, Nat.zero_add] at h
  have hup := missed_eq_zero_iff (chain.imp fun _ _ hle => hle.2.1)
  have hdown := missed_eq_zero_iff (chain.imp fun _ _ hle => hle.2.2)
  have hsumUp := h.up
  have hsumDown := h.down
  have hboth : ((start :: ticks).IsChain fun a b =>
      a.now = b.now → a.upTotal = b.upTotal ∧ a.downTotal = b.downTotal) ↔
      missed Tick.upTotal start ticks = 0 ∧ missed Tick.downTotal start ticks = 0 := by
    rw [hup, hdown, List.isChain_iff_getElem, List.isChain_iff_getElem, List.isChain_iff_getElem]
    constructor
    · intro hc
      exact ⟨fun i hi hnow => (hc i hi hnow).1, fun i hi hnow => (hc i hi hnow).2⟩
    · rintro ⟨hu, hd⟩ i hi hnow
      exact ⟨hu i hi hnow, hd i hi hnow⟩
  rw [hboth]
  constructor
  · rintro ⟨-, -, -, -, hcu, hcd⟩
    unfold RateTracker.run at hcu hcd
    constructor <;> omega
  · rintro ⟨hu, hd⟩
    refine ⟨h.ordered, ?_, h.kept, h.capped, ?_, ?_⟩
    · intro e he
      obtain ⟨hpos, hfrom, hto⟩ := h.inside e he
      exact ⟨hpos, hfrom, h.lastTick ▸ hto⟩
    · unfold RateTracker.run
      omega
    · unfold RateTracker.run
      omega

theorem bandwidth_conserves_two : Conserves ⟨0, 7, 0⟩ [⟨10, 107, 5⟩, ⟨10, 107, 5⟩, ⟨30, 107, 9⟩] :=
  (bandwidth_conserves_iff (by unfold Tick.NotBefore; decide)).mpr (by decide)

/-- Bytes that arrive between two ticks of one instant are in no entry, also not later. -/
theorem bandwidth_loses_same_instant :
    [⟨0, 0, 0⟩, ⟨0, 100, 0⟩, ⟨10, 150, 0⟩].IsChain Tick.NotBefore ∧
      (RateTracker.run ⟨0, 0, 0⟩ [⟨0, 100, 0⟩, ⟨10, 150, 0⟩]).2 = [⟨0, 10, 50, 0⟩] ∧
      ¬Conserves ⟨0, 0, 0⟩ [⟨0, 100, 0⟩, ⟨10, 150, 0⟩] := by
  refine ⟨by unfold Tick.NotBefore; decide, by decide, fun h => ?_⟩
  exact absurd h.up (by decide)

end KeepAt
