import KeepAt.HighWater
import KeepAt.Maintenance
import KeepAt.Reference

namespace KeepAt

/-- One verified-bytes reading of a torrent. A refresh brings the scraped seeder count along, a watchdog
pass does not. -/
structure ProgressReading where
  infoHash : String
  seeders : Option Nat
  bytes : Nat
  readAt : Time

def ProgressReading.update (r : ProgressReading) : String × TorrentUpdate :=
  (r.infoHash,
    match r.seeders with
    | none => State.progressUpdate r.bytes r.readAt
    | some seeders => refreshUpdate seeders r.bytes r.readAt)

def ProgressReading.mark (r : ProgressReading) : Nat × Time := (r.bytes, r.readAt)

def marksFor (hex : String) (readings : List ProgressReading) : List (Nat × Time) :=
  (readings.filter fun r => hex = r.infoHash).map ProgressReading.mark

/-- One pass of either writer of the progress marks. The closures of a refresh each read the clock when
they are applied. -/
inductive ProgressPass where
  | watchdog (progress : List (String × Nat)) (now : Time)
  | refresh (readings : List (Refreshed × Time))

namespace ProgressPass

def readings : ProgressPass → List ProgressReading
  | watchdog progress now => progress.map fun p => ⟨p.1, none, p.2, now⟩
  | refresh rs => rs.map fun r => ⟨r.1.infoHash, some r.1.seeders, r.1.progress, r.2⟩

def apply (s : State) (saved : Bool) : ProgressPass → State
  | watchdog progress now => (s.updateProgressMany progress now saved).1
  | refresh rs =>
    (s.updateEach (rs.map fun r => (r.1.infoHash, refreshUpdate r.1.seeders r.1.progress r.2)) saved).1

def run (s : State) (passes : List (ProgressPass × Bool)) : State :=
  passes.foldl (fun s p => p.1.apply s p.2) s

/-- What the passes read of one torrent, in the order they apply it. -/
def marksOf (hex : String) (passes : List (ProgressPass × Bool)) : List (Nat × Time) :=
  marksFor hex (passes.flatMap fun p => p.1.readings)

theorem apply_values (s : State) (saved : Bool) (p : ProgressPass) :
    (p.apply s saved).torrents.values =
      s.torrents.values.map (State.applyUpdates (p.readings.map ProgressReading.update)) := by
  cases p with
  | watchdog progress now =>
    rw [readings, List.map_map]
    exact State.updateProgressMany_values s progress now saved
  | refresh rs =>
    rw [readings, List.map_map]
    exact State.updateEach_values s _ saved

end ProgressPass

namespace State

theorem applyUpdates_append (us vs : List (String × TorrentUpdate)) (t : Torrent) :
    applyUpdates (us ++ vs) t = applyUpdates vs (applyUpdates us t) :=
  List.foldl_append

end State

theorem ProgressPass.run_values (s : State) (passes : List (ProgressPass × Bool)) :
    (run s passes).torrents.values = s.torrents.values.map
      (State.applyUpdates ((passes.flatMap fun p => p.1.readings).map ProgressReading.update)) := by
  induction passes generalizing s with
  | nil => exact (List.map_id _).symm
  | cons p passes ih =>
    have hrest := ih (p.1.apply s p.2)
    rw [ProgressPass.apply_values, List.map_map] at hrest
    rw [List.flatMap_cons, List.map_append]
    refine hrest.trans (List.map_congr_left fun t _ => ?_)
    exact (State.applyUpdates_append _ _ t).symm

/-- A torrent with its progress mark set. -/
def Torrent.withMark (t : Torrent) (mark : Nat × Time) : Torrent :=
  { t with completedPieces := mark.1, lastProgressAt := some mark.2 }

theorem progressUpdate_withMark (bytes : Nat) (now : Time) (t : Torrent) (mark : Nat × Time) :
    (State.progressUpdate bytes now).apply (t.withMark mark) =
      t.withMark (HighWater.raise mark (bytes, now)) := by
  have hgrew : State.progressGrew (t.withMark mark) bytes = decide (mark.1 < bytes) := Bool.or_false _
  simp only [State.progressUpdate, hgrew, decide_eq_true_eq, HighWater.raise]
  split <;> rfl

/-- A reading raises the mark, and only a scraped one also moves the seeder count. -/
theorem ProgressReading.update_withMark (r : ProgressReading) (t : Torrent) (mark : Nat × Time) :
    ∃ seeders, r.update.2.apply (t.withMark mark) =
      { t with lastKnownSeeders := seeders }.withMark (HighWater.raise mark r.mark) := by
  unfold ProgressReading.update
  cases r.seeders with
  | none => exact ⟨t.lastKnownSeeders, progressUpdate_withMark _ _ t mark⟩
  | some seeders => exact ⟨seeders, progressUpdate_withMark _ _ { t with lastKnownSeeders := seeders } mark⟩

theorem applyUpdates_withMark (readings : List ProgressReading) (t : Torrent) (mark : Nat × Time) :
    ∃ seeders, State.applyUpdates (readings.map ProgressReading.update) (t.withMark mark) =
      { t with lastKnownSeeders := seeders }.withMark (HighWater.run mark (marksFor t.infoHash readings)) := by
  induction readings generalizing t mark with
  | nil => exact ⟨t.lastKnownSeeders, rfl⟩
  | cons r readings ih =>
    by_cases hk : t.infoHash = r.infoHash
    · obtain ⟨middle, hstep⟩ := r.update_withMark t mark
      obtain ⟨seeders, hrest⟩ := ih { t with lastKnownSeeders := middle } (HighWater.raise mark r.mark)
      have hfirst : State.applyUpdates ((r :: readings).map ProgressReading.update) (t.withMark mark) =
          State.applyUpdates (readings.map ProgressReading.update) (r.update.2.apply (t.withMark mark)) := by
        simp only [State.applyUpdates, List.map_cons, List.foldl_cons]
        rw [if_pos (show (t.withMark mark).infoHash = r.update.1 from hk)]
      rw [hfirst, hstep, hrest, marksFor, marksFor, List.filter_cons_of_pos (by simpa using hk)]
      exact ⟨seeders, rfl⟩
    · obtain ⟨seeders, hrest⟩ := ih t mark
      have hfirst : State.applyUpdates ((r :: readings).map ProgressReading.update) (t.withMark mark) =
          State.applyUpdates (readings.map ProgressReading.update) (t.withMark mark) := by
        simp only [State.applyUpdates, List.map_cons, List.foldl_cons]
        rw [if_neg (show ¬(t.withMark mark).infoHash = r.update.1 from hk)]
      rw [hfirst, hrest, marksFor, marksFor, List.filter_cons_of_neg (by simpa using hk)]
      exact ⟨seeders, rfl⟩

def Torrent.SameButProgress (t u : Torrent) : Prop :=
  u.infoHash = t.infoHash ∧ u.title = t.title ∧ u.sizeBytes = t.sizeBytes ∧
    u.storageLocation = t.storageLocation ∧ u.addedAt = t.addedAt ∧ u.pieceCount = t.pieceCount ∧
    u.lastConfirmedInCatalogAt = t.lastConfirmedInCatalogAt

namespace State

/-- The entries of a batch as calls of their own, each with its own save. -/
def updateOneByOne (s : State) (entries : List ((String × TorrentUpdate) × Bool)) : State :=
  entries.foldl (fun s e => (s.update e.1.1 e.1.2 e.2).1) s

def progressOneByOne (s : State) (entries : List ((String × Nat) × Bool)) (now : Time) : State :=
  entries.foldl (fun s e => (s.updateProgressMany [e.1] now e.2).1) s

theorem updateOneByOne_maps (s : State) (entries : List ((String × TorrentUpdate) × Bool)) :
    (s.updateOneByOne entries).torrents.values =
        s.torrents.values.map (applyUpdates (entries.map Prod.fst)) ∧
      (s.updateOneByOne entries).quarantined = s.quarantined := by
  induction entries generalizing s with
  | nil => exact ⟨(List.map_id _).symm, rfl⟩
  | cons e entries ih =>
    obtain ⟨hvalues, hquarantined⟩ := ih (s.update e.1.1 e.1.2 e.2).1
    refine ⟨hvalues.trans ?_, hquarantined.trans (by simp [update])⟩
    simp only [update, saveChanged_torrents, KeyedList.modify, List.map_map]
    rfl

theorem progressOneByOne_maps (s : State) (entries : List ((String × Nat) × Bool)) (now : Time) :
    (s.progressOneByOne entries now).torrents.values =
        s.torrents.values.map (applyUpdates (progressUpdates (entries.map Prod.fst) now)) ∧
      (s.progressOneByOne entries now).quarantined = s.quarantined := by
  induction entries generalizing s with
  | nil => exact ⟨(List.map_id _).symm, rfl⟩
  | cons e entries ih =>
    obtain ⟨hvalues, hquarantined⟩ := ih (s.updateProgressMany [e.1] now e.2).1
    refine ⟨hvalues.trans ?_, hquarantined.trans (updateProgressMany_quarantined s _ now _)⟩
    rw [updateProgressMany_values, List.map_map]
    rfl

end State

/-- A held torrent stays held over any passes, with its mark raised by what they read of it. -/
theorem ProgressPass.run_get {s : State} {t : Torrent} {stamp : Time} (held : s.get t.infoHash = some t)
    (stamped : t.lastProgressAt = some stamp) (passes : List (ProgressPass × Bool)) :
    ∃ seeders, (run s passes).get t.infoHash = some ({ t with lastKnownSeeders := seeders }.withMark
      (HighWater.run (t.completedPieces, stamp) (marksOf t.infoHash passes))) := by
  have hself : t = t.withMark (t.completedPieces, stamp) := by
    unfold Torrent.withMark
    rw [← stamped]
  obtain ⟨seeders, hrun⟩ := applyUpdates_withMark (passes.flatMap fun p => p.1.readings) t
    (t.completedPieces, stamp)
  rw [← hself] at hrun
  refine ⟨seeders, KeyedList.find_eq_some.mpr ⟨?_, rfl⟩⟩
  rw [run_values]
  exact List.mem_map.mpr ⟨t, (KeyedList.find_eq_some.mp held).1, hrun⟩

/-- The mark of a held torrent after any passes of both writers is the maximum of where it stood and of
what was read of it, its stamp is the time of the last record, and a batch leaves the maps its entries
would leave one at a time. -/
theorem progress_bookkeeping {s : State} {t : Torrent} {stamp : Time} (held : s.get t.infoHash = some t)
    (stamped : t.lastProgressAt = some stamp) (passes : List (ProgressPass × Bool)) :
    (∃ u, (ProgressPass.run s passes).get t.infoHash = some u ∧
      u.completedPieces =
        ((ProgressPass.marksOf t.infoHash passes).map Prod.fst).foldl max t.completedPieces ∧
      (u.lastProgressAt = some stamp ∧
          (∀ before r after, ProgressPass.marksOf t.infoHash passes = before ++ r :: after →
            ¬HighWater.IsRecord (t.completedPieces, stamp) before r) ∨
        ∃ before r after, ProgressPass.marksOf t.infoHash passes = before ++ r :: after ∧
          HighWater.IsRecord (t.completedPieces, stamp) before r ∧ (∀ q ∈ after, q.1 ≤ r.1) ∧
          u.lastProgressAt = some r.2) ∧
      t.SameButProgress u) ∧
    (∀ (q : State) (entries : List ((String × Nat) × Bool)) (now : Time) (saved : Bool),
      (q.updateProgressMany (entries.map Prod.fst) now saved).1.torrents =
          (q.progressOneByOne entries now).torrents ∧
        (q.updateProgressMany (entries.map Prod.fst) now saved).1.quarantined =
          (q.progressOneByOne entries now).quarantined) ∧
    ∀ (q : State) (entries : List ((String × TorrentUpdate) × Bool)) (saved : Bool),
      (q.updateEach (entries.map Prod.fst) saved).1.torrents = (q.updateOneByOne entries).torrents ∧
        (q.updateEach (entries.map Prod.fst) saved).1.quarantined =
          (q.updateOneByOne entries).quarantined := by
  refine ⟨?_, fun q entries now saved => ?_, fun q entries saved => ?_⟩
  · obtain ⟨seeders, hget⟩ := ProgressPass.run_get held stamped passes
    refine ⟨_, hget, HighWater.run_fst (t.completedPieces, stamp) _, ?_, rfl, rfl, rfl, rfl, rfl, rfl, rfl⟩
    rcases HighWater.run_last_record (t.completedPieces, stamp) (ProgressPass.marksOf t.infoHash passes) with
      ⟨hmark, hnone⟩ | ⟨before, r, after, hsplit, hrec, hafter, hmark⟩
    · exact .inl ⟨congrArg (some ∘ Prod.snd) hmark, hnone⟩
    · exact .inr ⟨before, r, after, hsplit, hrec, hafter, congrArg (some ∘ Prod.snd) hmark⟩
  · obtain ⟨hvalues, hquarantined⟩ := q.progressOneByOne_maps entries now
    rw [hquarantined]
    exact ⟨KeyedList.ext ((State.updateProgressMany_values q _ now saved).trans hvalues.symm),
      State.updateProgressMany_quarantined q _ now saved⟩
  · obtain ⟨hvalues, hquarantined⟩ := q.updateOneByOne_maps entries
    rw [hquarantined]
    exact ⟨KeyedList.ext ((State.updateEach_values q _ saved).trans hvalues.symm),
      State.updateEach_quarantined q _ saved⟩

/-- A growing pass, a refresh that reads less and a growing pass whose save fails. -/
theorem progress_bookkeeping_three :
    ∃ u, (ProgressPass.run (Reference.engine [Reference.held "a" ["d"]] (List.nodup_singleton _)).state
        [(.watchdog [("b", 4), ("a", 5)] 10, true), (.refresh [(⟨"a", 2, 3⟩, 20)], true),
          (.watchdog [("a", 9)] 30, false)]).get "a" = some u ∧ u.completedPieces = 9 := by
  obtain ⟨⟨u, hget, hmax, _⟩, _⟩ := progress_bookkeeping
    (show (Reference.engine [Reference.held "a" ["d"]] (List.nodup_singleton _)).state.get "a" =
      some (Reference.held "a" ["d"]) by decide) (rfl : (Reference.held "a" ["d"]).lastProgressAt = some 0)
    [(.watchdog [("b", 4), ("a", 5)] 10, true), (.refresh [(⟨"a", 2, 3⟩, 20)], true),
      (.watchdog [("a", 9)] 30, false)]
  exact ⟨u, hget, hmax.trans (by decide)⟩

end KeepAt
