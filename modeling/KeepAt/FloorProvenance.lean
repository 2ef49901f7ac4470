import KeepAt.AdmissionIntegrity
import KeepAt.FloorRun

namespace KeepAt

variable {s : Settings} {x y : FloorNode}

/-- The last completed scan that evaluated anything. -/
def lastEvaluated (completed : List Walk) : Option Walk :=
  (completed.filter fun w => !w.evaluated.isEmpty).getLast?

def Walk.seeders (w : Walk) : List Nat := w.evaluated.map Evaluated.seeders

def floorAfter (initial : Nat) (completed : List Walk) : Nat :=
  match lastEvaluated completed with
  | none => initial
  | some w => seederFloor w.seeders

theorem lastEvaluated_concat_empty {completed : List Walk} {w : Walk} (h : w.evaluated = []) :
    lastEvaluated (completed ++ [w]) = lastEvaluated completed := by
  simp [lastEvaluated, List.filter_append, h]

theorem lastEvaluated_concat {completed : List Walk} {w : Walk} (h : w.evaluated ≠ []) :
    lastEvaluated (completed ++ [w]) = some w := by
  simp [lastEvaluated, List.filter_append, h]

/-- The evaluation writes back no floor but the one given. -/
def Evaluation.Carries (t : Evaluation) (floor : Nat) : Prop := ∀ f, t.seederFloor = some f → f = floor

/-- The workers are joined before every item is evaluated at shutdown only. -/
def Evaluation.Joins (t : Evaluation) (shutdown : Bool) : Prop :=
  t.finished = true → t.pending = [] ∨ shutdown = true

structure EvaluationKept (shutdown : Bool) (file file' : Option Snapshot) (t t' : Evaluation) : Prop where
  stored : storedFloor file' = storedFloor file
  carries : t'.Carries (storedFloor file)
  joins : t.Joins shutdown → t'.Joins shutdown
  finished : t.finished = true → t'.finished = true

theorem evaluationStep_kept {shutdown : Bool} {file file' : Option Snapshot} {t t' : Evaluation}
    {sent : Option Evaluated} (step : EvaluationStep s shutdown file t file' t' sent)
    (carries : t.Carries (storedFloor file)) : EvaluationKept shutdown file file' t t' := by
  cases step with
  | load unloaded => exact ⟨rfl, fun f hf => (Option.some.inj hf).symm, id, id⟩
  | save floor saved loaded running =>
    have hfloor : (t.progress floor).seederFloor = storedFloor file := carries floor loaded
    exact ⟨storedFloor_saveSnapshot hfloor saved, carries, id, id⟩
  | evaluate before after item cache env loaded pending =>
    refine ⟨rfl, carries, fun joins hfinished => ?_, id⟩
    have hstop := (joins hfinished).resolve_left fun hnil => by simp [pending] at hnil
    exact Or.inr hstop
  | finish loaded walked => exact ⟨rfl, carries, fun _ _ => walked, fun _ => rfl⟩

structure WalkSound (floor : Nat) (shutdown : Bool) (w : Walk) : Prop where
  starts : w.seederFloor = floor
  carries : w.evaluation.Carries floor
  accounted : w.floorAccum ++ w.channel.map Evaluated.seeders = w.seeders
  joins : w.evaluation.Joins shutdown
  joined : w.evalDone = true → w.evaluation.finished = true

/-- A scan with nothing left to evaluate or to receive, and its evaluation joined. -/
structure WalkDone (floor : Nat) (detached : List Evaluation) (w : Walk) : Prop where
  starts : w.seederFloor = floor
  accounted : w.floorAccum = w.seeders
  walked : w.evaluation.pending = []
  alone : detached = []

def PhaseSound (floor : Nat) (shutdown : Bool) (detached : List Evaluation) : ScanPhase → Prop
  | .idle => True
  | .starting _ f => f = floor
  | .refreshed _ f => f = floor
  | .walking w => WalkSound floor shutdown w
  | .finishing w => WalkDone floor detached w

structure FloorSound (initial : Nat) (x : FloorNode) : Prop where
  stored : storedFloor x.file = floorAfter initial x.completed
  walked : ∀ w ∈ x.completed, w.evaluation.pending = []
  carries : ∀ t ∈ x.detached, t.Carries (storedFloor x.file)
  stale : x.shutdown = false → x.detached = []
  phase : PhaseSound (storedFloor x.file) x.shutdown x.detached x.phase

variable {initial : Nat}

theorem FloorSound.atPhase {phase : ScanPhase} (h : FloorSound initial x) (hp : x.phase = phase) :
    PhaseSound (storedFloor x.file) x.shutdown x.detached phase := hp ▸ h.phase

theorem FloorSound.walking {w : Walk} (h : FloorSound initial x) (walking : x.phase = .walking w) :
    WalkSound (storedFloor x.file) x.shutdown w := h.atPhase walking

/-- A step that leaves the stored floor alone. -/
theorem FloorSound.keep (h : FloorSound initial x) (stored : storedFloor y.file = storedFloor x.file)
    (completed : y.completed = x.completed) (carries : ∀ t ∈ y.detached, t.Carries (storedFloor x.file))
    (stale : y.shutdown = false → y.detached = [])
    (phase : PhaseSound (storedFloor x.file) y.shutdown y.detached y.phase) : FloorSound initial y where
  stored := by rw [stored, completed, h.stored]
  walked := completed ▸ h.walked
  carries := stored ▸ carries
  stale := stale
  phase := stored ▸ phase

theorem FloorSound.idle (h : FloorSound initial x) : FloorSound initial { x with phase := .idle } :=
  h.keep rfl rfl h.carries h.stale trivial

theorem WalkSound.take {floor : Nat} {shutdown : Bool} {w : Walk} {ev : Evaluated} {rest : List Evaluated}
    (h : WalkSound floor shutdown w) (arrived : w.channel = ev :: rest) :
    WalkSound floor shutdown (w.take ev rest) := by
  refine ⟨h.starts, h.carries, ?_, h.joins, h.joined⟩
  have haccounted := h.accounted
  rw [arrived, List.map_cons, List.append_cons] at haccounted
  exact haccounted

theorem WalkSound.send {shutdown : Bool} {file file' : Option Snapshot} {w : Walk} {t : Evaluation}
    (h : WalkSound (storedFloor file) shutdown w) (kept : EvaluationKept shutdown file file' w.evaluation t)
    (sent : Option Evaluated) : WalkSound (storedFloor file) shutdown (w.send t sent) := by
  refine ⟨h.starts, kept.carries, ?_, kept.joins h.joins, fun done => kept.finished (h.joined done)⟩
  have haccounted := h.accounted
  simp only [Walk.send, Walk.seeders, List.map_append] at haccounted ⊢
  rw [← List.append_assoc, haccounted]

theorem PhaseSound.signal {floor : Nat} {shutdown : Bool} {detached : List Evaluation} {phase : ScanPhase}
    (h : PhaseSound floor shutdown detached phase) : PhaseSound floor true detached phase := by
  cases phase with
  | idle => trivial
  | starting _ _ => exact h
  | refreshed _ _ => exact h
  | walking w => exact ⟨h.starts, h.carries, h.accounted, fun _ => Or.inr rfl, h.joined⟩
  | finishing w => exact h

theorem PhaseSound.detached {floor : Nat} {shutdown : Bool} {ts ts' : List Evaluation} {phase : ScanPhase}
    (h : PhaseSound floor shutdown ts phase) (running : ts ≠ []) : PhaseSound floor shutdown ts' phase := by
  cases phase with
  | idle => trivial
  | starting _ _ => exact h
  | refreshed _ _ => exact h
  | walking w => exact h
  | finishing w => exact absurd h.alone running

theorem begin_sound (h : FloorSound initial x) (now : Time) (saved : Bool) :
    FloorSound initial (x.begin now saved) := by
  let start : Snapshot := { scanStartedAt := some now, seederFloor := (loadSnapshot x.file).seederFloor }
  have hstart : start.seederFloor = storedFloor x.file := rfl
  refine h.keep (storedFloor_saveSnapshot hstart saved) rfl h.carries h.stale ?_
  cases saved with
  | true => rfl
  | false => trivial

theorem dispatch_sound {now : Time} {floor : Nat} (h : FloorSound initial x)
    (refreshed : x.phase = .refreshed now floor) (held : List String) (items : List Item) (saved : Bool) :
    FloorSound initial (x.dispatch s now floor held items saved) := by
  have hfloor : floor = storedFloor x.file := h.atPhase refreshed
  let start : Snapshot :=
    { scanStartedAt := some now, totalCandidates := countPending s held items, seederFloor := floor }
  have hstart : start.seederFloor = storedFloor x.file := hfloor
  refine h.keep (storedFloor_saveSnapshot hstart saved) rfl h.carries h.stale ?_
  cases saved with
  | true => exact ⟨hfloor, nofun, rfl, nofun, nofun⟩
  | false => trivial

theorem interrupt_sound (h : FloorSound initial x) (stopping : x.shutdown = true) :
    FloorSound initial x.interrupt := by
  unfold FloorNode.interrupt
  split
  next w walking =>
    refine h.keep rfl rfl (fun t ht => ?_) (fun running => ?_) trivial
    · rcases List.mem_cons.mp ht with rfl | ht
      · exact (h.walking walking).carries
      · exact h.carries t ht
    · rw [stopping] at running
      cases running
  next => exact h.idle

theorem receive_sound {w : Walk} {ev : Evaluated} {rest : List Evaluated} (h : FloorSound initial x)
    (walking : x.phase = .walking w) (arrived : w.channel = ev :: rest) :
    FloorSound initial (x.receive w ev rest) := by
  unfold FloorNode.receive
  split
  next stopping => exact interrupt_sound h stopping
  next => exact h.keep rfl rfl h.carries h.stale ((h.walking walking).take arrived)

theorem leave_sound {w : Walk} (h : FloorSound initial x) (walking : x.phase = .walking w)
    (done : w.evalDone = true) (drained : w.channel = []) :
    FloorSound initial { x with phase := if x.shutdown then .idle else .finishing w } := by
  have hwalk := h.walking walking
  refine h.keep rfl rfl h.carries h.stale ?_
  cases hshutdown : x.shutdown with
  | true => trivial
  | false =>
    have hpending := (hwalk.joins (hwalk.joined done)).resolve_right (by simp [hshutdown])
    have haccounted := hwalk.accounted
    rw [drained, List.map_nil, List.append_nil] at haccounted
    exact ⟨hwalk.starts, haccounted, hpending, h.stale hshutdown⟩

theorem WalkDone.floor_eq {floor : Nat} {detached : List Evaluation} {w : Walk}
    (h : WalkDone floor detached w) :
    w.floor = if w.evaluated.isEmpty then floor else seederFloor w.seeders := by
  have hempty : w.seeders.isEmpty = w.evaluated.isEmpty := List.isEmpty_map
  rw [Walk.floor, h.accounted, hempty, h.starts]

theorem complete_sound {w : Walk} (h : FloorSound initial x) (finishing : x.phase = .finishing w) (now : Time)
    (saved : Bool) : FloorSound initial (x.complete w now saved) := by
  have hdone : WalkDone (storedFloor x.file) x.detached w := h.atPhase finishing
  cases saved with
  | false => exact h.keep rfl rfl h.carries h.stale trivial
  | true =>
    have hwritten : storedFloor (x.complete w now true).file = w.floor := rfl
    refine ⟨?_, fun v hv => ?_, fun t ht => ?_, h.stale, trivial⟩
    · have hcompleted : (x.complete w now true).completed = x.completed ++ [w] := rfl
      rw [hwritten, hcompleted, hdone.floor_eq]
      split
      next hempty =>
        rw [h.stored, floorAfter, floorAfter, lastEvaluated_concat_empty (List.isEmpty_iff.mp hempty)]
      next hsome =>
        rw [floorAfter, lastEvaluated_concat fun hnil => hsome (List.isEmpty_iff.mpr hnil)]
    · rcases List.mem_append.mp hv with hv | hv
      · exact h.walked v hv
      · exact List.mem_singleton.mp hv ▸ hdone.walked
    · have halone : (x.complete w now true).detached = [] := hdone.alone
      rw [halone] at ht
      cases ht

theorem floorStep_sound (step : FloorStep s x y) (h : FloorSound initial x) : FloorSound initial y := by
  cases step with
  | begin now saved idle => exact begin_sound h now saved
  | fail now floor starting => exact h.idle
  | refresh now floor starting =>
    have hfloor : floor = storedFloor x.file := h.atPhase starting
    refine h.keep rfl rfl h.carries h.stale ?_
    cases hshutdown : x.shutdown with
    | true => trivial
    | false => exact hfloor
  | dispatch now floor held items saved refreshed => exact dispatch_sound h refreshed held items saved
  | evaluation w file t sent walking step =>
    have hwalk := h.walking walking
    have hkept := evaluationStep_kept step hwalk.carries
    exact h.keep hkept.stored rfl h.carries h.stale (hwalk.send hkept sent)
  | detached before after t t' file sent running step =>
    have hcarries := h.carries
    rw [running] at hcarries
    have hkept := evaluationStep_kept step (hcarries t (by simp))
    have hne : x.detached ≠ [] := by simp [running]
    refine h.keep hkept.stored rfl (fun u hu => ?_) (fun alone => absurd (h.stale alone) hne)
      (h.phase.detached hne)
    rcases List.mem_append.mp hu with hu | hu
    · exact hcarries u (List.mem_append_left _ hu)
    · rcases List.mem_cons.mp hu with rfl | hu
      · exact hkept.carries
      · exact hcarries u (List.mem_append_right _ (List.mem_cons_of_mem _ hu))
  | receive w ev rest walking open_ arrived => exact receive_sound h walking arrived
  | join w walking finished =>
    have hwalk := h.walking walking
    exact h.keep rfl rfl h.carries h.stale
      ⟨hwalk.starts, hwalk.carries, hwalk.accounted, hwalk.joins, fun _ => finished⟩
  | drain w ev rest walking done arrived =>
    exact h.keep rfl rfl h.carries h.stale ((h.walking walking).take arrived)
  | leave w walking done drained => exact leave_sound h walking done drained
  | complete w now saved finishing => exact complete_sound h finishing now saved
  | interrupt stopping => exact interrupt_sound h stopping
  | signal => exact h.keep rfl rfl h.carries nofun h.phase.signal
  | restart => exact h.keep rfl rfl nofun (fun _ => rfl) trivial

theorem FloorNode.Booted.sound (boot : x.Booted) : FloorSound (storedFloor x.file) x where
  stored := by rw [boot.completed]; rfl
  walked := by rw [boot.completed]; exact nofun
  carries := by rw [boot.detached]; exact nofun
  stale := fun _ => boot.detached
  phase := by rw [boot.idle]; trivial

/-- In every run of scans, however they end, the stored floor is that of the last completed scan that
evaluated anything: the tenth percentile of all that its workers sent, in whatever order. -/
theorem seeder_floor_provenance {x y : FloorNode} (boot : x.Booted)
    (run : Relation.ReflTransGen (FloorStep s) x y) :
    (lastEvaluated y.completed = none → storedFloor y.file = storedFloor x.file) ∧
      ∀ w, lastEvaluated y.completed = some w → w.evaluation.pending = [] ∧
        IsP10 w.seeders (storedFloor y.file) ∧
        ∀ arrived : List Nat, arrived.Perm w.seeders → seederFloor arrived = storedFloor y.file := by
  have hsound : FloorSound (storedFloor x.file) y :=
    run_preserves (P := FloorSound (storedFloor x.file)) floorStep_sound run boot.sound
  have hstored := hsound.stored
  refine ⟨fun hnone => ?_, fun w hw => ?_⟩
  · rw [hstored, floorAfter, hnone]
  · rw [floorAfter, hw] at hstored
    have hmem : w ∈ y.completed := List.mem_of_mem_filter (List.mem_of_getLast? hw)
    refine ⟨hsound.walked w hmem, hstored ▸ isP10_seederFloor w.seeders, fun arrived hperm => ?_⟩
    rw [hstored, seederFloor_perm hperm]

namespace Reference

def floorNode : FloorNode := ⟨some { seederFloor := 9 }, false, .idle, [], []⟩

def scrapes (seeders : Nat) : EvaluateEnv := { evaluateEnv with scrape := fun _ _ => some ⟨seeders, 0, 0⟩ }

def evaluates (hash : InfoHash) (seeders : Nat) : Option Evaluated :=
  (evaluateOneItem settings (engine [] List.nodup_nil).torrentCache (item hash) (scrapes seeders)).2

end Reference

open Reference in
/-- One entry is received while the other is still evaluated, and the other is drained. The next scan is
cut short after its start snapshot. -/
theorem seeder_floor_provenance_two :
    ∃ y, Relation.ReflTransGen (FloorStep settings) floorNode y ∧ storedFloor y.file = 4 ∧
      ∃ w, lastEvaluated y.completed = some w ∧ w.seeders = [7, 4] ∧ IsP10 w.seeders (storedFloor y.file) := by
  let items := [item hashA, item hashB]
  let total := countPending settings [] items
  let t : Evaluation :=
    ⟨scanTime, total, items.filter fun item => prefilterReason settings [] item = .pending, 0, none, false⟩
  let w : Walk := ⟨scanTime, total, 9, t, [], [], 0, false, []⟩
  let x₁ := floorNode.begin scanTime true
  let x₂ : FloorNode := { x₁ with phase := .refreshed scanTime 9 }
  let x₃ := x₂.dispatch settings scanTime 9 [] items true
  let t₄ := { t with seederFloor := some (loadSnapshot x₃.file).seederFloor }
  let w₄ := w.send t₄ none
  let x₄ : FloorNode := { x₃ with phase := .walking w₄ }
  let t₅ := { t₄ with pending := [item hashB], processed := 1 }
  let w₅ := w₄.send t₅ (evaluates hashA 7)
  let x₅ : FloorNode := { x₄ with phase := .walking w₅ }
  let w₆ := w₅.take ⟨"t", hashA, 100 * mib, 2, 7, 0⟩ []
  let x₆ : FloorNode := { x₅ with phase := .walking w₆ }
  let t₇ := { t₅ with pending := [], processed := 2 }
  let w₇ := w₆.send t₇ (evaluates hashB 4)
  let x₇ : FloorNode := { x₆ with phase := .walking w₇ }
  let w₈ := w₇.send { t₇ with finished := true } none
  let x₈ : FloorNode := { x₇ with phase := .walking w₈ }
  let w₉ := { w₈ with evalDone := true }
  let x₉ : FloorNode := { x₈ with phase := .walking w₉ }
  let wa := w₉.take ⟨"t", hashB, 100 * mib, 2, 4, 0⟩ []
  let xa : FloorNode := { x₉ with phase := .walking wa }
  let xb : FloorNode := { xa with phase := .finishing wa }
  let xc := xb.complete wa scanTime true
  let y := xc.begin scanTime true
  have begins : FloorStep settings floorNode x₁ := .begin scanTime true rfl
  have refreshes : FloorStep settings x₁ x₂ := .refresh scanTime 9 rfl
  have dispatches : FloorStep settings x₂ x₃ := .dispatch scanTime 9 [] items true rfl
  have loads : FloorStep settings x₃ x₄ := .evaluation w x₃.file t₄ none rfl (.load rfl)
  have sendsA : FloorStep settings x₄ x₅ :=
    .evaluation w₄ x₄.file t₅ _ rfl (.evaluate [] [item hashB] (item hashA) _ (scrapes 7) rfl (by decide +kernel))
  have receives : FloorStep settings x₅ x₆ := .receive w₅ _ [] rfl rfl (by decide +kernel)
  have sendsB : FloorStep settings x₆ x₇ :=
    .evaluation w₆ x₆.file t₇ _ rfl (.evaluate [] [] (item hashB) _ (scrapes 4) rfl rfl)
  have finishes : FloorStep settings x₇ x₈ :=
    .evaluation w₇ x₇.file _ none rfl (.finish rfl (Or.inl rfl))
  have joins : FloorStep settings x₈ x₉ := .join w₈ rfl rfl
  have drains : FloorStep settings x₉ xa := .drain w₉ _ [] rfl rfl (by decide +kernel)
  have leaves : FloorStep settings xa xb := .leave wa rfl rfl rfl
  have completes : FloorStep settings xb xc := .complete wa scanTime true rfl
  have rescans : FloorStep settings xc y := .begin scanTime true rfl
  have run : Relation.ReflTransGen (FloorStep settings) floorNode y :=
    (((((((((((((Relation.ReflTransGen.single begins).tail refreshes).tail dispatches).tail loads).tail
      sendsA).tail receives).tail sendsB).tail finishes).tail joins).tail drains).tail leaves).tail
      completes).tail rescans)
  have hlast : lastEvaluated y.completed = some wa := lastEvaluated_concat (by decide +kernel)
  exact ⟨y, run, by decide +kernel, wa, hlast, by decide +kernel,
    ((seeder_floor_provenance ⟨rfl, rfl, rfl⟩ run).2 wa hlast).2.1⟩

end KeepAt
