import KeepAt.Runs
import Mathlib.Logic.Function.Basic

namespace KeepAt

/-- How far a process is with `serve`. A socket goes by its number among those ever bound; a connect that failed goes by
its time, and by whether it failed for another reason than that nobody listens. -/
inductive ServePhase where
  | off
  | checking
  | probing
  | removing (probedAt : Nat) (mistaken : Bool)
  | binding
  | bound (socket : Nat)
  | listening (socket listenedAt : Nat)
  | unavailable
  deriving DecidableEq

/-- The processes over one data dir, and the socket at its path. -/
structure SocketDir (ι : Type) where
  clock : Nat
  created : Nat
  path : Option Nat
  phase : ι → ServePhase

inductive ServeEvent (ι : Type) where
  | silent
  | mistake (p : ι)
  | die (p : ι)

variable {ι : Type}

def SocketDir.Accepts (x : SocketDir ι) (socket : Nat) : Prop :=
  ∃ p listenedAt, x.phase p = .listening socket listenedAt

/-- Nobody serves or tries to; the path may have the socket of somebody who did. -/
structure SocketDir.Quiet (x : SocketDir ι) : Prop where
  off : ∀ p, x.phase p = .off
  numbered : ∀ socket, x.path = some socket → socket < x.created

/-- What holds at any time: a process that is about to unlink what it found dead has asked before whoever listens there
began to. -/
structure SocketDir.Sound (x : SocketDir ι) : Prop where
  numbered : ∀ socket, x.path = some socket → socket < x.created
  bound : ∀ p socket, x.phase p = .bound socket → socket < x.created
  listening : ∀ p socket listenedAt, x.phase p = .listening socket listenedAt → socket < x.created
  probed : ∀ q probedAt mistaken, x.phase q = .removing probedAt mistaken → probedAt < x.clock
  raced : ∀ q probedAt, x.phase q = .removing probedAt false → ∀ p socket listenedAt, x.path = some socket →
    x.phase p = .listening socket listenedAt → probedAt < listenedAt

/-- What a phase has to say of the directory in which it is entered. -/
structure SocketDir.Enters (x : SocketDir ι) (phase : ServePhase) : Prop where
  bound : ∀ socket, phase = .bound socket → socket < x.created
  listening : ∀ socket listenedAt, phase = .listening socket listenedAt → socket < x.created ∧ listenedAt = x.clock
  removing : ∀ probedAt mistaken, phase = .removing probedAt mistaken → probedAt = x.clock ∧
    (mistaken = false → ∀ socket, x.path = some socket → ¬x.Accepts socket)

namespace SocketDir

variable {x : SocketDir ι}

theorem Sound.unlinked (h : x.Sound) : Sound { x with path := none } :=
  ⟨fun _ hpath => (by cases hpath), h.bound, h.listening, h.probed, fun _ _ _ _ _ _ hpath => (by cases hpath)⟩

/-- A new socket has nobody who listens on it yet. -/
theorem Sound.created (h : x.Sound) : Sound { x with path := some x.created, created := x.created + 1 } := by
  refine ⟨fun socket hpath => ?_, fun q socket hq => Nat.lt_succ_of_lt (h.bound q socket hq),
    fun q socket listenedAt hq => Nat.lt_succ_of_lt (h.listening q socket listenedAt hq), h.probed,
    fun q probedAt hq r socket listenedAt hpath hr => ?_⟩
  · obtain rfl := Option.some.inj hpath
    exact Nat.lt_succ_self _
  · obtain rfl := Option.some.inj hpath
    exact absurd (h.listening r _ listenedAt hr) (Nat.lt_irrefl _)

theorem Quiet.sound (h : x.Quiet) : x.Sound := by
  have hoff : ∀ p phase, x.phase p = phase → phase ≠ .off → False := fun p phase hp hne => hne (hp.symm.trans (h.off p))
  exact ⟨h.numbered, fun p _ hp => (hoff p _ hp (by simp)).elim, fun p _ _ hp => (hoff p _ hp (by simp)).elim,
    fun p _ _ hp => (hoff p _ hp (by simp)).elim, fun p _ hp => (hoff p _ hp (by simp)).elim⟩

/-- Phases without a socket and without a failed connect can be entered anywhere. -/
theorem enters_idle (x : SocketDir ι) {phase : ServePhase}
    (h : phase ∈ [.off, .checking, .probing, .binding, .unavailable]) : x.Enters phase := by
  have hbound : ∀ socket, phase ≠ .bound socket := by rintro socket rfl; simp at h
  have hlistening : ∀ socket listenedAt, phase ≠ .listening socket listenedAt := by
    rintro socket listenedAt rfl
    simp at h
  have hremoving : ∀ probedAt mistaken, phase ≠ .removing probedAt mistaken := by
    rintro probedAt mistaken rfl
    simp at h
  exact ⟨fun _ he => (hbound _ he).elim, fun _ _ he => (hlistening _ _ he).elim, fun _ _ he => (hremoving _ _ he).elim⟩

end SocketDir

variable [DecidableEq ι]

def SocketDir.move (x : SocketDir ι) (p : ι) (phase : ServePhase) : SocketDir ι :=
  { x with clock := x.clock + 1, phase := Function.update x.phase p phase }

/-- One system call of one process, or its end. What is at the path may be another socket at each of them. -/
inductive ServeStep (x : SocketDir ι) : ServeEvent ι → SocketDir ι → Prop
  | start (p : ι) (off : x.phase p = .off) : ServeStep x .silent (x.move p .checking)
  | present (p : ι) (checking : x.phase p = .checking) (there : x.path.isSome) :
      ServeStep x .silent (x.move p .probing)
  | absent (p : ι) (checking : x.phase p = .checking) (free : x.path = none) :
      ServeStep x .silent (x.move p .binding)
  | connected (p : ι) (socket : Nat) (probing : x.phase p = .probing) (there : x.path = some socket)
      (accepts : x.Accepts socket) : ServeStep x .silent (x.move p .binding)
  | refused (p : ι) (probing : x.phase p = .probing) (dead : ∀ socket, x.path = some socket → ¬x.Accepts socket) :
      ServeStep x .silent (x.move p (.removing x.clock false))
  | mistaken (p : ι) (probing : x.phase p = .probing) :
      ServeStep x (.mistake p) (x.move p (.removing x.clock true))
  | unlink (p : ι) (probedAt : Nat) (mistaken : Bool) (removing : x.phase p = .removing probedAt mistaken) :
      ServeStep x .silent { x.move p .binding with path := none }
  | unlinkFailed (p : ι) (probedAt : Nat) (mistaken : Bool) (removing : x.phase p = .removing probedAt mistaken) :
      ServeStep x .silent (x.move p .binding)
  | bind (p : ι) (binding : x.phase p = .binding) (free : x.path = none) :
      ServeStep x .silent { x.move p (.bound x.created) with path := some x.created, created := x.created + 1 }
  | bindFailed (p : ι) (binding : x.phase p = .binding) : ServeStep x .silent (x.move p .probing)
  | giveUp (p : ι) (binding : x.phase p = .binding) : ServeStep x .silent (x.move p .unavailable)
  | listen (p : ι) (socket : Nat) (bound : x.phase p = .bound socket) :
      ServeStep x .silent (x.move p (.listening socket x.clock))
  | listenFailed (p : ι) (socket : Nat) (bound : x.phase p = .bound socket) :
      ServeStep x .silent (x.move p .probing)
  | listenGivesUp (p : ι) (socket : Nat) (bound : x.phase p = .bound socket) :
      ServeStep x .silent (x.move p .unavailable)
  | die (p : ι) : ServeStep x (.die p) (x.move p .off)

def AnyServeStep (x y : SocketDir ι) : Prop := ∃ event, ServeStep x event y

namespace SocketDir

variable {x : SocketDir ι}

theorem move_phase (x : SocketDir ι) (p q : ι) (phase : ServePhase) :
    (x.move p phase).phase q = if q = p then phase else x.phase q := by
  simp [move, Function.update_apply]

theorem Sound.move (h : x.Sound) (p : ι) {phase : ServePhase} (enters : x.Enters phase) : (x.move p phase).Sound := by
  refine ⟨h.numbered, fun q socket hq => ?_, fun q socket listenedAt hq => ?_, fun q probedAt mistaken hq => ?_,
    fun q probedAt hq r socket listenedAt hpath hr => ?_⟩
  · rw [move_phase] at hq
    split at hq
    next => exact enters.bound socket hq
    next => exact h.bound q socket hq
  · rw [move_phase] at hq
    split at hq
    next => exact (enters.listening socket listenedAt hq).1
    next => exact h.listening q socket listenedAt hq
  · rw [move_phase] at hq
    split at hq
    next => exact (enters.removing probedAt mistaken hq).1 ▸ Nat.lt_succ_self _
    next => exact Nat.lt_succ_of_lt (h.probed q probedAt mistaken hq)
  · rw [move_phase] at hq hr
    split at hq
    next hqp =>
      -- a process that has just found nobody listening
      split at hr
      next => exact absurd (hq.symm.trans hr) (by simp)
      next => exact absurd ⟨r, listenedAt, hr⟩ ((enters.removing probedAt false hq).2 rfl socket hpath)
    next =>
      split at hr
      next => exact (enters.listening socket listenedAt hr).2 ▸ h.probed q probedAt false hq
      next => exact h.raced q probedAt hq r socket listenedAt hpath hr

end SocketDir

variable {x y : SocketDir ι}

theorem ServeStep.sound {event : ServeEvent ι} (step : ServeStep x event y) (h : x.Sound) : y.Sound := by
  cases step with
  | start p off => exact h.move p (x.enters_idle (by simp))
  | present p checking there => exact h.move p (x.enters_idle (by simp))
  | absent p checking free => exact h.move p (x.enters_idle (by simp))
  | connected p socket probing there accepts => exact h.move p (x.enters_idle (by simp))
  | refused p probing dead =>
    refine h.move p ⟨fun _ he => (by cases he), fun _ _ he => (by cases he), fun probedAt mistaken he => ?_⟩
    cases he
    exact ⟨rfl, fun _ => dead⟩
  | mistaken p probing =>
    refine h.move p ⟨fun _ he => (by cases he), fun _ _ he => (by cases he), fun probedAt mistaken he => ?_⟩
    cases he
    exact ⟨rfl, fun hm => (by cases hm)⟩
  | unlink p probedAt mistaken removing => exact (h.move p (x.enters_idle (by simp))).unlinked
  | unlinkFailed p probedAt mistaken removing => exact h.move p (x.enters_idle (by simp))
  | bind p binding free =>
    refine h.created.move p ⟨fun socket he => ?_, fun _ _ he => (by cases he), fun _ _ he => (by cases he)⟩
    cases he
    exact Nat.lt_succ_self _
  | bindFailed p binding => exact h.move p (x.enters_idle (by simp))
  | giveUp p binding => exact h.move p (x.enters_idle (by simp))
  | listen p socket bound =>
    refine h.move p ⟨fun _ he => (by cases he), fun k listenedAt he => ?_, fun _ _ he => (by cases he)⟩
    cases he
    exact ⟨h.bound p socket bound, rfl⟩
  | listenFailed p socket bound => exact h.move p (x.enters_idle (by simp))
  | listenGivesUp p socket bound => exact h.move p (x.enters_idle (by simp))
  | die p => exact h.move p (x.enters_idle (by simp))

/-- A socket leaves the path by an unlink only. -/
theorem ServeStep.path_kept {event : ServeEvent ι} {socket : Nat} (step : ServeStep x event y)
    (there : x.path = some socket) :
    y.path = some socket ∨ y.path = none ∧ ∃ q probedAt mistaken, x.phase q = .removing probedAt mistaken := by
  cases step with
  | unlink p probedAt mistaken removing => exact Or.inr ⟨rfl, p, probedAt, mistaken, removing⟩
  | bind p binding free => exact absurd (free.symm.trans there) (by simp)
  | _ => exact Or.inl there

/-- A step in which a process lives and no connect fails but for want of a listener. -/
def Spares (p : ι) (x y : SocketDir ι) : Prop :=
  ∃ event, ServeStep x event y ∧ event ≠ .die p ∧ ∀ q, event ≠ .mistake q

/-- A daemon that serves, with nobody about to unlink its socket. -/
structure SocketDir.Settled (x : SocketDir ι) (p : ι) (socket listenedAt : Nat) : Prop where
  serves : x.phase p = .listening socket listenedAt
  there : x.path = some socket
  nobody : ∀ q probedAt mistaken, x.phase q ≠ .removing probedAt mistaken

theorem SocketDir.Settled.move {p q : ι} {socket listenedAt : Nat} {phase : ServePhase}
    (h : x.Settled p socket listenedAt) (hq : x.phase q ≠ .listening socket listenedAt)
    (hphase : ∀ probedAt mistaken, phase ≠ .removing probedAt mistaken) :
    (x.move q phase).Settled p socket listenedAt := by
  have hne : p ≠ q := by
    rintro rfl
    exact hq h.serves
  refine ⟨by rw [SocketDir.move_phase, if_neg hne, h.serves], h.there, fun r probedAt mistaken hr => ?_⟩
  rw [SocketDir.move_phase] at hr
  split at hr
  next => exact hphase probedAt mistaken hr
  next => exact h.nobody r probedAt mistaken hr

theorem Spares.settled {p : ι} {socket listenedAt : Nat} (step : Spares p x y)
    (h : x.Settled p socket listenedAt) : y.Settled p socket listenedAt := by
  obtain ⟨event, step, hdie, hmistake⟩ := step
  cases step with
  | start q off => exact h.move (by simp [off]) (by simp)
  | present q checking there => exact h.move (by simp [checking]) (by simp)
  | absent q checking free => exact absurd (free.symm.trans h.there) (by simp)
  | connected q k probing there accepts => exact h.move (by simp [probing]) (by simp)
  | refused q probing dead => exact absurd ⟨p, listenedAt, h.serves⟩ (dead socket h.there)
  | mistaken q probing => exact absurd rfl (hmistake q)
  | unlink q probedAt mistaken removing => exact absurd removing (h.nobody q probedAt mistaken)
  | unlinkFailed q probedAt mistaken removing => exact absurd removing (h.nobody q probedAt mistaken)
  | bind q binding free => exact absurd (free.symm.trans h.there) (by simp)
  | bindFailed q binding => exact h.move (by simp [binding]) (by simp)
  | giveUp q binding => exact h.move (by simp [binding]) (by simp)
  | listen q k bound => exact h.move (by simp [bound]) (by simp)
  | listenFailed q k bound => exact h.move (by simp [bound]) (by simp)
  | listenGivesUp q k bound => exact h.move (by simp [bound]) (by simp)
  | die q =>
    have hne : p ≠ q := by
      rintro rfl
      exact hdie rfl
    refine ⟨by rw [SocketDir.move_phase, if_neg hne, h.serves], h.there, fun r probedAt mistaken hr => ?_⟩
    rw [SocketDir.move_phase] at hr
    split at hr
    next => cases hr
    next => exact h.nobody r probedAt mistaken hr

/-- However daemons over one data dir start, die and serve at once: a daemon that listens at the socket path loses it
only to a process whose connect failed before it listened, or failed for another reason than that nobody listens.
Where nobody is about to unlink, it keeps the path for as long as it lives, whoever starts. -/
theorem live_socket_lost_only_in_race (quiet : x.Quiet) (run : Relation.ReflTransGen AnyServeStep x y) {p : ι}
    {socket listenedAt : Nat} (serves : y.phase p = .listening socket listenedAt) (there : y.path = some socket) :
    (∀ z, AnyServeStep y z → z.path = some socket ∨ z.path = none ∧ ∃ q probedAt mistaken,
      y.phase q = .removing probedAt mistaken ∧ (mistaken = true ∨ probedAt < listenedAt)) ∧
      ((∀ q probedAt mistaken, y.phase q ≠ .removing probedAt mistaken) → ∀ z,
        Relation.ReflTransGen (Spares p) y z →
          z.phase p = .listening socket listenedAt ∧ z.path = some socket) := by
  have hsound : y.Sound := run_preserves (P := SocketDir.Sound) (fun ⟨_, step⟩ => step.sound) run quiet.sound
  refine ⟨fun z step => ?_, fun nobody z kept => ?_⟩
  · obtain ⟨event, step⟩ := step
    rcases step.path_kept there with hkept | ⟨hnone, q, probedAt, mistaken, hq⟩
    · exact Or.inl hkept
    · refine Or.inr ⟨hnone, q, probedAt, mistaken, hq, ?_⟩
      cases mistaken with
      | true => exact Or.inl rfl
      | false => exact Or.inr (hsound.raced q probedAt hq p socket listenedAt there serves)
  · have hsettled := run_preserves (P := fun x : SocketDir ι => x.Settled p socket listenedAt) Spares.settled kept
      ⟨serves, there, nobody⟩
    exact ⟨hsettled.serves, hsettled.there⟩

/-- A daemon that replaces the socket of a dead one, and another that starts after it and gives up. -/
theorem live_socket_lost_only_in_race_later :
    ∃ y z : SocketDir Bool, y.phase true = .listening 1 5 ∧ Relation.ReflTransGen (Spares true) y z ∧
      z.phase false = .unavailable ∧ z.phase true = .listening 1 5 ∧ z.path = some 1 := by
  let x : SocketDir Bool := ⟨0, 1, some 0, fun _ => .off⟩
  have quiet : x.Quiet := ⟨fun _ => rfl, fun socket h => by obtain rfl := Option.some.inj h; exact Nat.zero_lt_one⟩
  let x₁ := x.move true .checking
  let x₂ := x₁.move true .probing
  let x₃ := x₂.move true (.removing 2 false)
  let x₄ := { x₃.move true .binding with path := none }
  let x₅ := { x₄.move true (.bound 1) with path := some 1, created := 2 }
  let y := x₅.move true (.listening 1 5)
  have nobody : ∀ socket, x₂.path = some socket → ¬x₂.Accepts socket := by
    rintro socket - ⟨q, listenedAt, hq⟩
    cases q <;> cases hq
  have run : Relation.ReflTransGen AnyServeStep x y :=
    .head ⟨.silent, .start true rfl⟩ (.head ⟨.silent, .present true rfl rfl⟩
      (.head ⟨.silent, .refused true rfl nobody⟩ (.head ⟨.silent, .unlink true 2 false rfl⟩
        (.head ⟨.silent, .bind true rfl rfl⟩ (.single ⟨.silent, .listen true 1 rfl⟩)))))
  let z := (((y.move false .checking).move false .probing).move false .binding).move false .unavailable
  have later : Relation.ReflTransGen (Spares true) y z :=
    .head ⟨.silent, .start false rfl, by simp, by simp⟩ (.head ⟨.silent, .present false rfl rfl, by simp, by simp⟩
      (.head ⟨.silent, .connected false 1 rfl rfl ⟨true, 5, rfl⟩, by simp, by simp⟩
        (.single ⟨.silent, .giveUp false rfl, by simp, by simp⟩)))
  have idle : ∀ q probedAt mistaken, y.phase q ≠ .removing probedAt mistaken := by
    rintro (_ | _) probedAt mistaken hq <;> cases hq
  exact ⟨y, z, rfl, later, rfl, (live_socket_lost_only_in_race quiet run rfl rfl).2 idle z later⟩

end KeepAt
