import KeepAt.Runs
import Mathlib.Algebra.BigOperators.Group.List.Basic
import Mathlib.Algebra.Order.BigOperators.Group.List
import Mathlib.Algebra.Order.Group.Nat
import Mathlib.Algebra.Order.Monoid.Defs
import Mathlib.Tactic.Abel

namespace KeepAt

variable {J W S M : Type*}

/-- Jobs in the queues of their dispatchers, and workers on the jobs begun. A worker holds a permit from its
start until it leaves. -/
structure WorkerPool (J W S : Type*) where
  queues : List (List J)
  workers : List W
  permits : Nat
  shared : S

namespace WorkerPool

def dispatch (p : WorkerPool J W S) (queue : List J) : WorkerPool J W S :=
  { p with queues := queue :: p.queues }

@[simp] theorem dispatch_shared (p : WorkerPool J W S) (queue : List J) : (p.dispatch queue).shared = p.shared := rfl

/-- A step of a dispatcher or of a worker. `Work` is what a worker does to itself and to what all share. -/
inductive Step (begin_ : J → W) (Work : W → S → W → S → Prop) (Ended : W → Prop) (p : WorkerPool J W S) :
    WorkerPool J W S → Prop
  | spawn (before after : List (List J)) (job : J) (queue : List J)
      (waiting : p.queues = before ++ (job :: queue) :: after) (free : 0 < p.permits) :
      Step begin_ Work Ended p
        { p with queues := before ++ queue :: after, workers := begin_ job :: p.workers, permits := p.permits - 1 }
  | work (before after : List W) (w w' : W) (shared : S) (running : p.workers = before ++ w :: after)
      (does : Work w p.shared w' shared) :
      Step begin_ Work Ended p { p with workers := before ++ w' :: after, shared }
  | leave (before after : List W) (w : W) (running : p.workers = before ++ w :: after) (ended : Ended w) :
      Step begin_ Work Ended p { p with workers := before ++ after, permits := p.permits + 1 }

/-- No job waits and no worker runs. -/
def Idle (p : WorkerPool J W S) : Prop := (∀ queue ∈ p.queues, queue = []) ∧ p.workers = []

variable {begin_ : J → W} {Work : W → S → W → S → Prop} {Ended : W → Prop} {p q : WorkerPool J W S}

theorem Idle.not_step (h : p.Idle) : ¬Step begin_ Work Ended p q := by
  have hnot : ∀ {before after : List (List J)} {job : J} {queue : List J},
      p.queues ≠ before ++ (job :: queue) :: after := by
    intro before after job queue hw
    have hmem : job :: queue ∈ p.queues := by rw [hw]; simp
    exact List.cons_ne_nil _ _ (h.1 _ hmem)
  intro step
  cases step with
  | spawn before after job queue waiting free => exact hnot waiting
  | work before after w w' shared running does => simp [h.2] at running
  | leave before after w running ended => simp [h.2] at running

theorem Step.permits_add_workers (step : Step begin_ Work Ended p q) :
    q.permits + q.workers.length = p.permits + p.workers.length := by
  cases step with
  | spawn before after job queue waiting free =>
    simp only [List.length_cons]
    omega
  | work before after w w' shared running does => simp [running]
  | leave before after w running ended =>
    simp only [running, List.length_append, List.length_cons]
    omega

/-- What no worker changes, no step does. -/
theorem Step.shared_eq {α : Type*} (step : Step begin_ Work Ended p q) (f : S → α)
    (work : ∀ {w s w' s'}, Work w s w' s' → f s' = f s) : f q.shared = f p.shared := by
  cases step with
  | spawn => rfl
  | work before after w w' shared running does => exact work does
  | leave => rfl

section Totals

variable [AddCommMonoid M]

/-- What the waiting jobs and the workers are worth together. -/
def total (p : WorkerPool J W S) (job : J → M) (worker : W → M) : M :=
  (p.queues.map fun queue => (queue.map job).sum).sum + (p.workers.map worker).sum

theorem total_dispatch (p : WorkerPool J W S) (queue : List J) (job : J → M) (worker : W → M) :
    (p.dispatch queue).total job worker = (queue.map job).sum + p.total job worker := by
  simp [dispatch, total, add_assoc]

theorem total_of_idle (h : p.Idle) (job : J → M) (worker : W → M) : p.total job worker = 0 := by
  have hqueues : ∀ m ∈ p.queues.map fun queue => (queue.map job).sum, m = 0 := by
    intro m hm
    obtain ⟨queue, hq, rfl⟩ := List.mem_map.mp hm
    simp [h.1 queue hq]
  simp [total, List.sum_eq_zero hqueues, h.2]

theorem total_le_add_workers (p : WorkerPool J W S) (job : J → ℕ) {worker worker' : W → ℕ}
    (h : ∀ w, worker w ≤ worker' w + 1) : p.total job worker ≤ p.total job worker' + p.workers.length := by
  have hworkers : (p.workers.map worker).sum ≤ (p.workers.map worker').sum + p.workers.length := by
    calc (p.workers.map worker).sum
      _ ≤ (p.workers.map fun w => worker' w + 1).sum := List.sum_le_sum fun w _ => h w
      _ = (p.workers.map worker').sum + p.workers.length := by simp [List.sum_map_add]
  simp only [total]
  omega

/-- A step changes what the pool is worth only as one worker does. -/
theorem Step.total_cases (step : Step begin_ Work Ended p q) (worker : W → M)
    (ended : ∀ {w}, Ended w → worker w = 0) :
    (q.total (fun job => worker (begin_ job)) worker = p.total (fun job => worker (begin_ job)) worker ∧
        q.shared = p.shared) ∨
      ∃ m w w', Work w p.shared w' q.shared ∧
        p.total (fun job => worker (begin_ job)) worker = m + worker w ∧
        q.total (fun job => worker (begin_ job)) worker = m + worker w' := by
  cases step with
  | spawn before after job queue waiting free =>
    refine Or.inl ⟨?_, rfl⟩
    simp only [total, waiting, List.map_append, List.map_cons, List.sum_append, List.sum_cons]
    abel
  | work before after w w' shared running does =>
    refine Or.inr ⟨(p.queues.map fun queue => (queue.map fun job => worker (begin_ job)).sum).sum +
      ((before.map worker).sum + (after.map worker).sum), w, w', does, ?_, ?_⟩
    all_goals
      simp only [total, running, List.map_append, List.map_cons, List.sum_append, List.sum_cons]
      abel
  | leave before after w running hended =>
    refine Or.inl ⟨?_, rfl⟩
    simp only [total, running, List.map_append, List.map_cons, List.sum_append, List.sum_cons, ended hended,
      zero_add]

/-- What no worker creates or loses is conserved by the pool. -/
theorem Step.conserves (step : Step begin_ Work Ended p q) (worker : W → M) (stored : S → M)
    (work : ∀ {w s w' s'}, Work w s w' s' → worker w' + stored s' = worker w + stored s)
    (ended : ∀ {w}, Ended w → worker w = 0) :
    q.total (fun job => worker (begin_ job)) worker + stored q.shared =
      p.total (fun job => worker (begin_ job)) worker + stored p.shared := by
  rcases step.total_cases worker ended with ⟨htotal, hshared⟩ | ⟨m, w, w', does, hp, hq⟩
  · rw [htotal, hshared]
  · rw [hp, hq, add_assoc, add_assoc, work does]

end Totals

/-- What no worker creates, and some may lose, never grows. -/
theorem Step.total_le [AddCommMonoid M] [PartialOrder M] [IsOrderedAddMonoid M]
    (step : Step begin_ Work Ended p q) (worker : W → M) (stored : S → M)
    (work : ∀ {w s w' s'}, Work w s w' s' → worker w' + stored s' ≤ worker w + stored s)
    (ended : ∀ {w}, Ended w → worker w = 0) :
    q.total (fun job => worker (begin_ job)) worker + stored q.shared ≤
      p.total (fun job => worker (begin_ job)) worker + stored p.shared := by
  rcases step.total_cases worker ended with ⟨htotal, hshared⟩ | ⟨m, w, w', does, hp, hq⟩
  · rw [htotal, hshared]
  · rw [hp, hq, add_assoc, add_assoc]
    exact add_le_add_right (work does) m

/-- What holds of every worker at its start, and what all share, holds as long as the workers keep it. -/
theorem Step.preserves {P : W → Prop} {Q : S → Prop} (step : Step begin_ Work Ended p q)
    (start : ∀ job, P (begin_ job)) (work : ∀ {w s w' s'}, Work w s w' s' → P w → Q s → P w' ∧ Q s')
    (h : ∀ w ∈ p.workers, P w) (shared : Q p.shared) : (∀ w ∈ q.workers, P w) ∧ Q q.shared := by
  cases step with
  | spawn before after job queue waiting free => exact ⟨List.forall_mem_cons.mpr ⟨start job, h⟩, shared⟩
  | work before after w w' shared' running does =>
    rw [running, List.forall_mem_append, List.forall_mem_cons] at h
    obtain ⟨hw, hs⟩ := work does h.2.1 shared
    exact ⟨List.forall_mem_append.mpr ⟨h.1, List.forall_mem_cons.mpr ⟨hw, h.2.2⟩⟩, hs⟩
  | leave before after w running ended =>
    rw [running, List.forall_mem_append, List.forall_mem_cons] at h
    exact ⟨List.forall_mem_append.mpr ⟨h.1, h.2.2⟩, shared⟩

/-- The steps that are left at most, where a worker of some rank has at most that many. -/
def potential (begin_ : J → W) (rank : W → Nat) (p : WorkerPool J W S) : Nat :=
  p.total (fun job => rank (begin_ job) + 2) (fun w => rank w + 1)

theorem Step.potential_lt (step : Step begin_ Work Ended p q) (rank : W → Nat)
    (work : ∀ {w s w' s'}, Work w s w' s' → rank w' < rank w) : q.potential begin_ rank < p.potential begin_ rank := by
  cases step with
  | spawn before after job queue waiting free =>
    simp only [potential, total, waiting, List.map_append, List.map_cons, List.sum_append, List.sum_cons]
    omega
  | work before after w w' shared running does =>
    have h := work does
    simp only [potential, total, running, List.map_append, List.map_cons, List.sum_append, List.sum_cons]
    omega
  | leave before after w running ended =>
    simp only [potential, total, running, List.map_append, List.map_cons, List.sum_append, List.sum_cons]
    omega

/-- A pool with a permit to its name is never stuck, when no worker is. -/
theorem moves (owned : 0 < p.permits + p.workers.length)
    (able : ∀ w ∈ p.workers, Ended w ∨ ∃ w' s', Work w p.shared w' s') (busy : ¬p.Idle) :
    ∃ q, Step begin_ Work Ended p q := by
  rcases List.eq_nil_or_concat p.workers with hnone | ⟨front, w, hworkers⟩
  · have hwaiting : ∃ queue ∈ p.queues, queue ≠ [] := by
      by_contra hnot
      exact busy ⟨fun queue hq => by_contra fun hne => hnot ⟨queue, hq, hne⟩, hnone⟩
    obtain ⟨queue, hq, hne⟩ := hwaiting
    obtain ⟨before, after, hsplit⟩ := List.append_of_mem hq
    obtain ⟨job, rest, rfl⟩ := List.exists_cons_of_ne_nil hne
    rw [hnone] at owned
    exact ⟨_, .spawn before after job rest hsplit owned⟩
  · have hw : w ∈ p.workers := by simp [hworkers]
    rcases able w hw with hended | ⟨w', s', hdoes⟩
    · exact ⟨_, .leave front [] w (by simpa using hworkers) hended⟩
    · exact ⟨_, .work front [] w w' s' (by simpa using hworkers) hdoes⟩

end WorkerPool

end KeepAt
