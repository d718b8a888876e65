import Talios.Sync.WaitQueue

set_option autoImplicit false

/-! # Semaphores

`semaphore.c` over the scheduler, with any number of tasks. What is done with the lock held is one
step, and so is `sleep_on`, which comes behind the lock. The state counts the releases that are
completed and the acquires that are granted: those that returned at once, and those that were woken.

`semaphore_release` has `wake_up` look for tasks in the state `TASK_RUNING`, which is no bit of the
state of any task. So a release that finds a waiter wakes nobody, and what it released is gone.
-/

namespace Talios

/-! ## Data -/

/-- Where a task stands in `semaphore_acquire`: outside, behind the lock with nothing granted, or in
`sleep_on`. -/
inductive SemPoint
  | outside
  | refused
  | waiting
deriving DecidableEq

/-- `semaphore_t`, the scheduler and the tasks, and what has been counted; `count` is an
`unsigned long`. -/
structure Semaphore where
  sched : Sched
  count : Nat
  waiters : List Nat
  point : Nat → SemPoint
  releases : Nat
  granted : Nat

/-- `semaphore_init`. -/
def semaphoreInit (sched : Sched) (count : Nat) : Semaphore :=
  ⟨sched, count, [], fun _ => .outside, 0, 0⟩

/-! ## `semaphore.c` -/

def Semaphore.setPoint (s : Semaphore) (p : SemPoint) : Semaphore :=
  { s with point := Function.update s.point s.sched.current p }

/-- `semaphore_acquire` up to `spin_unlock`. -/
def semaphoreAcquire (s : Semaphore) : Semaphore :=
  if 0 < s.count then { s with count := s.count - 1, granted := s.granted + 1 }
  else s.setPoint .refused

/-- `sleep_on` of `semaphore_acquire`. -/
def semaphoreSleep (s : Semaphore) : Option Semaphore :=
  (schedule s.sched.markSleeping).map (fun sched => { s.setPoint .waiting with
    sched := sched, waiters := waitLink s.waiters s.sched.current })

/-- `semaphore_release`. The tasks that `wake_up` takes off the queue are granted theirs. -/
def semaphoreRelease (s : Semaphore) : Option Semaphore :=
  if s.waiters ≠ [] then
    (wakeUp s.sched s.waiters .running).map (fun r => { s with
      sched := r.1, waiters := r.2, releases := s.releases + 1
      granted := s.granted + (s.waiters.length - r.2.length) })
  else some { s with count := (s.count + 1) % 2 ^ 64, releases := s.releases + 1 }

/-- A release that finds a waiter wakes nobody, and leaves `count`. -/
theorem semaphoreRelease_of_waiters {s : Semaphore} (h : s.waiters ≠ []) :
    semaphoreRelease s = some { s with releases := s.releases + 1 } := by
  unfold semaphoreRelease
  rw [if_pos h, wakeUp_running]
  simp

/-! ## Steps -/

inductive SemStep
  | acquire
  | sleep
  | ret
  | release
  | other (c : SchedStep)

def SemStep.run (s : Semaphore) : SemStep → Option Semaphore
  | .acquire => some (semaphoreAcquire s)
  | .sleep => semaphoreSleep s
  | .ret => some (s.setPoint .outside)
  | .release => semaphoreRelease s
  | .other c => (c.run s.sched).map (fun r => { s with sched := r.1 })

/-- The steps the scheduler makes by itself, as far as they are a task's own; a task in
`semaphore_acquire` is woken by nobody else. -/
def Semaphore.AllowedOther (s : Semaphore) : SchedStep → Prop
  | .wake task => s.point s.sched.current = .outside ∧ s.point task = .outside
  | .interruptWake task => s.point task = .outside
  | .interrupt => True
  | .tick => True
  | _ => s.point s.sched.current = .outside

/-- When a step can be made; no task sleeps with a lock. -/
def SemStep.Allowed (s : Semaphore) : SemStep → Prop
  | .acquire => s.point s.sched.current = .outside ∧
      (s.sched.task s.sched.current).state = .running
  | .sleep => s.point s.sched.current = .refused ∧
      (s.sched.task s.sched.current).preemptCount = 0
  | .ret => s.point s.sched.current = .waiting ∧
      (s.sched.task s.sched.current).state = .running
  | .release => s.point s.sched.current = .outside ∧
      (s.sched.task s.sched.current).state = .running
  | .other c => c.Allowed s.sched ∧ s.AllowedOther c

/-- A state that a run from `semaphore_init` comes to whose steps all meet `ok`. -/
inductive SemReachable (n : Nat) (ok : Semaphore → SemStep → Prop) : Semaphore → Prop
  | init {sched : Sched} (h : SchedReachable sched) : SemReachable n ok (semaphoreInit sched n)
  | step {s s' : Semaphore} (c : SemStep) (h : SemReachable n ok s) (ha : c.Allowed s)
      (hok : ok s c) (hr : c.run s = some s') : SemReachable n ok s'

/-! ## Permits -/

/-- Nothing is lost or made up. -/
def Semaphore.Conserved (n : Nat) (s : Semaphore) : Prop := n + s.releases = s.count + s.granted

/-- No task waits for what is there. -/
def Semaphore.Prompt (s : Semaphore) : Prop := s.waiters ≠ [] → s.count = 0

/-- A release finds nobody waiting or about to wait, and `count` does not overflow. -/
def SemStep.Unawaited (s : Semaphore) : SemStep → Prop
  | .release => s.waiters = [] ∧ (∀ t, s.point t ≠ .refused) ∧ s.count < 2 ^ 64 - 1
  | _ => True

/-- What holds between two steps: who waits, or is about to, has found nothing. -/
structure Semaphore.Inv (n : Nat) (s : Semaphore) : Prop where
  conserved : s.Conserved n
  prompt : s.Prompt
  refused : ∀ t, s.point t = .refused → s.count = 0

section

variable {n : Nat} {s s' : Semaphore}

theorem setPoint_of_refused {p : SemPoint} (hp : p ≠ .refused) {t : Nat}
    (h : (s.setPoint p).point t = .refused) : s.point t = .refused := by
  have h : Function.update s.point s.sched.current p t = .refused := h
  by_cases ht : t = s.sched.current
  · rw [ht, Function.update_self] at h
    exact absurd h hp
  · rwa [Function.update_of_ne ht] at h

theorem Semaphore.Inv.acquire (h : s.Inv n) : (semaphoreAcquire s).Inv n := by
  unfold semaphoreAcquire
  by_cases hc : 0 < s.count
  · rw [if_pos hc]
    have hcons := h.conserved
    unfold Semaphore.Conserved at hcons
    refine ⟨?_, fun hw => ?_, fun t ht => ?_⟩
    · show n + s.releases = s.count - 1 + (s.granted + 1)
      omega
    · exact absurd (h.prompt hw) (Nat.ne_of_gt hc)
    · exact absurd (h.refused t ht) (Nat.ne_of_gt hc)
  · rw [if_neg hc]
    exact ⟨h.conserved, h.prompt, fun _ _ => Nat.eq_zero_of_not_pos hc⟩

theorem Semaphore.Inv.sleep (h : s.Inv n) (hp : s.point s.sched.current = .refused)
    (hr : semaphoreSleep s = some s') : s'.Inv n := by
  obtain ⟨sched, -, rfl⟩ := Option.map_eq_some_iff.mp hr
  exact ⟨h.conserved, fun _ => h.refused _ hp,
    fun t ht => h.refused t (setPoint_of_refused (by decide) ht)⟩

theorem Semaphore.Inv.release (h : s.Inv n) (hok : SemStep.release.Unawaited s)
    (hr : semaphoreRelease s = some s') : s'.Inv n := by
  obtain ⟨hw, hp, hlt⟩ := hok
  have hcons := h.conserved
  unfold Semaphore.Conserved at hcons
  unfold semaphoreRelease at hr
  rw [if_neg (fun hne => hne hw)] at hr
  obtain rfl := Option.some.inj hr
  refine ⟨?_, fun hne => absurd hw hne, fun t ht => absurd ht (hp t)⟩
  show n + (s.releases + 1) = (s.count + 1) % 2 ^ 64 + s.granted
  rw [Nat.mod_eq_of_lt (by omega)]
  omega

/-- **One step.** -/
theorem Semaphore.Inv.step (h : s.Inv n) (c : SemStep) (ha : c.Allowed s) (hok : c.Unawaited s)
    (hr : c.run s = some s') : s'.Inv n := by
  cases c with
  | acquire =>
      obtain rfl := Option.some.inj hr
      exact h.acquire
  | sleep => exact h.sleep ha.1 hr
  | ret =>
      obtain rfl := Option.some.inj hr
      exact ⟨h.conserved, h.prompt, fun t ht => h.refused t (setPoint_of_refused (by decide) ht)⟩
  | release => exact h.release hok hr
  | other c =>
      obtain ⟨r, -, rfl⟩ := Option.map_eq_some_iff.mp hr
      exact ⟨h.conserved, h.prompt, h.refused⟩

end

/-- **Permits are conserved**, in every run whose releases find nobody waiting or about to wait. -/
theorem semaphore_conserved {n : Nat} {s : Semaphore}
    (h : SemReachable n (fun s c => c.Unawaited s) s) : s.Conserved n ∧ s.Prompt := by
  have hinv : s.Inv n := by
    induction h with
    | init hs => exact ⟨rfl, fun hw => absurd rfl hw, fun _ ht => nomatch ht⟩
    | step c _ ha hok hr ih => exact ih.step c ha hok hr
  exact ⟨hinv.conserved, hinv.prompt⟩

theorem exampleSched_semaphore {n : Nat} {ok : Semaphore → SemStep → Prop} {r : Sched × Bool}
    (h : SchedStep.run (schedulerInit 0 exampleTasks) (.interruptWake 1) = some r) :
    SemReachable n ok (semaphoreInit r.1 n) := by
  obtain ⟨s, hr, hs, -⟩ := exampleSched
  rw [hr] at h
  obtain rfl := Option.some.inj h
  exact .init hs

/-- One permit, acquired and released. -/
theorem semaphore_conserved_example : ∃ s : Semaphore,
    s.count = 1 ∧ s.releases = 1 ∧ s.Conserved 1 ∧ s.Prompt := by
  obtain ⟨r, s₁, s₂, h0, r1, r2, a1, a2, hw, hp, hlt, hc, hrel⟩ : ∃ r s₁ s₂,
      SchedStep.run (schedulerInit 0 exampleTasks) (.interruptWake 1) = some r ∧
      SemStep.run (semaphoreInit r.1 1) .acquire = some s₁ ∧
      SemStep.run s₁ .release = some s₂ ∧
      SemStep.Allowed (semaphoreInit r.1 1) .acquire ∧ SemStep.Allowed s₁ .release ∧
      s₁.waiters = [] ∧ (∀ t, s₁.point t ≠ .refused) ∧ s₁.count < 2 ^ 64 - 1 ∧
      s₂.count = 1 ∧ s₂.releases = 1 :=
    ⟨_, _, _, rfl, rfl, rfl, ⟨rfl, rfl⟩, ⟨rfl, rfl⟩, rfl, fun _ h => (nomatch h), by decide, rfl, rfl⟩
  have h2 : SemReachable 1 (fun s c => c.Unawaited s) s₂ :=
    ((exampleSched_semaphore h0).step .acquire a1 trivial r1).step .release a2 ⟨hw, hp, hlt⟩ r2
  exact ⟨s₂, hc, hrel, semaphore_conserved h2⟩

/-- Task 1 waits, and task 2 releases: nobody is woken, and nothing is kept. -/
theorem semaphore_loses_permit :
    ¬ ∀ (n : Nat) (s : Semaphore), SemReachable n (fun _ _ => True) s → s.Conserved n ∧ s.Prompt := by
  intro hall
  obtain ⟨r, s₁, s₂, s₃, s₄, h0, r1, r2, r3, r4, a1, a2, a3, a4, hc, hrel, hg⟩ :
      ∃ r s₁ s₂ s₃ s₄,
      SchedStep.run (schedulerInit 0 exampleTasks) (.interruptWake 1) = some r ∧
      SemStep.run (semaphoreInit r.1 0) (.other (.wake 2)) = some s₁ ∧
      SemStep.run s₁ .acquire = some s₂ ∧ SemStep.run s₂ .sleep = some s₃ ∧
      SemStep.run s₃ .release = some s₄ ∧
      SemStep.Allowed (semaphoreInit r.1 0) (.other (.wake 2)) ∧ SemStep.Allowed s₁ .acquire ∧
      SemStep.Allowed s₂ .sleep ∧ SemStep.Allowed s₃ .release ∧
      s₄.count = 0 ∧ s₄.releases = 1 ∧ s₄.granted = 0 :=
    ⟨_, _, _, _, _, rfl, rfl, rfl, rfl, rfl,
      ⟨⟨show TaskState.uninterruptable ≠ .running by decide, show 2 ≠ 1 by decide⟩, rfl, rfl⟩,
      ⟨rfl, rfl⟩, ⟨rfl, rfl⟩, ⟨rfl, rfl⟩, rfl, rfl, rfl⟩
  have h4 : SemReachable 0 (fun _ _ => True) s₄ :=
    ((((exampleSched_semaphore h0).step _ a1 trivial r1).step _ a2 trivial r2).step _ a3 trivial
      r3).step _ a4 trivial r4
  have hcons := (hall 0 s₄ h4).1
  unfold Semaphore.Conserved at hcons
  rw [hc, hrel, hg] at hcons
  exact nomatch hcons

end Talios
