import Talios.Sched.Schedule

set_option autoImplicit false

/-! # The run queue

The run queue over every sequence of calls of `schedule`, wakes, ticks and tasks that go to sleep.
A task that has marked itself sleeping may be woken before it is switched out, and then is on the
queue while it is `CURRENT`, until `ret_from_intr` has rescheduled: `schedule_spec` is about these
states as well, and afterwards `CURRENT` is on no queue.
-/

namespace Talios

open SortedQueue

/-! ## What holds -/

/-- The queue is right, with `cur` the task that runs, which may be on the queue or not. -/
structure Sched.QueueOk (s : Sched) (cur : Nat) : Prop where
  sorted : Sorted s.vrun s.taskQueue
  nodup : s.taskQueue.Nodup
  noInit : s.initTask ∉ s.taskQueue
  count : s.runningTaskCount = 1 + s.taskQueue.length
  running : ∀ t ∈ s.taskQueue, (s.task t).state = .running
  kept : ∀ t, (s.task t).state = .running → t ≠ s.initTask → t = cur ∨ t ∈ s.taskQueue
  below : ∀ t, s.vrun t < SENTINEL

/-- No queued task is in front of `cur`. -/
def Sched.Front (s : Sched) (cur : Nat) : Prop := ∀ t ∈ s.taskQueue, s.vrun cur ≤ s.vrun t

/-- The state between two steps. No task sleeps with a lock, as far as it may run. -/
structure Sched.Inv (s : Sched) : Prop where
  queue : s.QueueOk s.current
  current : s.current ∉ s.taskQueue
  unlocked : ∀ t, t = s.current ∨ t = s.initTask → (s.task t).state ≠ .running →
    (s.task t).preemptCount = 0

/-! ## The state -/

section

variable {s : Sched} {t u : Nat} {f : Task → Task}

theorem modify_task_self : (s.modify t f).task t = f (s.task t) := Function.update_self ..

theorem modify_task_ne (h : u ≠ t) : (s.modify t f).task u = s.task u := Function.update_of_ne h ..

/-- A change that keeps the run times. -/
theorem modify_vrun (hf : (f (s.task t)).vrunTime = (s.task t).vrunTime) :
    (s.modify t f).vrun = s.vrun := by
  funext u
  unfold Sched.vrun
  by_cases hu : u = t
  · subst hu
    rw [modify_task_self, hf]
  · rw [modify_task_ne hu]

theorem modify_state (hf : (f (s.task t)).state = (s.task t).state) (u : Nat) :
    ((s.modify t f).task u).state = (s.task u).state := by
  by_cases hu : u = t
  · subst hu
    rw [modify_task_self, hf]
  · rw [modify_task_ne hu]

end

/-! ## `insert_task_queue` -/

/-- Below the sentinel the walk is that of a sorted queue. -/
theorem queueWalk_place {vrun : Nat → Int} {task : Nat} (h : vrun task < SENTINEL) :
    ∀ q : List Nat, queueWalk vrun task q
      = match place vrun task q with
        | none => .found
        | some queue => .placed queue := by
  intro q
  induction q with
  | nil => rw [queueWalk, if_neg (not_le.mpr h), place]
  | cons tmp rest ih =>
      rw [queueWalk, place]
      by_cases h1 : vrun tmp ≤ vrun task
      · rw [if_pos h1, if_pos h1]
        by_cases h2 : tmp = task
        · rw [if_pos h2, if_pos h2]
        · rw [if_neg h2, if_neg h2, ih]
          cases place vrun task rest with
          | none => rfl
          | some queue => rfl
      · rw [if_neg h1, if_neg h1]

section

variable {s : Sched} {task : Nat}

theorem insertTaskQueue_init (h : task = s.initTask) : insertTaskQueue s task = some s := by
  rw [insertTaskQueue, if_pos h]

/-- A task that is on the queue stays where it is. -/
theorem insertTaskQueue_mem (hs : Sorted s.vrun s.taskQueue) (hb : s.vrun task < SENTINEL)
    (hm : task ∈ s.taskQueue) : insertTaskQueue s task = some s := by
  have hne : s.taskQueue ≠ [] := List.ne_nil_of_mem hm
  rw [insertTaskQueue]
  by_cases hi : task = s.initTask
  · rw [if_pos hi]
  · rw [if_neg hi, if_neg hne, queueWalk_place hb, place_of_mem hs hm]

/-- Another one is put in at its place. -/
theorem insertTaskQueue_new (hs : Sorted s.vrun s.taskQueue) (hb : s.vrun task < SENTINEL)
    (hi : task ≠ s.initTask) (hm : task ∉ s.taskQueue) :
    ∃ queue, queue.Perm (task :: s.taskQueue) ∧ Sorted s.vrun queue ∧
      insertTaskQueue s task = some { s with
        taskQueue := queue, runningTaskCount := s.runningTaskCount + 1
        minVrunTime := min s.minVrunTime (s.vrun task) } := by
  obtain ⟨queue, he, hp, hq⟩ := place_of_not_mem hs hm
  refine ⟨queue, hp, hq, ?_⟩
  rw [insertTaskQueue, if_neg hi]
  by_cases hne : s.taskQueue = []
  · rw [hne, place] at he
    obtain rfl := Option.some.inj he
    rw [if_pos hne]
  · rw [if_neg hne, queueWalk_place hb, he]

end

/-! ## `schedule` -/

section

variable {s s' : Sched} {cur task : Nat}

theorem Sched.QueueOk.congr (h : s.QueueOk cur) (hi : s'.initTask = s.initTask)
    (hq : s'.taskQueue = s.taskQueue) (hc : s'.runningTaskCount = s.runningTaskCount)
    (hs : ∀ t, (s'.task t).state = (s.task t).state) (hv : s'.vrun = s.vrun) :
    s'.QueueOk cur := by
  refine ⟨?_, ?_, ?_, ?_, ?_, ?_, ?_⟩
  · rw [hv, hq]
    exact h.sorted
  · rw [hq]
    exact h.nodup
  · rw [hi, hq]
    exact h.noInit
  · rw [hc, hq]
    exact h.count
  · rw [hq]
    exact fun t ht => (hs t).trans (h.running t ht)
  · rw [hq, hi]
    exact fun t ht => h.kept t ((hs t).symm.trans ht)
  · rw [hv]
    exact h.below

/-- The state behind `get_next_task`: `task` is off the queue, and nothing on it is in front. -/
structure Sched.Popped (s : Sched) (task : Nat) : Prop where
  sorted : Sorted s.vrun s.taskQueue
  nodup : s.taskQueue.Nodup
  noInit : s.initTask ∉ s.taskQueue
  count : s.runningTaskCount = 1 + s.taskQueue.length
  running : ∀ t ∈ s.taskQueue, (s.task t).state = .running
  kept : ∀ t, (s.task t).state = .running → t ≠ s.initTask →
    t = s.current ∨ t = task ∨ t ∈ s.taskQueue
  below : ∀ t, s.vrun t < SENTINEL
  front : s.Front task
  off : task ∉ s.taskQueue
  next : task = s.initTask ∧ s.taskQueue = [] ∨
    task ≠ s.initTask ∧ (s.task task).state = .running

theorem getNextTask_nil (h : s.taskQueue = []) :
    getNextTask s = ({ s with minVrunTime := s.vrun s.current }, s.initTask) := by
  unfold getNextTask
  rw [h]

theorem getNextTask_cons {rest : List Nat} (h : s.taskQueue = task :: rest) :
    getNextTask s = ({ s with
      taskQueue := rest, runningTaskCount := s.runningTaskCount - 1
      minVrunTime := min (s.vrun task) (s.vrun s.current) }, task) := by
  unfold getNextTask
  rw [h]

theorem getNextTask_popped (h : s.QueueOk s.current) : (getNextTask s).1.Popped (getNextTask s).2 := by
  cases hq : s.taskQueue with
  | nil =>
      rw [getNextTask_nil hq]
      have hnil : ∀ t, t ∉ s.taskQueue := by simp [hq]
      refine ⟨h.sorted, h.nodup, h.noInit, h.count, h.running, fun t h1 h2 => ?_, h.below,
        fun t ht => absurd ht (hnil t), hnil _, Or.inl ⟨rfl, hq⟩⟩
      exact (h.kept t h1 h2).imp_right Or.inr
  | cons task rest =>
      rw [getNextTask_cons hq]
      have hsorted := h.sorted
      have hnodup := h.nodup
      have hinit := h.noInit
      have hcount := h.count
      have hrun := h.running
      have hkept := h.kept
      rw [hq] at hsorted hnodup hinit hcount hrun hkept
      obtain ⟨hfront, hsorted⟩ := List.pairwise_cons.mp hsorted
      obtain ⟨hoff, hnodup⟩ := List.nodup_cons.mp hnodup
      refine ⟨hsorted, hnodup, fun hm => hinit (List.mem_cons_of_mem _ hm), ?_,
        fun t ht => hrun t (List.mem_cons_of_mem _ ht), fun t h1 h2 => ?_, h.below, hfront, hoff,
        Or.inr ⟨fun he => hinit (he ▸ List.mem_cons_self), hrun task List.mem_cons_self⟩⟩
      · show s.runningTaskCount - 1 = 1 + rest.length
        rw [List.length_cons] at hcount
        push_cast at hcount
        omega
      · exact (hkept t h1 h2).imp_right List.mem_cons.mp

/-- Only the queue has changed. -/
structure Sched.SameTasks (s s' : Sched) : Prop where
  task : s'.task = s.task
  current : s'.current = s.current
  initTask : s'.initTask = s.initTask

/-- The queue is right for `cur`, which is not on it. -/
structure Sched.Waits (s : Sched) (cur : Nat) : Prop where
  queue : s.QueueOk cur
  off : cur ∉ s.taskQueue
  front : s.Front cur

/-- A queue that has got one task more. -/
theorem QueueOk.insert {queue : List Nat} {min : Int} (hp : queue.Perm (task :: s.taskQueue))
    (hsorted : Sorted s.vrun queue) (hnodup : s.taskQueue.Nodup) (hinit : s.initTask ∉ s.taskQueue)
    (hcount : s.runningTaskCount = 1 + s.taskQueue.length)
    (hrun : ∀ t ∈ s.taskQueue, (s.task t).state = .running) (hbelow : ∀ t, s.vrun t < SENTINEL)
    (hoff : task ∉ s.taskQueue) (hne : task ≠ s.initTask) (htask : (s.task task).state = .running)
    (hkept : ∀ t, (s.task t).state = .running → t ≠ s.initTask →
      t = cur ∨ t = task ∨ t ∈ s.taskQueue) :
    Sched.QueueOk { s with
      taskQueue := queue, runningTaskCount := s.runningTaskCount + 1, minVrunTime := min } cur := by
  have hmem : ∀ t, t ∈ queue ↔ t = task ∨ t ∈ s.taskQueue := fun t =>
    hp.mem_iff.trans List.mem_cons
  refine ⟨hsorted, hp.nodup_iff.mpr (List.nodup_cons.mpr ⟨hoff, hnodup⟩), ?_, ?_, fun t ht => ?_,
    fun t h1 h2 => ?_, hbelow⟩
  · rw [hmem]
    rintro (h | h)
    · exact hne h.symm
    · exact hinit h
  · show s.runningTaskCount + 1 = 1 + (queue.length : Int)
    rw [hp.length_eq, List.length_cons, hcount]
    push_cast
    omega
  · rcases (hmem t).mp ht with rfl | h
    · exact htask
    · exact hrun t h
  · rw [hmem]
    exact hkept t h1 h2

/-- `CURRENT` makes room for `task`: it is queued if it runs on. -/
theorem Sched.Popped.leave (h : s.Popped task) (hne : s.current ≠ task)
    (hle : (s.task s.current).state = .running → s.vrun task ≤ s.vrun s.current) :
    ∃ s₂, s.queueCurrent = some s₂ ∧ s.SameTasks s₂ ∧ s₂.Waits task := by
  unfold Sched.queueCurrent
  have hsame : s.SameTasks s := ⟨rfl, rfl, rfl⟩
  -- what holds if `CURRENT` need not be put on the queue
  have hstay : (∀ t, (s.task t).state = .running → t ≠ s.initTask → t = s.current →
      t ∈ s.taskQueue) → s.Waits task := by
    intro hcur
    refine ⟨⟨h.sorted, h.nodup, h.noInit, h.count, h.running, fun t h1 h2 => ?_, h.below⟩, h.off,
      h.front⟩
    rcases h.kept t h1 h2 with h3 | h3
    · exact Or.inr (hcur t h1 h2 h3)
    · exact h3
  by_cases hrun : (s.task s.current).state = .running
  · rw [if_pos hrun]
    by_cases hi : s.current = s.initTask
    · refine ⟨s, insertTaskQueue_init hi, hsame, hstay (fun t _ h2 h3 => ?_)⟩
      exact absurd (h3.trans hi) h2
    by_cases hm : s.current ∈ s.taskQueue
    · refine ⟨s, insertTaskQueue_mem h.sorted (h.below _) hm, hsame, hstay (fun t _ _ h3 => ?_)⟩
      rw [h3]
      exact hm
    · obtain ⟨queue, hp, hsorted, he⟩ := insertTaskQueue_new h.sorted (h.below _) hi hm
      refine ⟨_, he, ⟨rfl, rfl, rfl⟩, QueueOk.insert hp hsorted h.nodup h.noInit h.count h.running
        h.below hm hi hrun (fun t h1 h2 => ?_), fun hq => ?_, fun t ht => ?_⟩
      · rcases h.kept t h1 h2 with h3 | h3 | h3
        · exact Or.inr (Or.inl h3)
        · exact Or.inl h3
        · exact Or.inr (Or.inr h3)
      · rcases List.mem_cons.mp (hp.mem_iff.mp hq) with h3 | h3
        · exact hne h3.symm
        · exact h.off h3
      · rcases List.mem_cons.mp (hp.mem_iff.mp ht) with rfl | h3
        · exact hle hrun
        · exact h.front t h3
  · rw [if_neg hrun]
    refine ⟨s, rfl, hsame, hstay (fun t h1 _ h3 => ?_)⟩
    rw [h3] at h1
    exact absurd h1 hrun

/-- `CURRENT` is in front of `task`, which goes back. -/
theorem Sched.Popped.stay (h : s.Popped task) (hlt : s.vrun s.current < s.vrun task) :
    ∃ s₂, insertTaskQueue s task = some s₂ ∧ s.SameTasks s₂ ∧ s₂.Waits s.current := by
  have hoff : s.current ∉ s.taskQueue := fun hm => absurd (h.front _ hm) (not_le.mpr hlt)
  rcases h.next with ⟨hi, hnil⟩ | ⟨hi, hrun⟩
  · have hno : ∀ t, t ∉ s.taskQueue := by simp [hnil]
    refine ⟨s, insertTaskQueue_init hi, ⟨rfl, rfl, rfl⟩, ⟨h.sorted, h.nodup, h.noInit, h.count,
      h.running, fun t h1 h2 => ?_, h.below⟩, hoff, fun t ht => absurd ht (hno t)⟩
    rcases h.kept t h1 h2 with h3 | h3 | h3
    · exact Or.inl h3
    · exact absurd (h3.trans hi) h2
    · exact Or.inr h3
  · obtain ⟨queue, hp, hsorted, he⟩ := insertTaskQueue_new h.sorted (h.below _) hi h.off
    refine ⟨_, he, ⟨rfl, rfl, rfl⟩, QueueOk.insert hp hsorted h.nodup h.noInit h.count h.running
      h.below h.off hi hrun h.kept, fun hq => ?_, fun t ht => ?_⟩
    · rcases List.mem_cons.mp (hp.mem_iff.mp hq) with h3 | h3
      · rw [h3] at hlt
        exact lt_irrefl _ hlt
      · exact hoff h3
    · rcases List.mem_cons.mp (hp.mem_iff.mp ht) with rfl | h3
      · exact hlt.le
      · exact hlt.le.trans (h.front t h3)

theorem share_some (h : s.QueueOk cur) : ∃ n, s.share = some n := by
  refine ⟨_, if_neg ?_⟩
  have := h.count
  omega

/-- The first `switch` of `schedule` does not divide by zero. -/
theorem setJiffies_some (h : s.QueueOk cur) (priority : Int) :
    ∃ n, s.setJiffies priority = some { s with cpuExecTaskJiffies := n } := by
  obtain ⟨n, hn⟩ := share_some h
  unfold Sched.setJiffies
  rw [hn]
  split
  · exact ⟨s.cpuExecTaskJiffies, rfl⟩
  · split
    · exact ⟨n, rfl⟩
    · split
      · exact ⟨n * 3, rfl⟩
      · exact ⟨s.cpuExecTaskJiffies, rfl⟩

/-- Nor does the second. -/
theorem renewJiffies_some (h : s.QueueOk cur) (priority : Int) :
    ∃ n, s.renewJiffies priority = some { s with cpuExecTaskJiffies := n } := by
  obtain ⟨n, hn⟩ := share_some h
  unfold Sched.renewJiffies
  rw [hn]
  split
  · exact ⟨s.cpuExecTaskJiffies, rfl⟩
  · split
    · exact ⟨n, rfl⟩
    · exact ⟨n * 3, rfl⟩

theorem preempt_vrun (t : Nat) (n : Int) : (s.modify t (Task.preempt n)).vrun = s.vrun :=
  modify_vrun rfl

theorem Sched.Waits.congr (h : s.Waits cur) (hi : s'.initTask = s.initTask)
    (hq : s'.taskQueue = s.taskQueue) (hc : s'.runningTaskCount = s.runningTaskCount)
    (hs : ∀ t, (s'.task t).state = (s.task t).state) (hv : s'.vrun = s.vrun) : s'.Waits cur := by
  refine ⟨h.queue.congr hi hq hc hs hv, ?_, ?_⟩
  · rw [hq]
    exact h.off
  · unfold Sched.Front
    rw [hq, hv]
    exact h.front

/-- **`schedule`** behind `get_next_task`. -/
theorem scheduleTask_spec (h : s.Popped task) :
    ∃ s', scheduleTask s task = some s' ∧ s'.Waits s'.current ∧ s'.initTask = s.initTask ∧
      s'.task = Function.update s.task s.current ((s.task s.current).preempt (-1)) ∧
      s'.current = (if s.vrun task ≤ s.vrun s.current ∨ (s.task s.current).state ≠ .running
        then task else s.current) ∧
      ((s.task s'.current).state = .running ∨ s'.current = s.initTask) := by
  have hnext : (s.task task).state = .running ∨ task = s.initTask :=
    h.next.elim (fun h => Or.inr h.1) (fun h => Or.inl h.2)
  unfold scheduleTask
  by_cases hswitch : s.vrun task ≤ s.vrun s.current ∨ (s.task s.current).state ≠ .running
  · rw [if_pos hswitch]
    by_cases hsame : s.current = task
    · -- woken before it was switched out, or idle: it runs on
      rw [if_pos hsame]
      refine ⟨_, rfl, ⟨Sched.QueueOk.congr ⟨h.sorted, h.nodup, h.noInit, h.count, h.running, ?_,
        h.below⟩ rfl rfl rfl (modify_state rfl) (preempt_vrun _ _), ?_, ?_⟩, rfl, rfl, ?_,
        hsame ▸ hnext⟩
      · intro t h1 h2
        rcases h.kept t h1 h2 with h3 | h3 | h3
        · exact Or.inl h3
        · exact Or.inl (h3.trans hsame.symm)
        · exact Or.inr h3
      · show s.current ∉ s.taskQueue
        rw [hsame]
        exact h.off
      · unfold Sched.Front
        rw [preempt_vrun]
        show ∀ t ∈ s.taskQueue, s.vrun s.current ≤ s.vrun t
        rw [hsame]
        exact h.front
      · rw [if_pos hswitch]
        exact hsame
    · rw [if_neg hsame]
      have h₀ : Sched.Popped { s with cpuExecTaskJiffies := 0 } task :=
        ⟨h.sorted, h.nodup, h.noInit, h.count, h.running, h.kept, h.below, h.front, h.off, h.next⟩
      obtain ⟨s₂, he, hs₂, hw⟩ := h₀.leave hsame (fun hrun =>
        hswitch.resolve_right (fun hno => hno hrun))
      obtain ⟨n, hn⟩ := setJiffies_some hw.queue (s₂.task task).priority
      rw [he]
      dsimp only [Option.bind_eq_bind, Option.bind_some]
      rw [hn]
      refine ⟨_, rfl, hw.congr rfl rfl rfl (modify_state rfl) (preempt_vrun _ _), hs₂.initTask, ?_,
        (if_pos hswitch).symm, hnext⟩
      show Function.update s₂.task s₂.current ((s₂.task s₂.current).preempt (-1)) = _
      rw [hs₂.task, hs₂.current]
  · have hcur : (if s.vrun task ≤ s.vrun s.current ∨ (s.task s.current).state ≠ .running
        then task else s.current) = s.current := if_neg hswitch
    rw [if_neg hswitch]
    push Not at hswitch
    obtain ⟨s₂, he, hs₂, hw⟩ := h.stay hswitch.1
    obtain ⟨n, hn⟩ := renewJiffies_some hw.queue (s₂.task task).priority
    rw [he]
    dsimp only [Option.bind_eq_bind, Option.bind_some]
    rw [hn]
    refine ⟨_, rfl, ?_, hs₂.initTask, ?_, hs₂.current.trans hcur.symm, Or.inl ?_⟩
    · show Sched.Waits _ s₂.current
      rw [hs₂.current]
      exact hw.congr rfl rfl rfl (modify_state rfl) (preempt_vrun _ _)
    · show Function.update s₂.task s₂.current ((s₂.task s₂.current).preempt (-1)) = _
      rw [hs₂.task, hs₂.current]
    · show (s.task s₂.current).state = .running
      rw [hs₂.current]
      exact hswitch.2

theorem getNextTask_same : s.SameTasks (getNextTask s).1 := by
  unfold getNextTask
  split <;> exact ⟨rfl, rfl, rfl⟩

theorem getNextTask_next : (getNextTask s).2 = s.taskQueue.headD s.initTask := by
  cases hq : s.taskQueue with
  | nil => rw [getNextTask_nil hq, List.headD_nil]
  | cons task rest => rw [getNextTask_cons hq, List.headD_cons]

/-- **`schedule`** comes back, with the queue right and in front of it the task that runs. Of the
tasks only the flag of the one that called has changed. -/
theorem schedule_spec (h : s.QueueOk s.current) :
    ∃ s', schedule s = some s' ∧ s'.Waits s'.current ∧ s'.initTask = s.initTask ∧
      s'.task = Function.update s.task s.current { s.task s.current with needSchedule := false } ∧
      s'.current = (if s.vrun (s.taskQueue.headD s.initTask) ≤ s.vrun s.current ∨
        (s.task s.current).state ≠ .running then s.taskQueue.headD s.initTask else s.current) ∧
      ((s.task s'.current).state = .running ∨ s'.current = s.initTask) := by
  set f : Task → Task := fun t => { t.preempt 1 with needSchedule := false } with hf
  have h₁ : (s.modify s.current f).QueueOk s.current :=
    h.congr rfl rfl rfl (modify_state rfl) (modify_vrun rfl)
  have hsame := @getNextTask_same (s.modify s.current f)
  obtain ⟨s', he, hw, hi, ht, hc, hr⟩ := scheduleTask_spec (getNextTask_popped h₁)
  rw [hsame.task, hsame.current] at ht
  rw [hsame.initTask] at hi
  rw [hsame.current, hsame.task, getNextTask_next, modify_state rfl] at hc
  rw [hsame.task, hsame.initTask, modify_state rfl] at hr
  have hv : ((getNextTask (s.modify s.current f)).1).vrun = s.vrun := by
    unfold Sched.vrun
    rw [hsame.task]
    exact modify_vrun rfl
  rw [hv] at hc
  refine ⟨s', he, hw, hi, ht.trans ?_, hc, hr⟩
  -- the count is raised and lowered again
  show Function.update (Function.update s.task s.current (f (s.task s.current))) s.current
    ((Function.update s.task s.current (f (s.task s.current)) s.current).preempt (-1)) = _
  rw [Function.update_self, Function.update_idem]
  congr 1
  show ({ s.task s.current with
    preemptCount := (s.task s.current).preemptCount + 1 + -1, needSchedule := false } : Task) = _
  rw [Int.add_neg_cancel_right]

/-- `s'` is a state between two steps, reached from `s` by calls that leave the tasks' states
alone; a task that has been switched to is to run. -/
structure Sched.Rescheduled (s s' : Sched) : Prop where
  inv : s'.Inv
  initTask : s'.initTask = s.initTask
  state : ∀ t, (s'.task t).state = (s.task t).state
  current : s'.current = s.current ∨ (s'.task s'.current).state = .running ∨
    s'.current = s'.initTask

/-- After `schedule` the state is one between two steps. -/
theorem schedule_inv (h : s.QueueOk s.current)
    (hu : ∀ t, t = s.current ∨ t = s.initTask → (s.task t).state ≠ .running →
      (s.task t).preemptCount = 0) :
    ∃ s', schedule s = some s' ∧ s.Rescheduled s' ∧ s'.Front s'.current ∧
      ((s'.task s'.current).state = .running ∨ s'.current = s'.initTask) := by
  obtain ⟨s', he, hw, hi, ht, hc, hr⟩ := schedule_spec h
  have hstate : ∀ t, (s'.task t).state = (s.task t).state := by
    rw [ht]
    exact modify_state (f := fun t => { t with needSchedule := false }) rfl
  have hpre : ∀ t, (s'.task t).preemptCount = (s.task t).preemptCount := by
    intro t
    rw [ht]
    by_cases hu : t = s.current
    · rw [hu, Function.update_self]
    · rw [Function.update_of_ne hu]
  rw [← hstate, ← hi] at hr
  refine ⟨s', he, ⟨⟨hw.queue, hw.off, fun t h1 h2 => ?_⟩, hi, hstate, Or.inr hr⟩, hw.front, hr⟩
  rw [hpre]
  rw [hstate] at h2
  rw [hi] at h1
  rcases h1 with rfl | h1
  · -- a task that has been switched to runs, or is the idle task
    rcases hr with h3 | h3
    · exact absurd ((hstate _).symm.trans h3) h2
    · exact hu _ (Or.inr (h3.trans hi)) h2
  · exact hu t (Or.inr h1) h2

/-- **`ret_from_intr`**, where `CURRENT` is off the queue if it does not reschedule. -/
theorem retFromIntr_inv (h : s.QueueOk s.current)
    (hu : ∀ t, t = s.current ∨ t = s.initTask → (s.task t).state ≠ .running →
      (s.task t).preemptCount = 0) (hoff : s.reschedules = false → s.current ∉ s.taskQueue) :
    ∃ s', retFromIntr s = some s' ∧ s.Rescheduled s' ∧
      (s.reschedules = true → s'.Front s'.current) := by
  unfold retFromIntr
  by_cases hr : s.reschedules = true
  · obtain ⟨s', he, hi, hf, -⟩ := schedule_inv h hu
    rw [if_pos hr]
    exact ⟨s', he, hi, fun _ => hf⟩
  · rw [if_neg hr]
    refine ⟨s, rfl, ⟨⟨h, hoff ?_, hu⟩, rfl, fun _ => rfl, Or.inl rfl⟩, fun hb => absurd hb hr⟩
    simpa using hr

/-! ## Wakes -/

/-- `s'` is `s` with `task` woken: it runs, and is on the queue. -/
structure Sched.Woken (s : Sched) (task : Nat) (s' : Sched) : Prop where
  queue : s'.QueueOk s'.current
  current : s'.current = s.current
  initTask : s'.initTask = s.initTask
  flag : (s'.task s.current).needSchedule = true
  state : ∀ t, (s'.task t).state = if t = task then .running else (s.task t).state
  preempt : ∀ t, (s'.task t).preemptCount = (s.task t).preemptCount
  vrun : s'.vrun = s.vrun
  mem : ∀ t, t ∈ s'.taskQueue ↔ t = task ∧ task ≠ s.initTask ∨ t ∈ s.taskQueue

/-- **A wake** of a task that sleeps, also where it is `CURRENT`. -/
theorem wakeupProcess_spec (h : s.QueueOk s.current) (ht : (s.task task).state ≠ .running) :
    ∃ s', wakeupProcess s task = some s' ∧ s.Woken task s' := by
  set f : Task → Task := fun t => { t with state := .running }
  set g : Task → Task := fun t => { t with needSchedule := true }
  have hoff : task ∉ s.taskQueue := fun hm => ht (h.running task hm)
  have hvrun : (s.modify task f).vrun = s.vrun := modify_vrun rfl
  have hstate : ∀ t, ((s.modify task f).task t).state
      = if t = task then .running else (s.task t).state := by
    intro t
    by_cases hu : t = task
    · subst hu
      rw [modify_task_self, if_pos rfl]
    · rw [modify_task_ne hu, if_neg hu]
  have hpre : ∀ t, ((s.modify task f).task t).preemptCount = (s.task t).preemptCount := by
    intro t
    by_cases hu : t = task
    · subst hu
      rw [modify_task_self]
    · rw [modify_task_ne hu]
  have hrun : ∀ t ∈ s.taskQueue, ((s.modify task f).task t).state = .running := by
    intro t hm
    rw [hstate t]
    split
    · rfl
    · exact h.running t hm
  have hkept : ∀ t, ((s.modify task f).task t).state = .running → t ≠ s.initTask →
      t = s.current ∨ t = task ∨ t ∈ s.taskQueue := by
    intro t h1 h2
    rw [hstate t] at h1
    by_cases hu : t = task
    · exact Or.inr (Or.inl hu)
    · rw [if_neg hu] at h1
      exact (h.kept t h1 h2).imp_right Or.inr
  -- the flag of `CURRENT`, on the state behind the insertion
  have hlast : ∀ s₁ : Sched, insertTaskQueue (s.modify task f) task = some s₁ →
      s₁.task = (s.modify task f).task → s₁.current = s.current → s₁.initTask = s.initTask →
      s₁.QueueOk s.current →
      (∀ t, t ∈ s₁.taskQueue ↔ t = task ∧ task ≠ s.initTask ∨ t ∈ s.taskQueue) →
      ∃ s', wakeupProcess s task = some s' ∧ s.Woken task s' := by
    intro s₁ he htask hc hi hq hmem
    have hv₁ : (s₁.modify s₁.current g).vrun = s₁.vrun := modify_vrun rfl
    refine ⟨s₁.modify s₁.current g, ?_, ?_, hc, hi, ?_, fun t => ?_, fun t => ?_, ?_, hmem⟩
    · rw [wakeupProcess, he]
      rfl
    · show (s₁.modify s₁.current g).QueueOk s₁.current
      rw [hc]
      exact hq.congr rfl rfl rfl (modify_state rfl) (modify_vrun rfl)
    · rw [hc, modify_task_self]
    · rw [modify_state rfl t, htask, hstate t]
    · rw [← hpre t, ← htask]
      by_cases hu : t = s₁.current
      · subst hu
        rw [modify_task_self]
      · rw [modify_task_ne hu]
    · rw [hv₁, ← hvrun]
      unfold Sched.vrun
      rw [htask]
  by_cases hi : task = s.initTask
  · refine hlast _ (insertTaskQueue_init hi) rfl rfl rfl ⟨?_, h.nodup, h.noInit, h.count, hrun,
      fun t h1 h2 => ?_, ?_⟩ (fun t => ?_)
    · rw [hvrun]
      exact h.sorted
    · rcases hkept t h1 h2 with h3 | h3 | h3
      · exact Or.inl h3
      · exact absurd (h3.trans hi) h2
      · exact Or.inr h3
    · rw [hvrun]
      exact h.below
    · show t ∈ s.taskQueue ↔ _
      simp [hi]
  · have hsorted : Sorted (s.modify task f).vrun (s.modify task f).taskQueue := by
      rw [hvrun]
      exact h.sorted
    have hbelow : ∀ t, (s.modify task f).vrun t < SENTINEL := by
      rw [hvrun]
      exact h.below
    obtain ⟨queue, hp, hq, he⟩ := insertTaskQueue_new hsorted (hbelow task) hi hoff
    refine hlast _ he rfl rfl rfl (QueueOk.insert hp hq h.nodup h.noInit h.count hrun hbelow hoff hi
      (by rw [hstate, if_pos rfl]) hkept) (fun t => ?_)
    rw [hp.mem_iff, List.mem_cons, and_iff_left hi]
    rfl

/-! ## Ticks -/

/-- A tick changes the run time and the flag of `CURRENT`, and the time that is left. -/
theorem hpetHandler_eq (s : Sched) : ∃ v b j, hpetHandler s
    = { s.modify s.current (fun t => { t with vrunTime := v, needSchedule := b }) with
        cpuExecTaskJiffies := j } := by
  unfold hpetHandler
  dsimp only
  generalize (s.task s.current).ticks = n
  split
  · refine ⟨(s.task s.current).vrunTime + n, true, s.cpuExecTaskJiffies - n, ?_⟩
    unfold Sched.modify
    dsimp only
    rw [Function.update_self, Function.update_idem]
  · exact ⟨(s.task s.current).vrunTime + n, (s.task s.current).needSchedule,
      s.cpuExecTaskJiffies - n, rfl⟩

theorem hpetHandler_queue (h : s.Inv) (hb : (hpetHandler s).vrun s.current < SENTINEL) :
    (hpetHandler s).QueueOk (hpetHandler s).current ∧
    ∀ t, t = (hpetHandler s).current ∨ t = (hpetHandler s).initTask →
      ((hpetHandler s).task t).state ≠ .running → ((hpetHandler s).task t).preemptCount = 0 := by
  obtain ⟨v, b, j, he⟩ := hpetHandler_eq s
  rw [he] at hb ⊢
  set f : Task → Task := fun t => { t with vrunTime := v, needSchedule := b }
  have hne : ∀ t, t ≠ s.current → (s.modify s.current f).vrun t = s.vrun t := by
    intro t ht
    unfold Sched.vrun
    rw [modify_task_ne ht]
  have hstate : ∀ t, ((s.modify s.current f).task t).state = (s.task t).state := modify_state rfl
  have hq := h.queue
  refine ⟨⟨?_, hq.nodup, hq.noInit, hq.count, fun t ht => ?_, fun t h1 h2 => ?_, fun t => ?_⟩,
    fun t h1 h2 => ?_⟩
  · refine hq.sorted.congr (fun t ht => hne t ?_)
    rintro rfl
    exact h.current ht
  · exact (hstate t).trans (hq.running t ht)
  · exact hq.kept t ((hstate t).symm.trans h1) h2
  · show (s.modify s.current f).vrun t < SENTINEL
    by_cases ht : t = s.current
    · rw [ht]
      exact hb
    · rw [hne t ht]
      exact hq.below t
  · have h3 := h.unlocked t h1 (fun h3 => h2 ((hstate t).trans h3))
    show ((s.modify s.current f).task t).preemptCount = 0
    by_cases ht : t = s.current
    · subst ht
      rw [modify_task_self]
      exact h3
    · rw [modify_task_ne ht]
      exact h3

end

/-! ## Runs -/

/-- The steps: a call of `schedule`, a wake by `CURRENT`, an interrupt with a wake and one without, a
tick, `CURRENT` marking itself sleeping, and its taking and dropping a spin lock. -/
inductive SchedStep
  | schedule
  | wake (task : Nat)
  | interruptWake (task : Nat)
  | interrupt
  | tick
  | sleep
  | lock
  | unlock

/-- The state after a step, and whether its last part was `schedule`. -/
def SchedStep.run (s : Sched) : SchedStep → Option (Sched × Bool)
  | .schedule => (Talios.schedule s).map (fun s' => (s', true))
  | .wake task => (wakeupProcess s task).map (fun s' => (s', false))
  | .interruptWake task =>
      (wakeupProcess s task).bind (fun s₁ =>
        (retFromIntr s₁).map (fun s' => (s', s₁.reschedules)))
  | .interrupt => (retFromIntr s).map (fun s' => (s', s.reschedules))
  | .tick => (retFromIntr (hpetHandler s)).map (fun s' => (s', (hpetHandler s).reschedules))
  | .sleep => some (s.modify s.current (fun t => { t with state := .uninterruptable }), false)
  | .lock => some (s.modify s.current (Task.preempt 1), false)
  | .unlock => some (s.modify s.current (Task.preempt (-1)), false)

/-- Sleeping tasks are woken, and a task that sleeps already by an interrupt if it is `CURRENT`; no
task sleeps with a lock; no run time reaches the sentinel. -/
def SchedStep.Allowed (s : Sched) : SchedStep → Prop
  | .schedule => True
  | .wake task => (s.task task).state ≠ .running ∧ task ≠ s.current
  | .interruptWake task => (s.task task).state ≠ .running
  | .interrupt => True
  | .tick => (hpetHandler s).vrun s.current < SENTINEL
  | .sleep => (s.task s.current).preemptCount = 0
  | .lock => (s.task s.current).state = .running
  | .unlock => (s.task s.current).state = .running

/-- The states from `scheduler_init` on. All tasks but the idle one are still to be woken. -/
inductive SchedReachable : Sched → Prop
  | init {initTask : Nat} {task : Nat → Task}
      (hsleep : ∀ t, t ≠ initTask → (task t).state ≠ .running)
      (hbelow : ∀ t, (task t).vrunTime < SENTINEL) (hlock : (task initTask).preemptCount = 0) :
      SchedReachable (schedulerInit initTask task)
  | step {s s' : Sched} {b : Bool} (c : SchedStep) (h : SchedReachable s) (hok : c.Allowed s)
      (hr : c.run s = some (s', b)) : SchedReachable s'

section

variable {s s' : Sched}

theorem schedulerInit_inv {initTask : Nat} {task : Nat → Task}
    (hsleep : ∀ t, t ≠ initTask → (task t).state ≠ .running)
    (hbelow : ∀ t, (task t).vrunTime < SENTINEL) (hlock : (task initTask).preemptCount = 0) :
    (schedulerInit initTask task).Inv := by
  refine ⟨⟨List.Pairwise.nil, List.nodup_nil, List.not_mem_nil, rfl, fun t ht => ?_,
    fun t h1 h2 => absurd h1 (hsleep t h2), hbelow⟩, List.not_mem_nil, fun t h1 _ => ?_⟩
  · exact absurd ht List.not_mem_nil
  · have h1 : t = initTask := h1.elim id id
    rw [h1]
    exact hlock

theorem Sched.Woken.unlocked {task : Nat} (h : s.Inv) (hw : s.Woken task s') :
    ∀ t, t = s'.current ∨ t = s'.initTask → (s'.task t).state ≠ .running →
      (s'.task t).preemptCount = 0 := by
  intro t h1 h2
  rw [hw.current, hw.initTask] at h1
  rw [hw.state] at h2
  by_cases ht : t = task
  · rw [if_pos ht] at h2
    exact absurd rfl h2
  · rw [if_neg ht] at h2
    rw [hw.preempt]
    exact h.unlocked t h1 h2

/-- Another task has been woken. -/
theorem Sched.Woken.inv {task : Nat} (h : s.Inv) (hw : s.Woken task s') (hne : task ≠ s.current) :
    s'.Inv := by
  refine ⟨hw.queue, ?_, hw.unlocked h⟩
  rw [hw.current, hw.mem]
  rintro (⟨h1, -⟩ | h1)
  · exact hne h1.symm
  · exact h.current h1

/-- `CURRENT` takes or drops a lock. -/
theorem Sched.Inv.lock (h : s.Inv) (hrun : (s.task s.current).state = .running) (n : Int) :
    (s.modify s.current (Task.preempt n)).Inv := by
  have hstate : ∀ t, ((s.modify s.current (Task.preempt n)).task t).state = (s.task t).state :=
    modify_state rfl
  refine ⟨h.queue.congr rfl rfl rfl hstate (modify_vrun rfl), h.current, fun t h1 h2 => ?_⟩
  rw [hstate t] at h2
  by_cases ht : t = s.current
  · subst ht
    exact absurd hrun h2
  · rw [modify_task_ne ht]
    exact h.unlocked t h1 h2

/-- `CURRENT` marks itself sleeping. -/
theorem Sched.Inv.sleep (h : s.Inv) (hlock : (s.task s.current).preemptCount = 0) :
    (s.modify s.current (fun t => { t with state := .uninterruptable })).Inv := by
  set f : Task → Task := fun t => { t with state := .uninterruptable }
  have hq := h.queue
  have hvrun : (s.modify s.current f).vrun = s.vrun := modify_vrun rfl
  refine ⟨⟨?_, hq.nodup, hq.noInit, hq.count, fun t ht => ?_, fun t h1 h2 => ?_, ?_⟩, h.current,
    fun t h1 h2 => ?_⟩
  · rw [hvrun]
    exact hq.sorted
  · have hne : t ≠ s.current := fun he => h.current (he ▸ ht)
    rw [modify_task_ne hne]
    exact hq.running t ht
  · by_cases ht : t = s.current
    · exact Or.inl ht
    · rw [modify_task_ne ht] at h1
      exact hq.kept t h1 h2
  · rw [hvrun]
    exact hq.below
  · by_cases ht : t = s.current
    · subst ht
      rw [modify_task_self]
      exact hlock
    · rw [modify_task_ne ht] at h2 ⊢
      exact h.unlocked t h1 h2

/-- What a step does to the states of the tasks. -/
def SchedStep.stateAfter (s : Sched) : SchedStep → Nat → TaskState
  | .wake task, t => if t = task then .running else (s.task t).state
  | .interruptWake task, t => if t = task then .running else (s.task t).state
  | .sleep, t => if t = s.current then .uninterruptable else (s.task t).state
  | _, t => (s.task t).state

/-- `s'` is a state between two steps, reached by the step `c`. -/
structure Sched.Stepped (s : Sched) (c : SchedStep) (s' : Sched) : Prop where
  inv : s'.Inv
  initTask : s'.initTask = s.initTask
  state : ∀ t, (s'.task t).state = c.stateAfter s t
  current : s'.current = s.current ∨ (s'.task s'.current).state = .running ∨
    s'.current = s'.initTask

/-- **One step**: it comes back, and the queue stays right. -/
theorem Sched.Inv.step (h : s.Inv) (c : SchedStep) (hok : c.Allowed s) :
    ∃ s' b, c.run s = some (s', b) ∧ s.Stepped c s' ∧ (b = true → s'.Front s'.current) := by
  cases c with
  | schedule =>
      obtain ⟨s', he, hi, hf, -⟩ := schedule_inv h.queue h.unlocked
      refine ⟨s', true, ?_, ⟨hi.inv, hi.initTask, hi.state, hi.current⟩, fun _ => hf⟩
      rw [SchedStep.run, he]
      rfl
  | wake task =>
      obtain ⟨s', he, hw⟩ := wakeupProcess_spec h.queue hok.1
      refine ⟨s', false, ?_, ⟨hw.inv h hok.2, hw.initTask, hw.state, Or.inl hw.current⟩,
        fun hb => nomatch hb⟩
      rw [SchedStep.run, he]
      rfl
  | interruptWake task =>
      obtain ⟨s₁, he, hw⟩ := wakeupProcess_spec h.queue hok
      obtain ⟨s', he', hi, hf⟩ := retFromIntr_inv hw.queue (hw.unlocked h) (fun hr => by
        -- a sleeping `CURRENT` holds no lock, so that its wake reschedules
        refine (hw.inv h ?_).current
        rintro rfl
        have hpre := h.unlocked s.current (Or.inl rfl) hok
        rw [Sched.reschedules, hw.current, hw.preempt, hpre, hw.flag] at hr
        exact nomatch hr)
      refine ⟨s', s₁.reschedules, ?_, ⟨hi.inv, hi.initTask.trans hw.initTask,
        fun t => (hi.state t).trans (hw.state t), ?_⟩, hf⟩
      · rw [SchedStep.run, he, Option.bind_some, he']
        rfl
      · rw [← hw.current]
        exact hi.current
  | interrupt =>
      obtain ⟨s', he, hi, hf⟩ := retFromIntr_inv h.queue h.unlocked (fun _ => h.current)
      refine ⟨s', s.reschedules, ?_, ⟨hi.inv, hi.initTask, hi.state, hi.current⟩, hf⟩
      rw [SchedStep.run, he]
      rfl
  | tick =>
      obtain ⟨hq, hu⟩ := hpetHandler_queue h hok
      obtain ⟨v, b, j, htick⟩ := hpetHandler_eq s
      obtain ⟨s', he, hi, hf⟩ := retFromIntr_inv hq hu (fun _ => by
        rw [htick]
        exact h.current)
      refine ⟨s', _, ?_, ⟨hi.inv, ?_, fun t => ?_, ?_⟩, hf⟩
      · rw [SchedStep.run, he]
        rfl
      · rw [hi.initTask, htick]
        rfl
      · rw [hi.state, htick]
        exact modify_state (f := fun t => { t with vrunTime := v, needSchedule := b }) rfl t
      · have hc := hi.current
        rw [htick] at hc
        exact hc
  | sleep =>
      refine ⟨_, false, rfl, ⟨h.sleep hok, rfl, fun t => ?_, Or.inl rfl⟩, fun hb => nomatch hb⟩
      show _ = if t = s.current then TaskState.uninterruptable else (s.task t).state
      by_cases ht : t = s.current
      · subst ht
        rw [modify_task_self, if_pos rfl]
      · rw [modify_task_ne ht, if_neg ht]
  | lock => exact ⟨_, false, rfl, ⟨h.lock hok 1, rfl, modify_state rfl, Or.inl rfl⟩, fun hb => nomatch hb⟩
  | unlock =>
      exact ⟨_, false, rfl, ⟨h.lock hok (-1), rfl, modify_state rfl, Or.inl rfl⟩, fun hb => nomatch hb⟩

theorem SchedReachable.inv (h : SchedReachable s) : s.Inv := by
  induction h with
  | init hsleep hbelow hlock => exact schedulerInit_inv hsleep hbelow hlock
  | step c _ hok hr ih =>
      obtain ⟨s', b, he, hi, -⟩ := ih.step c hok
      rw [he] at hr
      obtain ⟨rfl, rfl⟩ := Prod.mk.inj (Option.some.inj hr)
      exact hi.inv

end

/-- **The run queue.** In every state a run reaches the queue is sorted, has no task twice and not
the idle task, the count is one more than its length, and a task that is to run is `CURRENT` or on
it; and every step comes back, with no queued task in front of `CURRENT` if it has scheduled. -/
theorem run_queue_ok (s : Sched) (h : SchedReachable s) :
    s.taskQueue.Pairwise (fun a b => (s.task a).vrunTime ≤ (s.task b).vrunTime) ∧
    s.taskQueue.Nodup ∧ s.initTask ∉ s.taskQueue ∧
    s.runningTaskCount = 1 + s.taskQueue.length ∧
    (∀ t, (s.task t).state = .running → t ≠ s.initTask → t = s.current ∨ t ∈ s.taskQueue) ∧
    ∀ c : SchedStep, c.Allowed s → ∃ s' b, c.run s = some (s', b) ∧
      (b = true → ∀ t ∈ s'.taskQueue, (s'.task s'.current).vrunTime ≤ (s'.task t).vrunTime) := by
  have hi := h.inv
  refine ⟨hi.queue.sorted, hi.queue.nodup, hi.queue.noInit, hi.queue.count, hi.queue.kept,
    fun c hok => ?_⟩
  obtain ⟨s', b, he, -, hf⟩ := hi.step c hok
  exact ⟨s', b, he, hf⟩

/-- All tasks sleep, and the idle task has address 0. -/
def exampleTasks : Nat → Task := fun _ => ⟨.uninterruptable, false, 0, 2, 0⟩

/-- Task 1 is woken in an interrupt, and runs. -/
theorem exampleSched : ∃ s,
    SchedStep.run (schedulerInit 0 exampleTasks) (.interruptWake 1) = some (s, true) ∧
    SchedReachable s ∧ s.current = 1 ∧ s.initTask = 0 ∧ (s.task 1).state = .running ∧
    (s.task 1).preemptCount = 0 ∧ s.taskQueue = [] ∧ s.vrun 0 = 0 ∧ s.vrun 1 = 0 := by
  have h₀ : SchedReachable (schedulerInit 0 exampleTasks) :=
    .init (fun t _ => by simp [exampleTasks]) (fun t => by show (0 : Int) < _; decide) rfl
  obtain ⟨s, hr, hs⟩ : ∃ s,
      SchedStep.run (schedulerInit 0 exampleTasks) (.interruptWake 1) = some (s, true) ∧
      s.current = 1 ∧ s.initTask = 0 ∧ (s.task 1).state = .running ∧
      (s.task 1).preemptCount = 0 ∧ s.taskQueue = [] ∧ s.vrun 0 = 0 ∧ s.vrun 1 = 0 :=
    ⟨_, rfl, rfl, rfl, rfl, rfl, rfl, rfl, rfl⟩
  exact ⟨s, hr,
    .step (.interruptWake 1) h₀ (show TaskState.uninterruptable ≠ .running by decide) hr, hs⟩

/-- The task marks itself sleeping and is woken before it is switched out. -/
theorem run_queue_ok_example : ∃ s, SchedReachable s ∧ s.current = 1 ∧ s.taskQueue = [] ∧
    s.runningTaskCount = 1 + s.taskQueue.length := by
  have h₀ : SchedReachable (schedulerInit 0 exampleTasks) :=
    .init (fun t _ => by simp [exampleTasks]) (fun t => by show (0 : Int) < _; decide) rfl
  obtain ⟨s₁, s₂, s₃, hr₁, hr₂, hr₃, hp₁, hw₂, hc₃, hq₃⟩ : ∃ s₁ s₂ s₃,
      SchedStep.run (schedulerInit 0 exampleTasks) (.interruptWake 1) = some (s₁, true) ∧
      SchedStep.run s₁ .sleep = some (s₂, false) ∧
      SchedStep.run s₂ (.interruptWake 1) = some (s₃, true) ∧
      (s₁.task s₁.current).preemptCount = 0 ∧ (s₂.task 1).state = .uninterruptable ∧
      s₃.current = 1 ∧ s₃.taskQueue = [] := ⟨_, _, _, rfl, rfl, rfl, rfl, rfl, rfl, rfl⟩
  have h₁ := SchedReachable.step (.interruptWake 1) h₀
    (show TaskState.uninterruptable ≠ .running by decide) hr₁
  have h₂ := SchedReachable.step .sleep h₁ hp₁ hr₂
  have h₃ := SchedReachable.step (.interruptWake 1) h₂
    (show (s₂.task 1).state ≠ .running by rw [hw₂]; decide) hr₃
  exact ⟨s₃, h₃, hc₃, hq₃, (run_queue_ok s₃ h₃).2.2.2.1⟩

/-! ## The idle task -/

/-- The idle task runs only if nothing else is to run. -/
def Sched.IdleYields (s : Sched) : Prop :=
  s.current = s.initTask → ∀ t, t ≠ s.initTask → (s.task t).state ≠ .running

/-- The state before a call of `schedule`: with an empty queue, `CURRENT` has run for less time than
the idle task; with another task first on the queue, the idle task, if it runs, has run for at least
as long. -/
def Sched.Yields (s : Sched) : Prop :=
  match s.taskQueue with
  | [] => s.current = s.initTask ∨ (s.task s.current).state ≠ .running ∨
      s.vrun s.current < s.vrun s.initTask
  | t :: _ => s.current = s.initTask → (s.task s.initTask).state = .running →
      s.vrun t ≤ s.vrun s.initTask

/-- The state in which a step calls `schedule`. -/
def SchedStep.scheduled (s : Sched) : SchedStep → Option Sched
  | .schedule => some s
  | .interruptWake task => wakeupProcess s task
  | .interrupt => some s
  | .tick => some (hpetHandler s)
  | _ => none

section

variable {s s' : Sched}

/-- **`schedule`** and the idle task. -/
theorem schedule_idle (h : s.QueueOk s.current) (he : schedule s = some s') :
    s'.IdleYields ↔ s.Yields := by
  obtain ⟨s'', he', -, hi, ht, hc, -⟩ := schedule_spec h
  obtain rfl := Option.some.inj (he.symm.trans he')
  have hstate : ∀ t, (s'.task t).state = (s.task t).state := by
    rw [ht]
    exact modify_state (f := fun t => { t with needSchedule := false }) rfl
  unfold Sched.IdleYields Sched.Yields
  simp only [hstate, hi]
  cases hq : s.taskQueue with
  | nil =>
      rw [hq, List.headD_nil] at hc
      have hkept : ∀ t, (s.task t).state = .running → t ≠ s.initTask → t = s.current := by
        intro t h1 h2
        have h3 := h.kept t h1 h2
        rw [hq] at h3
        exact h3.resolve_right List.not_mem_nil
      show _ ↔ s.current = s.initTask ∨ (s.task s.current).state ≠ .running ∨
        s.vrun s.current < s.vrun s.initTask
      by_cases hcur : s.current = s.initTask
      · refine iff_of_true (fun _ t h1 h2 => h1 ?_) (Or.inl hcur)
        exact (hkept t h2 h1).trans hcur
      by_cases hrun : (s.task s.current).state = .running
      · by_cases hlt : s.vrun s.current < s.vrun s.initTask
        · rw [if_neg (by push Not; exact ⟨hlt, hrun⟩)] at hc
          exact iff_of_true (fun h1 => absurd (hc.symm.trans h1) hcur) (Or.inr (Or.inr hlt))
        · rw [if_pos (Or.inl (not_lt.mp hlt))] at hc
          refine iff_of_false (fun h1 => h1 hc s.current hcur hrun) ?_
          rintro (h1 | h1 | h1)
          · exact hcur h1
          · exact h1 hrun
          · exact hlt h1
      · refine iff_of_true (fun _ t h1 h2 => ?_) (Or.inr (Or.inl hrun))
        have h3 := hkept t h2 h1
        rw [h3] at h2
        exact hrun h2
  | cons t rest =>
      rw [hq, List.headD_cons] at hc
      have hmem : t ∈ s.taskQueue := by
        rw [hq]
        exact List.mem_cons_self
      have htrun := h.running t hmem
      have htne : t ≠ s.initTask := fun h1 => h.noInit (h1 ▸ hmem)
      show _ ↔ (s.current = s.initTask → (s.task s.initTask).state = .running →
        s.vrun t ≤ s.vrun s.initTask)
      -- some other task is to run, so that the idle task must not
      have hiff : (s'.current = s.initTask → ∀ u, u ≠ s.initTask → (s.task u).state ≠ .running) ↔
          s'.current ≠ s.initTask := by
        constructor
        · exact fun h1 h2 => h1 h2 t htne htrun
        · exact fun h1 h2 => absurd h2 h1
      rw [hiff, hc]
      by_cases hswitch : s.vrun t ≤ s.vrun s.current ∨ (s.task s.current).state ≠ .running
      · rw [if_pos hswitch]
        refine iff_of_true htne (fun h1 h2 => ?_)
        rw [h1] at hswitch
        exact hswitch.resolve_right (fun h3 => h3 h2)
      · rw [if_neg hswitch]
        push Not at hswitch
        constructor
        · exact fun h1 h2 => absurd h2 h1
        · intro h1 h2
          rw [h2] at hswitch
          exact absurd (h1 h2 hswitch.2) (not_le.mpr hswitch.1)

/-- The queue is right wherever a step calls `schedule`. -/
theorem Sched.Inv.scheduled (h : s.Inv) {c : SchedStep} (hok : c.Allowed s) {s₁ : Sched}
    (h₁ : c.scheduled s = some s₁) (hr : c.run s = some (s', true)) :
    s₁.QueueOk s₁.current ∧ schedule s₁ = some s' := by
  -- an interrupt that has rescheduled has called `schedule`
  have hret : ∀ s₂ : Sched, (retFromIntr s₂).map (fun s' => (s', s₂.reschedules)) = some (s', true) →
      schedule s₂ = some s' := by
    intro s₂ hs₂
    obtain ⟨s₃, h2, h3⟩ := Option.map_eq_some_iff.mp hs₂
    obtain ⟨rfl, h4⟩ := Prod.mk.inj h3
    rw [retFromIntr, if_pos h4] at h2
    exact h2
  cases c with
  | schedule =>
      obtain rfl := Option.some.inj h₁
      obtain ⟨s₃, h2, h3⟩ := Option.map_eq_some_iff.mp hr
      obtain ⟨rfl, -⟩ := Prod.mk.inj h3
      exact ⟨h.queue, h2⟩
  | interruptWake task =>
      obtain ⟨s₂, he, hw⟩ := wakeupProcess_spec h.queue hok
      obtain rfl := Option.some.inj (he.symm.trans h₁)
      rw [SchedStep.run, he, Option.bind_some] at hr
      exact ⟨hw.queue, hret _ hr⟩
  | interrupt =>
      obtain rfl := Option.some.inj h₁
      exact ⟨h.queue, hret _ hr⟩
  | tick =>
      obtain rfl := Option.some.inj h₁
      exact ⟨(hpetHandler_queue h hok).1, hret _ hr⟩
  | wake task => exact nomatch h₁
  | sleep => exact nomatch h₁
  | lock => exact nomatch h₁
  | unlock => exact nomatch h₁

end

/-- **The idle task.** In every run, right after a call of `schedule` the idle task runs only if
nothing else is to run, exactly if `Yields` holds where `schedule` was called. -/
theorem idle_yields (s s₁ s' : Sched) (c : SchedStep) (h : SchedReachable s) (hok : c.Allowed s)
    (h₁ : c.scheduled s = some s₁) (hr : c.run s = some (s', true)) :
    s'.IdleYields ↔ s₁.Yields := by
  obtain ⟨hq, he⟩ := h.inv.scheduled hok h₁ hr
  exact schedule_idle hq he

/-- The idle task is interrupted, and makes room for the task that is woken. -/
theorem idle_yields_example : ∃ s',
    SchedStep.run (schedulerInit 0 exampleTasks) (.interruptWake 1) = some (s', true) ∧
      s'.current = 1 ∧ s'.IdleYields := by
  obtain ⟨s', hr, hs, hc, -⟩ := exampleSched
  have h₀ : SchedReachable (schedulerInit 0 exampleTasks) :=
    .init (fun t _ => by simp [exampleTasks]) (fun t => by show (0 : Int) < _; decide) rfl
  obtain ⟨s₁, h₁, hq, hi⟩ : ∃ s₁,
      SchedStep.scheduled (schedulerInit 0 exampleTasks) (.interruptWake 1) = some s₁ ∧
      s₁.taskQueue = [1] ∧ (s₁.task s₁.initTask).state = .uninterruptable := ⟨_, rfl, rfl, rfl⟩
  refine ⟨s', hr, hc, (idle_yields _ s₁ s' (.interruptWake 1) h₀
    (show TaskState.uninterruptable ≠ .running by decide) h₁ hr).mpr ?_⟩
  unfold Sched.Yields
  rw [hq]
  intro _ h2
  rw [hi] at h2
  exact nomatch h2

/-- A task that calls `schedule` with an empty queue, after as much time as the idle task, is left
for that. -/
theorem idle_does_not_yield : ¬ ∀ (s s' : Sched) (c : SchedStep), SchedReachable s → c.Allowed s →
    c.run s = some (s', true) → s'.IdleYields := by
  intro hall
  obtain ⟨s, -, hs, hc, hi, hrun, -, hq, h0, h1⟩ := exampleSched
  obtain ⟨s', he, -⟩ := schedule_spec hs.inv.queue
  have hyields := hall s s' .schedule hs trivial (by rw [SchedStep.run, he]; rfl)
  rw [schedule_idle hs.inv.queue he] at hyields
  unfold Sched.Yields at hyields
  rw [hq, hc, hi, h0, h1] at hyields
  rcases hyields with h2 | h2 | h2
  · exact absurd h2 (by decide)
  · exact h2 hrun
  · exact absurd h2 (by decide)

end Talios
