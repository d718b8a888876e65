import Talios.Sched.ScheduleRun

set_option autoImplicit false

/-! # Wait queues

`waitqueue.c`. A wait queue is the sequence of the waiting tasks from `wait_list.next` of its head
on. `sleep_on` is three steps, for it runs with interrupts enabled: `CURRENT` marks itself sleeping,
puts itself on the queue, and calls `schedule`.
-/

namespace Talios

/-- The value of `enum TASK_STATE`. -/
def TaskState.value : TaskState → Nat
  | .running => 0
  | .uninterruptable => 1

/-- `CURRENT->state = TASK_UNINTERRUPTABLE`. -/
def Sched.markSleeping (s : Sched) : Sched :=
  s.modify s.current (fun t => { t with state := .uninterruptable })

/-- `ListForeAdd` of `sleep_on`: the entry goes in front of the head, that is, to the end. -/
def waitLink (queue : List Nat) (tsk : Nat) : List Nat := queue ++ [tsk]

/-- `wake_up`. -/
def wakeUp (s : Sched) (queue : List Nat) (state : TaskState) : Option (Sched × List Nat) :=
  match queue with
  | [] => some (s, [])
  | tsk :: rest =>
      if (s.task tsk).state.value &&& state.value ≠ 0 then
        (wakeupProcess s tsk).map (fun s' => (s', rest))
      else some (s, tsk :: rest)

section

variable {s : Sched} {queue : List Nat}

/-- `TASK_RUNING` is zero: such a call wakes nobody. -/
theorem wakeUp_running : wakeUp s queue .running = some (s, queue) := by
  cases queue with
  | nil => rfl
  | cons tsk rest =>
      show (if (s.task tsk).state.value &&& 0 ≠ 0 then _ else _) = _
      rw [Nat.and_zero, if_neg (by simp)]

/-- The first task of the queue sleeps, and is woken. -/
theorem wakeUp_uninterruptable {tsk : Nat} {rest : List Nat}
    (h : (s.task tsk).state = .uninterruptable) :
    wakeUp s (tsk :: rest) .uninterruptable
      = (wakeupProcess s tsk).map (fun s' => (s', rest)) := by
  show (if (s.task tsk).state.value &&& 1 ≠ 0 then _ else _) = _
  rw [h]
  rfl

theorem markSleeping_state (t : Nat) : (s.markSleeping.task t).state
    = if t = s.current then .uninterruptable else (s.task t).state := by
  unfold Sched.markSleeping
  by_cases ht : t = s.current
  · rw [if_pos ht, ht, modify_task_self]
  · rw [if_neg ht, modify_task_ne ht]

end

end Talios
