import Mathlib.Data.Int.Order.Basic
import Mathlib.Logic.Function.Basic
import Talios.Lib.SortedQueue

set_option autoImplicit false

/-! # The scheduler of one processor

`schedule.c`, `wakeup_process`, the timer tick of `hpet_handler` and the return from an interrupt in
`entry.S`. A task is known by the address of its `TaskStruct`, and the run queue is the sequence of
the tasks from `task_queue.list.next` on. `none` is a call that does not come back: the walk of
`insert_task_queue` runs past the head of the queue, whose `vrun_time` is a sentinel, or
`running_task_count` is zero where it divides.
-/

namespace Talios

open SortedQueue

/-! ## Data -/

inductive TaskState
  | running
  | uninterruptable
deriving DecidableEq

/-- The fields of `TaskStruct` the scheduler uses; `needSchedule` is the bit of `flags`. -/
structure Task where
  state : TaskState
  needSchedule : Bool
  preemptCount : Int
  priority : Int
  vrunTime : Int

/-- `struct scheduler`, with the tasks, `CURRENT` and the idle task of the processor. -/
structure Sched where
  initTask : Nat
  current : Nat
  task : Nat → Task
  taskQueue : List Nat
  runningTaskCount : Int
  cpuExecTaskJiffies : Int
  minVrunTime : Int

/-- `task_queue.vrun_time`. -/
def SENTINEL : Int := 0x7fffffffffffffff

def Sched.vrun (s : Sched) (t : Nat) : Int := (s.task t).vrunTime

def Sched.modify (s : Sched) (t : Nat) (f : Task → Task) : Sched :=
  { s with task := Function.update s.task t (f (s.task t)) }

/-! ## `schedule.c` -/

/-- `get_next_task`: the first task of the queue, or the idle task. -/
def getNextTask (s : Sched) : Sched × Nat :=
  match s.taskQueue with
  | [] => ({ s with minVrunTime := s.vrun s.current }, s.initTask)
  | task :: rest =>
      ({ s with
          taskQueue := rest, runningTaskCount := s.runningTaskCount - 1
          minVrunTime := min (s.vrun task) (s.vrun s.current) }, task)

/-- What the walk of `insert_task_queue` comes to. -/
inductive Walk
  | found
  | placed (queue : List Nat)
  | endless

/-- The loop of `insert_task_queue`, which stands at the first task of the list; behind the last
one comes the head of the queue. -/
def queueWalk (vrun : Nat → Int) (task : Nat) : List Nat → Walk
  | [] => if SENTINEL ≤ vrun task then .endless else .placed [task]
  | tmp :: rest =>
      if vrun tmp ≤ vrun task then
        -- the task is in the queue already
        if tmp = task then .found
        else
          match queueWalk vrun task rest with
          | .found => .found
          | .placed queue => .placed (tmp :: queue)
          | .endless => .endless
      else .placed (task :: tmp :: rest)

/-- `insert_task_queue`. -/
def insertTaskQueue (s : Sched) (task : Nat) : Option Sched :=
  -- the idle task is never queued
  if task = s.initTask then some s
  else
    match (if s.taskQueue = [] then .placed [task] else queueWalk s.vrun task s.taskQueue) with
    | .endless => none
    | .found => some s
    | .placed queue =>
        some { s with
          taskQueue := queue, runningTaskCount := s.runningTaskCount + 1
          minVrunTime := min s.minVrunTime (s.vrun task) }

/-- `4 / running_task_count`. -/
def Sched.share (s : Sched) : Option Int :=
  if s.runningTaskCount = 0 then none else some (Int.tdiv 4 s.runningTaskCount)

/-- The time of the task that is switched to, where none is left. -/
def Sched.setJiffies (s : Sched) (priority : Int) : Option Sched :=
  if 0 < s.cpuExecTaskJiffies then some s
  else if priority = 0 ∨ priority = 1 then
    s.share.map (fun n => { s with cpuExecTaskJiffies := n })
  else if priority = 2 then
    s.share.map (fun n => { s with cpuExecTaskJiffies := n * 3 })
  else some s

/-- The time of the task that stays, by the priority of the one that was looked at. -/
def Sched.renewJiffies (s : Sched) (priority : Int) : Option Sched :=
  if s.cpuExecTaskJiffies ≠ 0 then some s
  else if priority = 0 ∨ priority = 1 then
    s.share.map (fun n => { s with cpuExecTaskJiffies := n })
  else s.share.map (fun n => { s with cpuExecTaskJiffies := n * 3 })

/-- `CURRENT` is queued if it runs on. -/
def Sched.queueCurrent (s : Sched) : Option Sched :=
  if (s.task s.current).state = .running then insertTaskQueue s s.current else some s

def Task.preempt (n : Int) (t : Task) : Task := { t with preemptCount := t.preemptCount + n }

/-- `SWITCH_TO`: the count that `schedule` has raised is lowered in `__Switch_To`. -/
def Sched.switchTo (s : Sched) (next : Nat) : Sched :=
  { s.modify s.current (Task.preempt (-1)) with current := next }

/-- `schedule` behind `get_next_task`. -/
def scheduleTask (s : Sched) (task : Nat) : Option Sched :=
  if s.vrun task ≤ s.vrun s.current ∨ (s.task s.current).state ≠ .running then
    if s.current = task then some (s.modify s.current (Task.preempt (-1)))
    else do
      let s₁ ← { s with cpuExecTaskJiffies := 0 }.queueCurrent
      let s₂ ← s₁.setJiffies (s₁.task task).priority
      some (s₂.switchTo task)
  -- the task that was looked at goes back to the queue, and `CURRENT` runs on
  else do
    let s₁ ← insertTaskQueue s task
    let s₂ ← s₁.renewJiffies (s₁.task task).priority
    some (s₂.modify s₂.current (Task.preempt (-1)))

/-- `schedule`. -/
def schedule (s : Sched) : Option Sched :=
  let s := s.modify s.current (fun t => { t.preempt 1 with needSchedule := false })
  let r := getNextTask s
  scheduleTask r.1 r.2

/-- `scheduler_init`, with the tasks as they are then. -/
def schedulerInit (initTask : Nat) (task : Nat → Task) : Sched where
  initTask := initTask
  current := initTask
  task := task
  taskQueue := []
  runningTaskCount := 1
  cpuExecTaskJiffies := 4
  minVrunTime := (task initTask).vrunTime

/-! ## The other steps -/

/-- `wakeup_process`, and the wake of `end_request`. -/
def wakeupProcess (s : Sched) (task : Nat) : Option Sched := do
  let s₁ ← insertTaskQueue (s.modify task (fun t => { t with state := .running })) task
  some (s₁.modify s₁.current (fun t => { t with needSchedule := true }))

/-- What a tick counts for a task. -/
def Task.ticks (t : Task) : Int :=
  if t.priority = 0 ∨ t.priority = 1 then 1 else if t.priority = 2 then 2 else 0

/-- `hpet_handler`. -/
def hpetHandler (s : Sched) : Sched :=
  let n := (s.task s.current).ticks
  let s := s.modify s.current (fun t => { t with vrunTime := t.vrunTime + n })
  let s := { s with cpuExecTaskJiffies := s.cpuExecTaskJiffies - n }
  if s.cpuExecTaskJiffies ≤ 0 then
    s.modify s.current (fun t => { t with needSchedule := true })
  else s

/-- `ret_from_intr` goes on to `reschedule`. -/
def Sched.reschedules (s : Sched) : Bool :=
  decide ((s.task s.current).preemptCount = 0) && (s.task s.current).needSchedule

/-- `ret_from_intr`. -/
def retFromIntr (s : Sched) : Option Sched :=
  if s.reschedules then schedule s else some s

end Talios
