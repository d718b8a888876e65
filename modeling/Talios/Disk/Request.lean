import Talios.Sched.ScheduleRun

set_option autoImplicit false

/-! # Requests to the disk

`ide_transfer`, `submit`, `wait_for_finish`, `cmd_out`, `end_request` and the handlers of `disk.c`,
over the scheduler. From `cli` to `sti` a task runs without interrupts, so that submitting and
marking itself sleeping is one step; behind `sti` an interrupt may come before the call of
`schedule` does, and also inside it, since the `cli` of `get_next_task` is commented out. Of the places
there, the one behind `get_next_task` is modelled.

A request is the node, with what the statements need to know of it: its place in the order of
submission, the number of sectors asked for, and the interrupts it has had. In the same way the
state has the requests that were issued to the device and those that were freed.
-/

namespace Talios

/-! ## Data -/

inductive DiskCmd
  | read
  | write
deriving DecidableEq

/-- `struct block_buffer_node`, at address `self`; `count` is an `unsigned int`. -/
structure BlockBufferNode where
  self : Nat
  count : Nat
  cmd : DiskCmd
  lba : Nat
  buffer : Nat
  tsk : Nat

structure Request extends BlockBufferNode where
  serial : Nat
  asked : Nat
  interrupts : Nat

/-- Where a task stands: outside `ide_transfer`, behind the `sti` of `wait_for_finish`, or in the
call of `schedule` there. -/
inductive Point
  | outside
  | submitted (serial : Nat)
  | waiting (serial : Nat)
deriving DecidableEq

/-- The request the task waits for. -/
def Point.request : Point → Option Nat
  | .outside => none
  | .submitted serial => some serial
  | .waiting serial => some serial

/-- `disk_request_queue`, the scheduler and the tasks. -/
structure Disk where
  sched : Sched
  queueList : List Request
  inUsing : Option Request
  blockRequestCount : Int
  point : Nat → Point
  submitted : Nat
  issued : List Nat
  freed : List Request

/-! ## `disk.c` -/

/-- `make_request`, in the block `kmalloc` has returned. -/
def makeRequest (d : Disk) (self : Nat) (cmd : DiskCmd) (blocks count buffer : Nat) : Request where
  self := self
  count := count % 2 ^ 32
  cmd := cmd
  lba := blocks
  buffer := buffer
  tsk := d.sched.current
  serial := d.submitted
  asked := count
  interrupts := 0

/-- `cmd_out`: the first node of the list goes to the device. -/
def cmdOut (d : Disk) : Option Disk :=
  match d.queueList with
  | [] => none
  | node :: rest => some { d with
      inUsing := some node, queueList := rest, blockRequestCount := d.blockRequestCount - 1
      issued := d.issued ++ [node.serial] }

/-- `submit`. -/
def submit (d : Disk) (node : Request) : Option Disk :=
  let d₁ := { d with
    blockRequestCount := d.blockRequestCount + 1, queueList := d.queueList ++ [node]
    submitted := d.submitted + 1 }
  if d.inUsing.isNone then cmdOut d₁ else some d₁

/-- `wait_for_finish` up to `sti`: the task goes on to `schedule`, or returns. -/
def waitForFinish (d : Disk) (serial : Nat) : Disk :=
  let d₁ := { d with sched := { d.sched with cpuExecTaskJiffies := 0 } }
  if (d.sched.task d.sched.current).state = .uninterruptable then
    { d₁ with point := Function.update d.point d.sched.current (.submitted serial) }
  else d₁

/-- `ide_transfer` up to the `sti` of `wait_for_finish`. -/
def ideTransfer (d : Disk) (self : Nat) (cmd : DiskCmd) (blocks count buffer : Nat) :
    Option Disk :=
  let node := makeRequest d self cmd blocks count buffer
  let d₁ := { d with
    sched := d.sched.modify d.sched.current (fun t => { t with state := .uninterruptable }) }
  (submit d₁ node).map (fun d₂ => waitForFinish d₂ node.serial)

/-- The part of `end_request` that starts the next request. -/
def startNext (d : Disk) : Option Disk :=
  -- the counter tells whether a request waits, not the list
  if d.blockRequestCount ≠ 0 then cmdOut { d with inUsing := none }
  else some { d with inUsing := none }

/-- `end_request`. -/
def endRequest (d : Disk) (node : Request) : Option Disk := do
  let d₁ ← startNext d
  let sched ← wakeupProcess d₁.sched node.tsk
  some { d₁ with sched := sched, freed := d₁.freed ++ [node] }

/-- `read_handler` and `write_handler`, as far as the node is concerned. -/
@[irreducible]
def Request.interrupted (node : Request) : Request :=
  { node with
    count := (node.count + (2 ^ 32 - 1)) % 2 ^ 32, buffer := (node.buffer + 512) % 2 ^ 64
    interrupts := node.interrupts + 1 }

/-- `disk_irq_handler`. -/
def diskIrqHandler (d : Disk) : Option Disk :=
  match d.inUsing with
  -- `in_using` is null: the handler would be called through it
  | none => none
  | some node =>
      let d₁ := { d with inUsing := some node.interrupted }
      if node.interrupted.count = 0 then endRequest d₁ node.interrupted else some d₁

/-- A disk interrupt: the handler, and `ret_from_intr`. -/
def diskInterrupt (d : Disk) : Option Disk :=
  (diskIrqHandler d).bind fun d₁ => (retFromIntr d₁.sched).map fun sched => { d₁ with sched := sched }

def diskInterrupts : Nat → Disk → Option Disk
  | 0, d => some d
  | n + 1, d => (diskInterrupt d).bind (diskInterrupts n)

/-- `schedule`, with a number of disk interrupts between `get_next_task` and the look at the state of
`CURRENT`. -/
def scheduleWithin (d : Disk) (n : Nat) : Option Disk :=
  let s := d.sched.modify d.sched.current (fun t => { t.preempt 1 with needSchedule := false })
  let r := getNextTask s
  (diskInterrupts n { d with sched := r.1 }).bind fun d₁ =>
    (scheduleTask d₁.sched r.2).map fun sched => { d₁ with sched := sched }

/-- The state behind `disk_init`. -/
def diskInit (sched : Sched) : Disk := ⟨sched, [], none, 0, fun _ => .outside, 0, [], []⟩

/-! ## Steps -/

/-- A task calls `ide_transfer`, calls `schedule` in `wait_for_finish`, with a number of disk interrupts
inside the call, or returns; the disk interrupts; or the scheduler makes a step of its own. -/
inductive DiskStep
  | transfer (self : Nat) (cmd : DiskCmd) (blocks count buffer : Nat)
  | schedule (within : Nat)
  | ret
  | interrupt
  | other (c : SchedStep)

def DiskStep.run (d : Disk) : DiskStep → Option Disk
  | .transfer self cmd blocks count buffer => ideTransfer d self cmd blocks count buffer
  | .schedule within =>
      match d.point d.sched.current with
      | .submitted serial =>
          (scheduleWithin d within).map (fun d₁ => { d₁ with
            point := Function.update d₁.point d.sched.current (.waiting serial) })
      | _ => none
  | .ret => some { d with point := Function.update d.point d.sched.current .outside }
  | .interrupt => diskInterrupt d
  | .other c => (c.run d.sched).map (fun r => { d with sched := r.1 })

/-- The requests that are not completed, in the order of submission. -/
def Disk.outstanding (d : Disk) : List Request := d.inUsing.toList ++ d.queueList

/-- The steps the scheduler makes by itself: `CURRENT` is outside `ide_transfer` where the step is
its own, and a task in `ide_transfer` is woken by nobody else. -/
def Disk.AllowedOther (d : Disk) : SchedStep → Prop
  | .schedule => d.point d.sched.current = .outside
  | .wake task => d.point d.sched.current = .outside ∧ d.point task = .outside
  | .interruptWake task => d.point task = .outside
  | .interrupt => True
  | .tick => True
  | .sleep => d.point d.sched.current = .outside
  | .lock => d.point d.sched.current = .outside
  | .unlock => d.point d.sched.current = .outside

/-- When a step can be made. A task that runs and holds no lock, and is not the idle task, asks for
a number of sectors that `ok` allows, and gets a block that is free; the disk interrupts for the
request in service, inside a call of `schedule` as often as `inside` allows. -/
def DiskStep.Allowed (ok inside : Nat → Prop) (d : Disk) : DiskStep → Prop
  | .transfer self _ _ count _ =>
      d.point d.sched.current = .outside ∧ d.sched.current ≠ d.sched.initTask ∧
      (d.sched.task d.sched.current).state = .running ∧
      (d.sched.task d.sched.current).preemptCount = 0 ∧
      (∀ r ∈ d.outstanding, r.self ≠ self) ∧ ok count
  | .schedule within => (∃ serial, d.point d.sched.current = .submitted serial) ∧ inside within
  | .ret => ∃ serial, d.point d.sched.current = .waiting serial
  | .interrupt => d.inUsing ≠ none
  | .other c => c.Allowed d.sched ∧ d.AllowedOther c

/-- The states after `disk_init`. -/
inductive DiskReachable (ok inside : Nat → Prop) : Disk → Prop
  | init {sched : Sched} (h : SchedReachable sched) : DiskReachable ok inside (diskInit sched)
  | step {d d' : Disk} (c : DiskStep) (h : DiskReachable ok inside d) (hok : c.Allowed ok inside d)
      (hr : c.run d = some d') : DiskReachable ok inside d'

end Talios
