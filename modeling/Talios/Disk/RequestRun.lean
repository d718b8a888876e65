import Talios.Disk.Request

set_option autoImplicit false

/-! # The request protocol

What holds over every interleaving of tasks, disk interrupts and the scheduler: requests are served
in the order of submission, each for as many interrupts as sectors were asked for, and its task
sleeps until then and no longer.

The number of sectors is a `long` of `ide_transfer` that the node has as an `unsigned int`. Up to
`2 ^ 32` sectors that makes no difference (a count of zero is counted down through `2 ^ 32`); with
more, the request ends too early.

An interrupt inside `schedule` may wake the task that is going to sleep when the next one has been taken
off the queue. If that one is behind it, the task goes on and is left on the queue; in its next
`ide_transfer` it then finds itself there, and does not wait.
-/

namespace Talios

/-! ## What holds -/

/-- A request that is not completed: its count stands for the interrupts that are still to come. -/
structure Request.Pending (r : Request) : Prop where
  upper : r.asked ≤ 2 ^ 32
  early : r.interrupts < r.asked
  count : r.count = (r.asked - r.interrupts) % 2 ^ 32

/-- The state between two steps. -/
structure Disk.Inv (d : Disk) : Prop where
  sched : d.sched.Inv
  count : d.blockRequestCount = d.queueList.length
  busy : d.inUsing = none → d.queueList = []
  serials : d.freed.map Request.serial ++ d.outstanding.map Request.serial = List.range d.submitted
  issued : d.issued = d.freed.map Request.serial ++ d.inUsing.toList.map Request.serial
  done : ∀ r ∈ d.freed, r.interrupts = r.asked
  pending : ∀ r ∈ d.outstanding, r.Pending
  sleeps : ∀ r ∈ d.outstanding, (d.sched.task r.tsk).state = .uninterruptable ∧
    r.tsk ≠ d.sched.initTask ∧ (d.point r.tsk).request = some r.serial
  waits : ∀ t k, (d.point t).request = some k →
    (∃ r ∈ d.outstanding, r.serial = k ∧ r.tsk = t) ∨
    (k ∈ d.freed.map Request.serial ∧ (d.sched.task t).state = .running)
  ready : ∀ k, d.point d.sched.current = .waiting k →
    (d.sched.task d.sched.current).state = .running
  idle : d.point d.sched.initTask = .outside

section

variable {d d' : Disk}

/-- Two requests have not the same task. -/
theorem Disk.Inv.tsk_inj (h : d.Inv) {r r' : Request} (hr : r ∈ d.outstanding)
    (hr' : r' ∈ d.outstanding) (ht : r.tsk = r'.tsk) : r.serial = r'.serial := by
  have h1 := (h.sleeps r hr).2.2
  have h2 := (h.sleeps r' hr').2.2
  rw [ht, h2] at h1
  exact (Option.some.inj h1).symm

/-- What the scheduler does, seen from the requests: no task in `ide_transfer` changes its state, and
one that is switched to is to run. -/
theorem Disk.Inv.sched_step (h : d.Inv) {s : Sched} (hs : s.Inv)
    (hi : s.initTask = d.sched.initTask)
    (hstate : ∀ t k, (d.point t).request = some k → (s.task t).state = (d.sched.task t).state)
    (hc : s.current = d.sched.current ∨ (s.task s.current).state = .running ∨
      s.current = s.initTask) : ({ d with sched := s } : Disk).Inv := by
  refine ⟨hs, h.count, h.busy, h.serials, h.issued, h.done, h.pending, fun r hr => ?_,
    fun t k hk => ?_, fun k hk => ?_, ?_⟩
  · obtain ⟨h1, h2, h3⟩ := h.sleeps r hr
    exact ⟨(hstate _ _ h3).trans h1, hi ▸ h2, h3⟩
  · exact (h.waits t k hk).imp_right (fun h1 => ⟨h1.1, (hstate t k hk).trans h1.2⟩)
  · have hk : d.point s.current = .waiting k := hk
    show (s.task s.current).state = .running
    rcases hc with h1 | h1 | h1
    · have hreq : (d.point s.current).request = some k := by rw [hk]; rfl
      rw [h1] at hk
      rw [hstate _ k hreq, h1]
      exact h.ready k hk
    · exact h1
    · rw [h1, hi, h.idle] at hk
      exact nomatch hk
  · show d.point s.initTask = .outside
    rw [hi]
    exact h.idle

/-! ## Submitting -/

/-- `d'` is `d` with one request more at the end. -/
structure Disk.Submitted (d : Disk) (node : Request) (d' : Disk) : Prop where
  outstanding : d'.outstanding = d.outstanding ++ [node]
  count : d'.blockRequestCount = d'.queueList.length
  busy : d'.inUsing ≠ none
  submitted : d'.submitted = d.submitted + 1
  freed : d'.freed = d.freed
  issued : d'.issued = d.freed.map Request.serial ++ d'.inUsing.toList.map Request.serial

/-- **`submit`**: the request goes to the end of the list, or to the device if that is free. -/
theorem submit_spec (hcount : d.blockRequestCount = d.queueList.length)
    (hbusy : d.inUsing = none → d.queueList = [])
    (hissued : d.issued = d.freed.map Request.serial ++ d.inUsing.toList.map Request.serial)
    (node : Request) :
    ∃ d', submit d node = some d' ∧ d.Submitted node d' ∧ d'.sched = d.sched ∧
      d'.point = d.point := by
  unfold submit
  dsimp only
  cases hu : d.inUsing with
  | none =>
      have hq := hbusy hu
      rw [hu] at hissued
      rw [hq] at hcount
      rw [if_pos (show (none : Option Request).isNone = true from rfl), cmdOut]
      dsimp only
      rw [hq]
      refine ⟨_, rfl, ⟨?_, ?_, (fun h => nomatch h), rfl, rfl, ?_⟩, rfl, rfl⟩
      · unfold Disk.outstanding
        rw [hu, hq]
        rfl
      · show d.blockRequestCount + 1 - 1 = 0
        rw [hcount]
        rfl
      · show d.issued ++ [node.serial] = _ ++ [node.serial]
        rw [hissued]
        simp
  | some r =>
      rw [if_neg (by simp)]
      refine ⟨_, rfl, ⟨?_, ?_, (fun h => nomatch h), rfl, rfl, ?_⟩, rfl, rfl⟩
      · unfold Disk.outstanding
        rw [hu]
        rfl
      · show d.blockRequestCount + 1 = ((d.queueList ++ [node]).length : Int)
        rw [hcount, List.length_append]
        rfl
      · rw [hissued, hu]

/-- **`ide_transfer`** up to `sti`: the request is submitted, and `CURRENT` sleeps. -/
theorem ideTransfer_spec (h : d.Inv) (self blocks count buffer : Nat) (cmd : DiskCmd) :
    ∃ d', ideTransfer d self cmd blocks count buffer = some d' ∧
      d.Submitted (makeRequest d self cmd blocks count buffer) d' ∧
      d'.sched = { d.sched.modify d.sched.current (fun t => { t with state := .uninterruptable })
        with cpuExecTaskJiffies := 0 } ∧
      d'.point = Function.update d.point d.sched.current (.submitted d.submitted) := by
  set s₁ := d.sched.modify d.sched.current (fun t => { t with state := .uninterruptable }) with hs₁
  obtain ⟨d₁, he, hsub, hsched, hpoint⟩ := @submit_spec { d with sched := s₁ } h.count h.busy
    h.issued (makeRequest d self cmd blocks count buffer)
  have hcur : d₁.sched.current = d.sched.current := by
    rw [hsched]
    rfl
  have hstate : (d₁.sched.task d₁.sched.current).state = .uninterruptable := by
    rw [hcur, hsched]
    show (s₁.task d.sched.current).state = _
    rw [hs₁, modify_task_self]
  refine ⟨waitForFinish d₁ d.submitted, ?_, ?_, ?_, ?_⟩
  · show (submit { d with sched := s₁ } (makeRequest d self cmd blocks count buffer)).map _ = _
    rw [he]
    rfl
  · unfold waitForFinish
    rw [if_pos hstate]
    exact ⟨hsub.outstanding, hsub.count, hsub.busy, hsub.submitted, hsub.freed, hsub.issued⟩
  · unfold waitForFinish
    rw [if_pos hstate]
    show ({ d₁.sched with cpuExecTaskJiffies := 0 } : Sched) = _
    rw [hsched]
  · unfold waitForFinish
    rw [if_pos hstate]
    show Function.update d₁.point d₁.sched.current (.submitted d.submitted) = _
    rw [hcur, hpoint]

/-- A task submits a request. -/
theorem Disk.Inv.transfer (h : d.Inv) {self blocks count buffer : Nat} {cmd : DiskCmd}
    (hok : (DiskStep.transfer self cmd blocks count buffer).Allowed
      (fun n => 1 ≤ n ∧ n ≤ 2 ^ 32) (· = 0) d) :
    ∃ d', (DiskStep.transfer self cmd blocks count buffer).run d = some d' ∧ d'.Inv ∧
      d'.freed = d.freed := by
  obtain ⟨hout, hinit, hrun, hlock, -, hpos, hle⟩ := hok
  obtain ⟨d', he, hsub, hsched, hpoint⟩ := ideTransfer_spec h self blocks count buffer cmd
  set node := makeRequest d self cmd blocks count buffer
  set s₁ := d.sched.modify d.sched.current (fun t => { t with state := .uninterruptable }) with hs₁
  have hs₁inv := h.sched.sleep hlock
  have hcur : d'.sched.current = d.sched.current := by rw [hsched]; rfl
  have hinitTask : d'.sched.initTask = d.sched.initTask := by rw [hsched]; rfl
  have hself : (d'.sched.task d.sched.current).state = .uninterruptable := by
    rw [hsched]
    show (s₁.task d.sched.current).state = _
    rw [hs₁, modify_task_self]
  have hother : ∀ t, t ≠ d.sched.current → d'.sched.task t = d.sched.task t := by
    intro t ht
    rw [hsched]
    show s₁.task t = _
    rw [hs₁, modify_task_ne ht]
  have hpself : d'.point d.sched.current = .submitted d.submitted := by
    rw [hpoint, Function.update_self]
  have hpother : ∀ t, t ≠ d.sched.current → d'.point t = d.point t := by
    intro t ht
    rw [hpoint, Function.update_of_ne ht]
  -- the tasks of the other requests are other tasks, since `CURRENT` was outside
  have hne : ∀ r ∈ d.outstanding, r.tsk ≠ d.sched.current := by
    intro r hr he
    have h1 := (h.sleeps r hr).2.2
    rw [he, hout] at h1
    exact nomatch h1
  refine ⟨d', he, ⟨?_, hsub.count, fun hn => absurd hn hsub.busy, ?_, ?_, ?_, fun r hr => ?_,
    fun r hr => ?_, fun t k hk => ?_, fun k hk => ?_, ?_⟩, hsub.freed⟩
  · rw [hsched]
    exact ⟨⟨hs₁inv.queue.sorted, hs₁inv.queue.nodup, hs₁inv.queue.noInit, hs₁inv.queue.count,
      hs₁inv.queue.running, hs₁inv.queue.kept, hs₁inv.queue.below⟩, hs₁inv.current,
      hs₁inv.unlocked⟩
  · rw [hsub.outstanding, hsub.freed, hsub.submitted, List.map_append, ← List.append_assoc,
      h.serials, List.range_succ]
    rfl
  · rw [hsub.issued, hsub.freed]
  · rw [hsub.freed]
    exact h.done
  · rw [hsub.outstanding] at hr
    rcases List.mem_append.mp hr with hr | hr
    · exact h.pending r hr
    · obtain rfl := List.mem_singleton.mp hr
      exact ⟨hle, hpos, rfl⟩
  · rw [hsub.outstanding] at hr
    rw [hinitTask]
    rcases List.mem_append.mp hr with hr | hr
    · obtain ⟨h1, h2, h3⟩ := h.sleeps r hr
      rw [hother _ (hne r hr), hpother _ (hne r hr)]
      exact ⟨h1, h2, h3⟩
    · obtain rfl := List.mem_singleton.mp hr
      refine ⟨hself, hinit, ?_⟩
      show (d'.point d.sched.current).request = some d.submitted
      rw [hpself]
      rfl
  · rw [hsub.outstanding, hsub.freed]
    by_cases ht : t = d.sched.current
    · subst ht
      rw [hpself] at hk
      exact Or.inl ⟨node, by simp, Option.some.inj hk, rfl⟩
    · rw [hpother t ht] at hk
      rw [hother t ht]
      refine (h.waits t k hk).imp_left ?_
      rintro ⟨r, hr, h1⟩
      exact ⟨r, List.mem_append_left _ hr, h1⟩
  · rw [hcur, hpself] at hk
    exact nomatch hk
  · rw [hinitTask, hpother _ hinit.symm]
    exact h.idle

/-! ## Interrupts -/

section

variable {r : Request}

theorem interrupted_count : r.interrupted.count = (r.count + (2 ^ 32 - 1)) % 2 ^ 32 := by
  simp only [Request.interrupted]

theorem interrupted_interrupts : r.interrupted.interrupts = r.interrupts + 1 := by
  simp only [Request.interrupted]

theorem interrupted_asked : r.interrupted.asked = r.asked := by
  simp only [Request.interrupted]

theorem interrupted_serial : r.interrupted.serial = r.serial := by
  simp only [Request.interrupted]

theorem interrupted_tsk : r.interrupted.tsk = r.tsk := by
  simp only [Request.interrupted]

theorem Request.Pending.count_next (h : r.Pending) :
    r.interrupted.count = (r.asked - (r.interrupts + 1)) % 2 ^ 32 := by
  have hcount := h.count
  have hearly := h.early
  rw [interrupted_count]
  omega

/-- The request ends with the interrupt for its last sector. -/
theorem Request.Pending.last (h : r.Pending) (hz : r.interrupted.count = 0) :
    r.interrupts + 1 = r.asked := by
  have hcount := h.count_next
  have hup := h.upper
  have hearly := h.early
  rw [hz] at hcount
  omega

theorem Request.Pending.next (h : r.Pending) (hz : r.interrupted.count ≠ 0) :
    r.interrupted.Pending := by
  have hcount := h.count_next
  have hearly := h.early
  refine ⟨?_, ?_, ?_⟩
  · rw [interrupted_asked]
    exact h.upper
  · rw [interrupted_asked, interrupted_interrupts]
    by_contra hge
    rw [show r.asked - (r.interrupts + 1) = 0 by omega, Nat.zero_mod] at hcount
    exact hz hcount
  · rw [interrupted_asked, interrupted_interrupts]
    exact hcount

end

/-- `d'` is `d` with the request in service taken off, and the next one started. -/
structure Disk.Started (d d' : Disk) : Prop where
  outstanding : d'.outstanding = d.queueList
  count : d'.blockRequestCount = d'.queueList.length
  busy : d'.inUsing = none → d'.queueList = []
  issued : d'.issued = d.issued ++ d'.inUsing.toList.map Request.serial
  sched : d'.sched = d.sched
  point : d'.point = d.point
  submitted : d'.submitted = d.submitted
  freed : d'.freed = d.freed

theorem startNext_spec (hcount : d.blockRequestCount = d.queueList.length) :
    ∃ d', startNext d = some d' ∧ d.Started d' := by
  unfold startNext
  cases hq : d.queueList with
  | nil =>
      rw [hq] at hcount
      rw [if_neg (by rw [hcount]; simp)]
      refine ⟨_, rfl, ?_, ?_, fun _ => rfl, ?_, rfl, rfl, rfl, rfl⟩
      · exact hq.symm
      · exact hcount
      · exact (List.append_nil _).symm
  | cons node rest =>
      rw [hq, List.length_cons] at hcount
      push_cast at hcount
      rw [if_pos (by omega), cmdOut]
      refine ⟨_, rfl, ?_, ?_, (fun h => nomatch h), rfl, rfl, rfl, rfl, rfl⟩
      · exact hq.symm
      · show d.blockRequestCount - 1 = rest.length
        omega

/-- The request in service is the first. -/
theorem Disk.outstanding_eq {r : Request} (hr : d.inUsing = some r) :
    d.outstanding = r :: d.queueList := by
  unfold Disk.outstanding
  rw [hr]
  rfl

theorem Disk.mem_outstanding {r : Request} (hr : d.inUsing = some r) : r ∈ d.outstanding := by
  rw [Disk.outstanding_eq hr]
  exact List.mem_cons_self

/-- The requests that wait are of other tasks than the one in service. -/
theorem Disk.Inv.tsk_ne (h : d.Inv) {r : Request} (hr : d.inUsing = some r) :
    ∀ x ∈ d.queueList, x.tsk ≠ r.tsk := by
  intro x hx he
  have hout := Disk.outstanding_eq hr
  have hser := h.serials
  rw [hout, List.map_cons] at hser
  have hnodup : (d.freed.map Request.serial ++ r.serial :: d.queueList.map Request.serial).Nodup :=
    hser ▸ List.nodup_range
  have hsame := h.tsk_inj (hout ▸ List.mem_cons_of_mem _ hx) (Disk.mem_outstanding hr) he
  exact (List.nodup_cons.mp (List.nodup_append.mp hnodup).2.1).1 (hsame ▸ List.mem_map_of_mem hx)

/-- A disk interrupt that does not complete its request. -/
theorem Disk.Inv.count_down (h : d.Inv) {r : Request} (hr : d.inUsing = some r)
    (hc : r.interrupted.count ≠ 0) : ({ d with inUsing := some r.interrupted } : Disk).Inv := by
  have hout := Disk.outstanding_eq hr
  have hpend := (h.pending r (Disk.mem_outstanding hr)).next hc
  have hser := h.serials
  have hiss := h.issued
  rw [hout, List.map_cons, ← interrupted_serial] at hser
  rw [hr, Option.toList_some, List.map_singleton, ← interrupted_serial] at hiss
  have hrest : ∀ x ∈ d.queueList, x ∈ d.outstanding := fun x hx => by
    rw [hout]
    exact List.mem_cons_of_mem _ hx
  have hfirst : r ∈ d.outstanding := by
    rw [hout]
    exact List.mem_cons_self
  refine ⟨h.sched, h.count, (fun hn => nomatch hn), hser, hiss, h.done, fun x hx => ?_,
    fun x hx => ?_, fun t k hk => ?_, h.ready, h.idle⟩
  · rcases List.mem_cons.mp hx with rfl | hx
    · exact hpend
    · exact h.pending x (hrest x hx)
  · rcases List.mem_cons.mp hx with rfl | hx
    · rw [interrupted_tsk, interrupted_serial]
      exact h.sleeps r hfirst
    · exact h.sleeps x (hrest x hx)
  · refine (h.waits t k hk).imp_left ?_
    rintro ⟨x, hx, h1⟩
    rw [hout] at hx
    rcases List.mem_cons.mp hx with rfl | hx
    · rw [← interrupted_serial, ← interrupted_tsk] at h1
      exact ⟨x.interrupted, List.mem_cons_self, h1⟩
    · exact ⟨x, List.mem_cons_of_mem _ hx, h1⟩

/-- What the disk interrupt does where it completes the request: the next one is started, the task
is woken and the node is freed. -/
theorem diskIrqHandler_last (hsched : d.sched.Inv)
    (hcount : d.blockRequestCount = d.queueList.length) {r : Request} (hr : d.inUsing = some r)
    (hsleep : (d.sched.task r.tsk).state = .uninterruptable) (hz : r.interrupted.count = 0) :
    ∃ d₁ s₁, diskIrqHandler d
        = some { d₁ with sched := s₁, freed := d.freed ++ [r.interrupted] } ∧
      Disk.Started d d₁ ∧ wakeupProcess d.sched r.tsk = some s₁ ∧ d.sched.Woken r.tsk s₁ := by
  obtain ⟨s₁, hw, hwoken⟩ := wakeupProcess_spec hsched.queue (by rw [hsleep]; decide :
    (d.sched.task r.tsk).state ≠ .running)
  obtain ⟨d₁, hs, hstarted⟩ := @startNext_spec { d with inUsing := some r.interrupted } hcount
  refine ⟨d₁, s₁, ?_, ⟨hstarted.outstanding, hstarted.count, hstarted.busy, hstarted.issued,
    hstarted.sched, hstarted.point, hstarted.submitted, hstarted.freed⟩, hw, hwoken⟩
  unfold diskIrqHandler
  rw [hr]
  dsimp only
  rw [if_pos hz, endRequest, hs]
  dsimp only [Option.bind_eq_bind, Option.bind_some]
  rw [hstarted.sched, hstarted.freed, interrupted_tsk, hw]
  rfl

/-- The same, with `ret_from_intr`. -/
theorem interrupt_last (hsched : d.sched.Inv)
    (hcount : d.blockRequestCount = d.queueList.length) {r : Request} (hr : d.inUsing = some r)
    (hsleep : (d.sched.task r.tsk).state = .uninterruptable) (hz : r.interrupted.count = 0) :
    ∃ d₁ s', DiskStep.interrupt.run d
        = some { d₁ with sched := s', freed := d.freed ++ [r.interrupted] } ∧
      Disk.Started d d₁ ∧ d.sched.Stepped (.interruptWake r.tsk) s' := by
  obtain ⟨d₁, s₁, he, hd, hw, -⟩ := diskIrqHandler_last hsched hcount hr hsleep hz
  obtain ⟨s', b, hrun, hs, -⟩ := hsched.step (.interruptWake r.tsk)
    (by rw [SchedStep.Allowed, hsleep]; decide)
  rw [SchedStep.run, hw, Option.bind_some, Option.map_eq_some_iff] at hrun
  obtain ⟨s'', hret, heq⟩ := hrun
  obtain ⟨rfl, -⟩ := Prod.mk.inj heq
  refine ⟨d₁, s'', ?_, hd, hs⟩
  rw [DiskStep.run, diskInterrupt, he, Option.bind_some, hret]
  rfl

/-- A disk interrupt that completes its request, behind `ret_from_intr`. -/
theorem Disk.Inv.complete (h : d.Inv) {r : Request} (hr : d.inUsing = some r)
    (hz : r.interrupted.count = 0) {d₁ : Disk} (hd : d.Started d₁) {s : Sched}
    (hs : d.sched.Stepped (.interruptWake r.tsk) s) :
    ({ d₁ with sched := s, freed := d.freed ++ [r.interrupted] } : Disk).Inv := by
  have hout := Disk.outstanding_eq hr
  have hrest : ∀ x ∈ d₁.outstanding, x ∈ d.outstanding := by
    intro x hx
    rw [hd.outstanding] at hx
    rw [hout]
    exact List.mem_cons_of_mem _ hx
  have hser := h.serials
  rw [hout, List.map_cons] at hser
  -- every other request is of another task, which goes on sleeping
  have hne : ∀ x ∈ d₁.outstanding, x.tsk ≠ r.tsk := fun x hx =>
    h.tsk_ne hr x (hd.outstanding ▸ hx)
  have hstate : ∀ t, (s.task t).state = if t = r.tsk then .running else (d.sched.task t).state :=
    hs.state
  refine ⟨hs.inv, hd.count, hd.busy, ?_, ?_, fun x hx => ?_, fun x hx => h.pending x (hrest x hx),
    fun x hx => ?_, fun t k hk => ?_, fun k hk => ?_, ?_⟩
  · show (d.freed ++ [r.interrupted]).map Request.serial ++ d₁.outstanding.map Request.serial
      = List.range d₁.submitted
    rw [hd.outstanding, hd.submitted, ← hser, List.map_append, List.map_singleton,
      interrupted_serial, List.append_assoc]
    rfl
  · show d₁.issued = (d.freed ++ [r.interrupted]).map Request.serial ++ _
    rw [hd.issued, h.issued, hr, List.map_append, List.map_singleton, interrupted_serial]
    rfl
  · rcases List.mem_append.mp hx with hx | hx
    · exact h.done x hx
    · obtain rfl := List.mem_singleton.mp hx
      rw [interrupted_interrupts, interrupted_asked]
      exact (h.pending r (Disk.mem_outstanding hr)).last hz
  · obtain ⟨h1, h2, h3⟩ := h.sleeps x (hrest x hx)
    refine ⟨?_, ?_, ?_⟩
    · show (s.task x.tsk).state = _
      rw [hstate, if_neg (hne x hx)]
      exact h1
    · show x.tsk ≠ s.initTask
      rw [hs.initTask]
      exact h2
    · show (d₁.point x.tsk).request = _
      rw [hd.point]
      exact h3
  · have hk : (d₁.point t).request = some k := hk
    rw [hd.point] at hk
    show (∃ x ∈ d₁.outstanding, x.serial = k ∧ x.tsk = t) ∨
      (k ∈ (d.freed ++ [r.interrupted]).map Request.serial ∧ (s.task t).state = .running)
    rw [hstate, List.map_append, List.map_singleton, interrupted_serial]
    rcases h.waits t k hk with ⟨x, hx, h1, h2⟩ | ⟨h1, h2⟩
    · rw [hout] at hx
      rcases List.mem_cons.mp hx with rfl | hx
      · rw [if_pos h2.symm, h1]
        exact Or.inr ⟨by simp, rfl⟩
      · exact Or.inl ⟨x, hd.outstanding ▸ hx, h1, h2⟩
    · refine Or.inr ⟨List.mem_append_left _ h1, ?_⟩
      rw [h2, ite_self]
  · have hk : d₁.point s.current = .waiting k := hk
    rw [hd.point] at hk
    show (s.task s.current).state = .running
    rcases hs.current with h1 | h1 | h1
    · rw [h1] at hk ⊢
      rw [hstate, h.ready k hk, ite_self]
    · exact h1
    · rw [h1, hs.initTask, h.idle] at hk
      exact nomatch hk
  · show d₁.point s.initTask = .outside
    rw [hd.point, hs.initTask]
    exact h.idle

theorem Disk.Inv.sleeps_first (h : d.Inv) {r : Request} (hr : d.inUsing = some r) :
    (d.sched.task r.tsk).state = .uninterruptable ∧ r.tsk ≠ d.sched.initTask := by
  obtain ⟨h1, h2, -⟩ := h.sleeps r (Disk.mem_outstanding hr)
  exact ⟨h1, h2⟩

/-- **A disk interrupt.** -/
theorem Disk.Inv.interrupt (h : d.Inv) (hu : d.inUsing ≠ none) :
    ∃ d', DiskStep.interrupt.run d = some d' ∧ d'.Inv := by
  obtain ⟨r, hr⟩ := Option.ne_none_iff_exists'.mp hu
  by_cases hz : r.interrupted.count = 0
  · obtain ⟨d₁, s', he, hd, hs⟩ := interrupt_last h.sched h.count hr (h.sleeps_first hr).1 hz
    exact ⟨_, he, h.complete hr hz hd hs⟩
  · obtain ⟨s', b, hrun, hs, -⟩ := h.sched.step .interrupt trivial
    rw [SchedStep.run, Option.map_eq_some_iff] at hrun
    obtain ⟨s'', hret, heq⟩ := hrun
    obtain ⟨rfl, -⟩ := Prod.mk.inj heq
    refine ⟨_, ?_, (h.count_down hr hz).sched_step hs.inv hs.initTask (fun t _ _ => hs.state t)
      hs.current⟩
    rw [DiskStep.run, diskInterrupt, diskIrqHandler, hr]
    dsimp only
    rw [if_neg hz, Option.bind_some, hret]
    rfl

/-! ## The other steps -/

/-- `CURRENT`, outside its requests or with them completed, is no task of a request. -/
theorem Disk.Inv.current_ne (h : d.Inv)
    (hrun : (d.sched.task d.sched.current).state = .running) :
    ∀ r ∈ d.outstanding, r.tsk ≠ d.sched.current := by
  intro r hr he
  have hs := (h.sleeps r hr).1
  rw [he, hrun] at hs
  exact nomatch hs

/-- A task that is back from `schedule` has its request completed. -/
theorem Disk.Inv.completed (h : d.Inv) {k : Nat} (hk : d.point d.sched.current = .waiting k) :
    k ∈ d.freed.map Request.serial := by
  have hreq : (d.point d.sched.current).request = some k := by rw [hk]; rfl
  rcases h.waits _ k hreq with ⟨r, hr, -, ht⟩ | ⟨hf, -⟩
  · exact absurd ht (h.current_ne (h.ready k hk) r hr)
  · exact hf

/-- `CURRENT` goes on in `ide_transfer`, with the same request. -/
theorem Disk.Inv.setPoint (h : d.Inv) {t : Nat} {p : Point} (hp : p.request = (d.point t).request)
    (hready : ∀ k, p = .waiting k → t = d.sched.current → (d.sched.task t).state = .running)
    (hidle : t ≠ d.sched.initTask) :
    ({ d with point := Function.update d.point t p } : Disk).Inv := by
  have hreq : ∀ u, (Function.update d.point t p u).request = (d.point u).request := by
    intro u
    by_cases hu : u = t
    · rw [hu, Function.update_self, hp]
    · rw [Function.update_of_ne hu]
  refine ⟨h.sched, h.count, h.busy, h.serials, h.issued, h.done, h.pending, fun r hr => ?_,
    fun u k hk => ?_, fun k hk => ?_, ?_⟩
  · obtain ⟨h1, h2, h3⟩ := h.sleeps r hr
    exact ⟨h1, h2, (hreq _).trans h3⟩
  · exact h.waits u k ((hreq u).symm.trans hk)
  · have hk : Function.update d.point t p d.sched.current = .waiting k := hk
    by_cases hu : d.sched.current = t
    · rw [hu, Function.update_self] at hk
      show (d.sched.task d.sched.current).state = .running
      rw [hu]
      exact hready k hk hu.symm
    · rw [Function.update_of_ne hu] at hk
      exact h.ready k hk
  · show Function.update d.point t p d.sched.initTask = .outside
    rw [Function.update_of_ne hidle.symm]
    exact h.idle

/-- Without an interrupt inside, the call is that of the scheduler. -/
theorem scheduleWithin_zero (d : Disk) :
    scheduleWithin d 0 = (Talios.schedule d.sched).map (fun sched => { d with sched := sched }) := rfl

/-- `CURRENT` calls `schedule` in `wait_for_finish`. -/
theorem Disk.Inv.schedule (h : d.Inv) {k : Nat} (hk : d.point d.sched.current = .submitted k) :
    ∃ d', (DiskStep.schedule 0).run d = some d' ∧ d'.Inv ∧ d'.freed = d.freed := by
  obtain ⟨s', he, hs, -, hrun⟩ := schedule_inv h.sched.queue h.sched.unlocked
  have hidle : d.sched.current ≠ d.sched.initTask := by
    intro hc
    rw [hc, h.idle] at hk
    exact nomatch hk
  have hd := h.sched_step hs.inv hs.initTask (fun t _ _ => hs.state t) hs.current
  refine ⟨_, ?_, hd.setPoint (t := d.sched.current) (p := .waiting k) ?_ ?_ ?_, rfl⟩
  · rw [DiskStep.run, hk]
    dsimp only
    rw [scheduleWithin_zero, he]
    rfl
  · show some k = (d.point d.sched.current).request
    rw [hk]
    rfl
  · rintro j - hc
    have hc : d.sched.current = s'.current := hc
    show (s'.task d.sched.current).state = .running
    rw [hc]
    refine hrun.resolve_right (fun h1 => hidle ?_)
    rw [hc, h1, hs.initTask]
  · show d.sched.current ≠ s'.initTask
    rw [hs.initTask]
    exact hidle

/-- `ide_transfer` returns. -/
theorem Disk.Inv.ret (h : d.Inv) {k : Nat} (hk : d.point d.sched.current = .waiting k) :
    ({ d with point := Function.update d.point d.sched.current .outside } : Disk).Inv := by
  have hrun := h.ready k hk
  have hne := h.current_ne hrun
  refine ⟨h.sched, h.count, h.busy, h.serials, h.issued, h.done, h.pending, fun r hr => ?_,
    fun t j hj => ?_, fun j _ => hrun, ?_⟩
  · obtain ⟨h1, h2, h3⟩ := h.sleeps r hr
    refine ⟨h1, h2, ?_⟩
    show (Function.update d.point d.sched.current .outside r.tsk).request = _
    rw [Function.update_of_ne (hne r hr)]
    exact h3
  · have hj : (Function.update d.point d.sched.current .outside t).request = some j := hj
    by_cases ht : t = d.sched.current
    · rw [ht, Function.update_self] at hj
      exact nomatch hj
    · rw [Function.update_of_ne ht] at hj
      exact h.waits t j hj
  · show Function.update d.point d.sched.current .outside d.sched.initTask = .outside
    by_cases hi : d.sched.initTask = d.sched.current
    · rw [hi, Function.update_self]
    · rw [Function.update_of_ne hi]
      exact h.idle

/-- A step of the scheduler by itself leaves the tasks of requests alone. -/
theorem Disk.Inv.other (h : d.Inv) {c : SchedStep} (hc : c.Allowed d.sched)
    (ho : d.AllowedOther c) : ∃ d', (DiskStep.other c).run d = some d' ∧ d'.Inv ∧
      d'.freed = d.freed := by
  obtain ⟨s', b, he, hs, -⟩ := h.sched.step c hc
  refine ⟨{ d with sched := s' }, ?_, h.sched_step hs.inv hs.initTask (fun t k hk => ?_) hs.current,
    rfl⟩
  · rw [DiskStep.run, he]
    rfl
  · rw [hs.state]
    have hne : ∀ u, d.point u = .outside → t ≠ u := by
      rintro u hu rfl
      rw [hu] at hk
      exact nomatch hk
    cases c with
    | wake task => exact if_neg (hne task ho.2)
    | interruptWake task => exact if_neg (hne task ho)
    | sleep => exact if_neg (hne _ ho)
    | schedule => rfl
    | interrupt => rfl
    | tick => rfl
    | lock => rfl
    | unlock => rfl

end

/-! ## Runs -/

/-- The numbers of sectors that an `unsigned int` can count down. -/
def Sectors (n : Nat) : Prop := 1 ≤ n ∧ n ≤ 2 ^ 32

section

variable {d : Disk}

/-- **One step.** -/
theorem Disk.Inv.step (h : d.Inv) (c : DiskStep) (hok : c.Allowed Sectors (· = 0) d) :
    ∃ d', c.run d = some d' ∧ d'.Inv := by
  cases c with
  | transfer self cmd blocks count buffer =>
      obtain ⟨d', he, hi, -⟩ := h.transfer hok
      exact ⟨d', he, hi⟩
  | schedule within =>
      obtain ⟨⟨k, hk⟩, hzero⟩ := hok
      obtain rfl : within = 0 := hzero
      obtain ⟨d', he, hi, -⟩ := h.schedule hk
      exact ⟨d', he, hi⟩
  | ret =>
      obtain ⟨k, hk⟩ := hok
      exact ⟨_, rfl, h.ret hk⟩
  | interrupt => exact h.interrupt hok
  | other c =>
      obtain ⟨d', he, hi, -⟩ := h.other hok.1 hok.2
      exact ⟨d', he, hi⟩

theorem diskInit_inv {sched : Sched} (h : SchedReachable sched) : (diskInit sched).Inv := by
  have hno : ∀ r, r ∉ (diskInit sched).outstanding := fun r => List.not_mem_nil
  exact ⟨h.inv, rfl, fun _ => rfl, rfl, rfl, fun r hr => absurd hr List.not_mem_nil,
    fun r hr => absurd hr (hno r), fun r hr => absurd hr (hno r), (fun t k hk => nomatch hk),
    (fun k hk => nomatch hk), rfl⟩

theorem DiskReachable.inv (h : DiskReachable Sectors (· = 0) d) : d.Inv := by
  induction h with
  | init h => exact diskInit_inv h
  | step c _ hok hr ih =>
      obtain ⟨d', he, hi⟩ := ih.step c hok
      rw [he] at hr
      obtain rfl := Option.some.inj hr
      exact hi

end

/-- What is wanted of the protocol, in one state. -/
structure Disk.Ok (d : Disk) : Prop where
  count : d.blockRequestCount = d.queueList.length
  idle : d.inUsing = none → d.outstanding = []
  /-- Requests are issued, and freed, in the order of submission, each once. -/
  issued : d.issued = List.range d.issued.length
  freed : d.freed.map Request.serial = List.range d.freed.length
  interrupts : ∀ r ∈ d.freed, r.interrupts = r.asked
  /-- Before its request is completed a task sleeps and is not on the run queue. -/
  sleeps : ∀ r ∈ d.outstanding, (d.sched.task r.tsk).state = .uninterruptable ∧
    r.tsk ∉ d.sched.taskQueue
  /-- At that moment it is made to run, and put on the queue. -/
  wakes : ∀ d₁, diskIrqHandler d = some d₁ → ∀ r ∈ d₁.freed, r ∈ d.freed ∨
    (d₁.sched.task r.tsk).state = .running ∧ r.tsk ∈ d₁.sched.taskQueue
  /-- Afterwards it does not sleep any more. -/
  awake : ∀ t k, (d.point t).request = some k → k ∈ d.freed.map Request.serial →
    (d.sched.task t).state = .running ∧ (t = d.sched.current ∨ t ∈ d.sched.taskQueue)
  /-- `ide_transfer` returns when its request is completed. -/
  returns : ∀ k, d.point d.sched.current = .waiting k → k ∈ d.freed.map Request.serial

section

variable {d : Disk}

/-- The serials are those of the first requests. -/
theorem eq_range_of_append {l l' : List Nat} {n : Nat} (h : l ++ l' = List.range n) :
    l = List.range l.length := by
  have hle : l.length ≤ n := by
    have := congrArg List.length h
    rw [List.length_append, List.length_range] at this
    omega
  have htake := congrArg (List.take l.length) h
  rw [List.take_left, List.take_range, Nat.min_eq_left hle] at htake
  exact htake

theorem Disk.Inv.wakes (h : d.Inv) {d₁ : Disk} (he : diskIrqHandler d = some d₁) :
    ∀ r ∈ d₁.freed, r ∈ d.freed ∨
      (d₁.sched.task r.tsk).state = .running ∧ r.tsk ∈ d₁.sched.taskQueue := by
  cases hu : d.inUsing with
  | none =>
      rw [diskIrqHandler, hu] at he
      exact nomatch he
  | some r =>
      by_cases hz : r.interrupted.count = 0
      · obtain ⟨hsleep, hinit⟩ := h.sleeps_first hu
        obtain ⟨d₂, s₁, he', -, -, hw⟩ := diskIrqHandler_last h.sched h.count hu hsleep hz
        rw [he'] at he
        obtain rfl := Option.some.inj he
        intro x hx
        rcases List.mem_append.mp hx with hx | hx
        · exact Or.inl hx
        · obtain rfl := List.mem_singleton.mp hx
          rw [interrupted_tsk]
          refine Or.inr ⟨?_, ?_⟩
          · show (s₁.task r.tsk).state = .running
            rw [hw.state, if_pos rfl]
          · exact (hw.mem r.tsk).mpr (Or.inl ⟨rfl, hinit⟩)
      · rw [diskIrqHandler, hu] at he
        dsimp only at he
        rw [if_neg hz] at he
        obtain rfl := Option.some.inj he
        exact fun x hx => Or.inl hx

theorem Disk.Inv.ok (h : d.Inv) : d.Ok := by
  have hser := h.serials
  have hfreed := eq_range_of_append hser
  rw [List.length_map] at hfreed
  have hidle : d.inUsing = none → d.outstanding = [] := by
    intro hu
    unfold Disk.outstanding
    rw [hu, h.busy hu]
    rfl
  have hissued : d.issued = List.range d.issued.length := by
    refine @eq_range_of_append _ (d.queueList.map Request.serial) d.submitted ?_
    rw [h.issued, List.append_assoc, ← List.map_append]
    exact hser
  refine ⟨h.count, hidle, hissued, hfreed, h.done, fun r hr => ?_, fun d₁ he => h.wakes he,
    fun t k hk hf => ?_, fun k hk => h.completed hk⟩
  · obtain ⟨h1, -, -⟩ := h.sleeps r hr
    refine ⟨h1, fun hm => ?_⟩
    rw [h.sched.queue.running _ hm] at h1
    exact nomatch h1
  · have hrun : (d.sched.task t).state = .running := by
      rcases h.waits t k hk with ⟨r, hr, rfl, -⟩ | ⟨-, h2⟩
      · -- a serial is not freed and outstanding at once
        have hnodup := List.nodup_range (n := d.submitted)
        rw [← hser] at hnodup
        exact absurd rfl ((List.nodup_append.mp hnodup).2.2 _ hf _ (List.mem_map_of_mem hr))
      · exact h2
    refine ⟨hrun, h.sched.queue.kept t hrun ?_⟩
    rintro rfl
    rw [h.idle] at hk
    exact nomatch hk

end

/-- **The request protocol.** With up to `2 ^ 32` sectors a request, every interleaving of tasks,
disk interrupts outside `schedule` and the scheduler keeps to it, and every step that can be made comes
back. -/
theorem disk_requests_ok (d : Disk) (h : DiskReachable Sectors (· = 0) d) :
    d.Ok ∧ ∀ c : DiskStep, c.Allowed Sectors (· = 0) d → ∃ d', c.run d = some d' := by
  refine ⟨h.inv.ok, fun c hc => ?_⟩
  obtain ⟨d', he, -⟩ := h.inv.step c hc
  exact ⟨d', he⟩

/-! ### One request -/

/-- Task 1 asks for `count` sectors of the idle disk. -/
theorem exampleTransfer (ok inside : Nat → Prop) {count : Nat} (hok : ok count) :
    ∃ d, DiskReachable ok inside d ∧ d.inUsing = some ⟨⟨64, count % 2 ^ 32, .read, 0, 0, 1⟩, 0, count, 0⟩ ∧
      d.queueList = [] ∧ d.blockRequestCount = 0 ∧ d.freed = [] ∧ d.sched.Inv ∧
      (d.sched.task 1).state = .uninterruptable := by
  obtain ⟨s, -, hs, h1, h2, h3, h4, -⟩ := exampleSched
  have hinv := diskInit_inv hs
  obtain ⟨d, he, hsub, hsched, -⟩ := ideTransfer_spec hinv 64 0 count 0 .read
  have hallow : (DiskStep.transfer 64 .read 0 count 0).Allowed ok inside (diskInit s) := by
    refine ⟨rfl, ?_, ?_, ?_, fun r hr => absurd hr List.not_mem_nil, hok⟩
    · show s.current ≠ s.initTask
      rw [h1, h2]
      decide
    · show (s.task s.current).state = .running
      rw [h1]
      exact h3
    · show (s.task s.current).preemptCount = 0
      rw [h1]
      exact h4
  have hlock : (s.task s.current).preemptCount = 0 := hallow.2.2.2.1
  have hsleep := hs.inv.sleep hlock
  have hout := hsub.outstanding
  have hnode : makeRequest (diskInit s) 64 .read 0 count 0
      = ⟨⟨64, count % 2 ^ 32, .read, 0, 0, 1⟩, 0, count, 0⟩ := by
    show Request.mk ⟨64, count % 2 ^ 32, .read, 0, 0, s.current⟩ 0 count 0 = _
    rw [h1]
  obtain ⟨r, hr⟩ := Option.ne_none_iff_exists'.mp hsub.busy
  unfold Disk.outstanding at hout
  rw [hr, hnode] at hout
  obtain ⟨h5, h6⟩ := List.cons.inj hout
  have h6 : d.queueList = [] := h6
  have hcount := hsub.count
  rw [h6] at hcount
  refine ⟨d, .step _ (.init hs) hallow he, ?_, h6, hcount, hsub.freed, ?_, ?_⟩
  · rw [hr, h5]
  · rw [hsched]
    exact ⟨⟨hsleep.queue.sorted, hsleep.queue.nodup, hsleep.queue.noInit, hsleep.queue.count,
      hsleep.queue.running, hsleep.queue.kept, hsleep.queue.below⟩, hsleep.current,
      hsleep.unlocked⟩
  · rw [hsched, ← h1]
    show ((s.modify s.current (fun t => { t with state := .uninterruptable })).task s.current).state
      = _
    rw [modify_task_self]

/-- The interrupt for its first sector completes the request. -/
theorem exampleInterrupt (ok inside : Nat → Prop) {count : Nat} (hok : ok count)
    (h1 : count % 2 ^ 32 = 1) : ∃ d r, DiskReachable ok inside d ∧ d.freed = [r] ∧ r.interrupts = 1 ∧
      r.asked = count := by
  obtain ⟨d, hd, hu, hq, hcount, hf, hs, hsleep⟩ := exampleTransfer ok inside hok
  rw [h1] at hu
  have hlast : (Request.interrupted ⟨⟨64, 1, .read, 0, 0, 1⟩, 0, count, 0⟩).count = 0 := by
    rw [interrupted_count]
    show (1 + (2 ^ 32 - 1)) % 2 ^ 32 = 0
    decide
  obtain ⟨d₁, s', he, -, -⟩ := interrupt_last hs (by rw [hcount, hq]; rfl) hu hsleep hlast
  refine ⟨_, Request.interrupted ⟨⟨64, 1, .read, 0, 0, 1⟩, 0, count, 0⟩,
    .step .interrupt hd (fun hn => by rw [hu] at hn; exact nomatch hn) he, ?_, ?_, ?_⟩
  · show d.freed ++ _ = _
    rw [hf]
    rfl
  · rw [interrupted_interrupts]
  · rw [interrupted_asked]

theorem disk_requests_ok_example : ∃ d, DiskReachable Sectors (· = 0) d ∧ d.freed.length = 1 ∧ d.Ok := by
  have hone : Sectors 1 := ⟨Nat.le_refl 1, by decide⟩
  obtain ⟨d, r, hd, hf, -⟩ := exampleInterrupt Sectors (· = 0) hone (by decide)
  exact ⟨d, hd, by rw [hf]; rfl, (disk_requests_ok d hd).1⟩

/-! ### An interrupt inside `schedule` -/

/-- Task 1 is woken when the idle task has run for a tick, and so comes before it. -/
theorem exampleAhead : ∃ s, SchedReachable s ∧
    SchedStep.run (hpetHandler (schedulerInit 0 exampleTasks)) (.interruptWake 1) = some (s, true) := by
  have h₀ : SchedReachable (schedulerInit 0 exampleTasks) :=
    .init (fun t _ => by simp [exampleTasks]) (fun t => by show (0 : Int) < _; decide) rfl
  have h₁ : SchedReachable (hpetHandler (schedulerInit 0 exampleTasks)) :=
    .step .tick h₀ (by show (2 : Int) < _; decide) rfl
  obtain ⟨s, hr⟩ : ∃ s, SchedStep.run (hpetHandler (schedulerInit 0 exampleTasks)) (.interruptWake 1)
      = some (s, true) := ⟨_, rfl⟩
  exact ⟨s, .step (.interruptWake 1) h₁ (show TaskState.uninterruptable ≠ .running by decide) hr, hr⟩

attribute [local semireducible] Request.interrupted in
/-- Its request is completed when `schedule` has taken the idle task: it goes on and is left on the queue. In
the next `ide_transfer`, `schedule` takes it from there and returns at once. -/
theorem exampleLeft {s : Sched}
    (hs : SchedStep.run (hpetHandler (schedulerInit 0 exampleTasks)) (.interruptWake 1) = some (s, true)) :
    ∃ d₁ d₂ d₃ d₄ d₅, DiskStep.run (diskInit s) (.transfer 64 .read 0 1 0) = some d₁ ∧
      d₁.point d₁.sched.current = .submitted 0 ∧ DiskStep.run d₁ (.schedule 1) = some d₂ ∧
      d₂.point d₂.sched.current = .waiting 0 ∧ d₂.sched.taskQueue = [1] ∧ DiskStep.run d₂ .ret = some d₃ ∧
      (DiskStep.transfer 64 .read 0 1 0).Allowed Sectors (fun _ => True) (diskInit s) ∧
      (DiskStep.transfer 64 .read 0 1 0).Allowed Sectors (fun _ => True) d₃ ∧
      DiskStep.run d₃ (.transfer 64 .read 0 1 0) = some d₄ ∧ d₄.point d₄.sched.current = .submitted 1 ∧
      DiskStep.run d₄ (.schedule 0) = some d₅ ∧ d₅.point d₅.sched.current = .waiting 1 ∧
      d₅.freed.map Request.serial = [0] := by
  have hone : Sectors 1 := ⟨Nat.le_refl 1, by decide⟩
  obtain ⟨rfl, -⟩ := Prod.mk.inj (Option.some.inj hs)
  exact ⟨_, _, _, _, _, rfl, rfl, rfl, rfl, rfl, rfl,
    ⟨rfl, by decide, rfl, rfl, fun r hr => absurd hr List.not_mem_nil, hone⟩,
    ⟨rfl, by decide, rfl, rfl, fun r hr => absurd hr List.not_mem_nil, hone⟩, rfl, rfl, rfl, rfl, rfl⟩

/-- `2 ^ 32 + 1` sectors: the node is freed after one interrupt. And an interrupt inside `schedule`: a task
comes back from `ide_transfer` before its request is completed. -/
theorem disk_requests_truncated : (¬ ∀ d, DiskReachable (fun n => 1 ≤ n) (· = 0) d → d.Ok) ∧
    ¬ ∀ d, DiskReachable Sectors (fun _ => True) d → d.Ok := by
  constructor
  · intro hall
    obtain ⟨d, r, hd, hf, hi, ha⟩ := exampleInterrupt (fun n => 1 ≤ n) (· = 0)
      (show 1 ≤ 2 ^ 32 + 1 by decide) (by decide)
    have hne := (hall d hd).interrupts r (by rw [hf]; exact List.mem_singleton_self r)
    rw [hi, ha] at hne
    exact absurd hne (by decide)
  · intro hall
    obtain ⟨s, hs, hrun⟩ := exampleAhead
    obtain ⟨d₁, d₂, d₃, d₄, d₅, h₁, hp₁, h₂, hp₂, -, h₃, hok, hok', h₄, hp₄, h₅, hp₅, hfreed⟩ := exampleLeft hrun
    have hd₁ := DiskReachable.step _ (.init hs) hok h₁
    have hd₂ := DiskReachable.step (.schedule 1) hd₁ ⟨⟨0, hp₁⟩, trivial⟩ h₂
    have hd₃ := DiskReachable.step .ret hd₂ ⟨0, hp₂⟩ h₃
    have hd₄ := DiskReachable.step _ hd₃ hok' h₄
    have hd₅ := DiskReachable.step (.schedule 0) hd₄ ⟨⟨1, hp₄⟩, trivial⟩ h₅
    have hmem := (hall d₅ hd₅).returns 1 hp₅
    rw [hfreed] at hmem
    exact absurd hmem (by decide)

end Talios
