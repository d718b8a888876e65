import Talios.Keyboard.Ring
import Talios.Sync.WaitQueue

set_option autoImplicit false

/-! # A reader of the keyboard

`keyboard_read` as a task goes through it, with the interrupts of the keyboard, of the timer and of
the other devices between its steps. Each interrupt is one step, with the return by `ret_from_intr`.

The test of `KBIB->count`, the change of the state and the entry into `keyboard_wait_queue` are not
made with interrupts disabled, as `ide_transfer` makes them. A byte that arrives behind the test
wakes nobody, and a task that is switched out with its state changed and no entry in the queue is
not found by any wake.
-/

namespace Talios

open Bytes

/-! ## Data -/

/-- Where the task stands: outside `keyboard_read`, in front of the test, behind the test that found
nothing, behind the change of its state, behind the entry into the queue, in the call of
`schedule`, or behind `sleep_on`. -/
inductive ReadPoint
  | outside
  | entered
  | tested
  | marked
  | linked
  | scheduled
  | reading
deriving DecidableEq

/-- The scheduler, the ring, `keyboard_wait_queue`, the memory of the reader, and its place. -/
structure Reader where
  sched : Sched
  kb : KeyboardInBuf
  waitQueue : List Nat
  mem : Buffer
  task : Nat
  point : ReadPoint

/-- `KeyboardInit` is done, and `task` is to read. -/
def readerInit (sched : Sched) (block mem : Buffer) (task : Nat) : Reader :=
  ⟨sched, keyboardInit block, [], mem, task, .outside⟩

/-! ## Steps -/

/-- The steps of the task, an interrupt of the keyboard, and those of the scheduler. -/
inductive ReaderStep
  | call
  | test
  | mark
  | link
  | schedule
  | ret
  | copy (buf count : Nat)
  | keyboard (x : UInt8)
  | other (c : SchedStep)

/-- The interrupt of the keyboard up to `ret_from_intr`. -/
def keyboardInterrupt (s : Reader) (x : UInt8) : Option Reader :=
  (wakeUp s.sched s.waitQueue .uninterruptable).map (fun r => { s with
    kb := keyboardHandler s.kb x, sched := r.1, waitQueue := r.2 })

def ReaderStep.run (s : Reader) : ReaderStep → Option Reader
  | .call => some { s with point := .entered }
  | .test => some { s with point := if s.kb.count = 0 then .tested else .reading }
  | .mark => some { s with sched := s.sched.markSleeping, point := .marked }
  | .link => some { s with waitQueue := waitLink s.waitQueue s.task, point := .linked }
  | .schedule =>
      (Talios.schedule s.sched).map (fun sched => { s with sched := sched, point := .scheduled })
  | .ret => some { s with point := .reading }
  | .copy buf count =>
      let r := keyboardRead s.kb s.mem buf count
      some { s with kb := r.1, mem := r.2.1, point := .outside }
  | .keyboard x => (keyboardInterrupt s x).bind (fun s₁ =>
      (retFromIntr s₁.sched).map (fun sched => { s₁ with sched := sched }))
  | .other c => (c.run s.sched).map (fun r => { s with sched := r.1 })

/-- The place a step of the task is made from. -/
def ReaderStep.from : ReaderStep → Option ReadPoint
  | .call => some .outside
  | .test => some .entered
  | .mark => some .tested
  | .link => some .marked
  | .schedule => some .linked
  | .ret => some .scheduled
  | .copy _ _ => some .reading
  | .keyboard _ => none
  | .other _ => none

/-- The steps the scheduler makes by itself: `CURRENT` is outside `keyboard_read` where the step is
its own, and the reader is woken by nobody else. -/
def Reader.AllowedOther (s : Reader) : SchedStep → Prop
  | .wake task => (s.sched.current = s.task → s.point = .outside) ∧ (task = s.task → s.point = .outside)
  | .interruptWake task => task = s.task → s.point = .outside
  | .interrupt => True
  | .tick => True
  | _ => s.sched.current = s.task → s.point = .outside

/-- A reader runs where it calls `keyboard_read`, and holds no lock where it goes to sleep. -/
def ReaderStep.Ready (s : Reader) : ReaderStep → Prop
  | .call => (s.sched.task s.task).state = .running
  | .mark => (s.sched.task s.task).preemptCount = 0
  | .other c => c.Allowed s.sched ∧ s.AllowedOther c
  | _ => True

/-- When a step can be made. -/
def ReaderStep.Allowed (s : Reader) (c : ReaderStep) : Prop :=
  (∀ p, c.from = some p → s.point = p ∧ s.sched.current = s.task) ∧ c.Ready s

/-- A state that a run comes to whose steps all meet `ok`. -/
inductive ReaderReachable (ok : Reader → ReaderStep → Prop) : Reader → Prop
  | init {sched : Sched} (h : SchedReachable sched) (block mem : Buffer) {task : Nat}
      (hidle : task ≠ sched.initTask) : ReaderReachable ok (readerInit sched block mem task)
  | step {s s' : Reader} (c : ReaderStep) (h : ReaderReachable ok s) (ha : c.Allowed s)
      (hok : ok s c) (hr : c.run s = some s') : ReaderReachable ok s'

/-! ## What is to hold -/

/-- The reader is switched out with its state changed, and is not on the queue. -/
def Reader.Lost (s : Reader) : Prop :=
  s.point ≠ .outside ∧ s.sched.current ≠ s.task ∧
    (s.sched.task s.task).state = .uninterruptable ∧ s.task ∉ s.waitQueue

/-- The reader sleeps on the queue, and there is something to read. -/
def Reader.Overslept (s : Reader) : Prop :=
  s.task ∈ s.waitQueue ∧ s.sched.current ≠ s.task ∧
    (s.sched.task s.task).state = .uninterruptable ∧ 0 < s.kb.count

/-- The interrupt ends with `schedule`. -/
def SchedStep.Reschedules (s : Sched) : SchedStep → Prop
  | .tick => (hpetHandler s).reschedules = true
  | .interrupt => s.reschedules = true
  | .interruptWake _ => (s.task s.current).preemptCount = 0
  | _ => False

/-- No byte arrives between the test and the entry into the queue, and no interrupt between the
change of the state and the entry reschedules. -/
def ReaderStep.Safe (s : Reader) : ReaderStep → Prop
  | .keyboard _ => s.point ≠ .tested ∧ s.point ≠ .marked
  | .other c => s.point = .marked → ¬ c.Reschedules s.sched
  | _ => True

/-! ## What holds -/

/-- The reader is not on the queue, and is to run. -/
def Reader.Awake (s : Reader) : Prop :=
  s.waitQueue = [] ∧ (s.sched.task s.task).state = .running

/-- The reader is on the queue, sleeping, and there is nothing to read. -/
def Reader.Queued (s : Reader) : Prop :=
  s.waitQueue = [s.task] ∧ (s.sched.task s.task).state = .uninterruptable ∧ s.kb.count = 0

/-- What holds at each place. -/
def Reader.Place (s : Reader) : Prop :=
  match s.point with
  | .outside => s.waitQueue = []
  | .entered => s.Awake
  | .tested => s.Awake ∧ s.kb.count = 0
  | .marked => s.waitQueue = [] ∧ (s.sched.task s.task).state = .uninterruptable ∧
      s.sched.current = s.task ∧ s.kb.count = 0
  | .linked => s.Queued ∨ s.Awake
  | .scheduled => (s.Queued ∧ s.sched.current ≠ s.task) ∨ s.Awake
  | .reading => s.Awake

/-- The state between two steps. -/
structure Reader.Inv (s : Reader) : Prop where
  sched : s.sched.Inv
  idle : s.task ≠ s.sched.initTask
  place : s.Place

section

variable {s s' : Reader}

/-- What the scheduler does, seen from the reader: its state stays, and a task that is switched to is
to run. -/
theorem Reader.Inv.sched_step (h : s.Inv) {σ : Sched} (hσ : σ.Inv)
    (hi : σ.initTask = s.sched.initTask)
    (hstate : s.point ≠ .outside → (σ.task s.task).state = (s.sched.task s.task).state)
    (hc : σ.current = s.sched.current ∨ (σ.task σ.current).state = .running ∨
      σ.current = σ.initTask)
    (hm : s.point = .marked → σ.current = s.sched.current) :
    ({ s with sched := σ } : Reader).Inv := by
  have hidle : s.task ≠ σ.initTask := hi ▸ h.idle
  refine ⟨hσ, hidle, ?_⟩
  have hplace := h.place
  unfold Reader.Place at hplace ⊢
  cases hp : s.point with
  | outside =>
      rw [hp] at hplace
      exact hplace
  | entered | reading =>
      rw [hp] at hplace hstate
      exact ⟨hplace.1, (hstate (by decide)).trans hplace.2⟩
  | tested =>
      rw [hp] at hplace hstate
      exact ⟨⟨hplace.1.1, (hstate (by decide)).trans hplace.1.2⟩, hplace.2⟩
  | marked =>
      rw [hp] at hplace hstate
      exact ⟨hplace.1, (hstate (by decide)).trans hplace.2.1, (hm hp).trans hplace.2.2.1,
        hplace.2.2.2⟩
  | linked =>
      rw [hp] at hplace hstate
      refine hplace.imp (fun h1 => ⟨h1.1, (hstate (by decide)).trans h1.2.1, h1.2.2⟩)
        (fun h1 => ⟨h1.1, (hstate (by decide)).trans h1.2⟩)
  | scheduled =>
      rw [hp] at hplace hstate
      have hsame := hstate (by decide)
      refine hplace.imp (fun h1 => ⟨⟨h1.1.1, hsame.trans h1.1.2.1, h1.1.2.2⟩, ?_⟩)
        (fun h1 => ⟨h1.1, hsame.trans h1.2⟩)
      -- the task that has been switched to is not the one that sleeps
      show σ.current ≠ s.task
      intro he
      rw [he, hsame, h1.1.2.1] at hc
      rcases hc with h2 | h2 | h2
      · exact h1.2 h2.symm
      · exact nomatch h2
      · exact hidle h2

theorem retFromIntr_eq_self {σ : Sched} (h : ¬ σ.reschedules = true) : retFromIntr σ = some σ :=
  if_neg h

/-- An interrupt that does not end with `schedule` leaves `CURRENT`. -/
theorem SchedStep.current_eq {c : SchedStep} {σ σ' : Sched} {b : Bool} (h : σ.Inv)
    (ha : c.Allowed σ) (hn : ¬ c.Reschedules σ) (hc : c ≠ .schedule) (hr : c.run σ = some (σ', b)) :
    σ'.current = σ.current := by
  cases c with
  | schedule => exact absurd rfl hc
  | wake task =>
      obtain ⟨s', he, hw⟩ := wakeupProcess_spec h.queue ha.1
      rw [SchedStep.run, he] at hr
      obtain ⟨rfl, -⟩ := Prod.mk.inj (Option.some.inj hr)
      exact hw.current
  | interruptWake task =>
      obtain ⟨s₁, he, hw⟩ := wakeupProcess_spec h.queue ha
      have hno : s₁.reschedules = false := by
        have hpre : (s₁.task s₁.current).preemptCount ≠ 0 := by
          rw [hw.current, hw.preempt]
          exact hn
        unfold Sched.reschedules
        rw [decide_eq_false hpre]
        rfl
      rw [SchedStep.run, he, Option.bind_some, retFromIntr_eq_self (by simp [hno])] at hr
      obtain ⟨rfl, -⟩ := Prod.mk.inj (Option.some.inj hr)
      exact hw.current
  | interrupt =>
      rw [SchedStep.run, retFromIntr_eq_self hn] at hr
      obtain ⟨rfl, -⟩ := Prod.mk.inj (Option.some.inj hr)
      rfl
  | tick =>
      rw [SchedStep.run, retFromIntr_eq_self hn] at hr
      obtain ⟨rfl, -⟩ := Prod.mk.inj (Option.some.inj hr)
      obtain ⟨v, b, j, he⟩ := hpetHandler_eq σ
      rw [he]
      rfl
  | sleep | lock | unlock =>
      obtain ⟨rfl, -⟩ := Prod.mk.inj (Option.some.inj hr)
      rfl

/-- A step of the scheduler by itself leaves the reader alone. -/
theorem Reader.Inv.other (h : s.Inv) {c : SchedStep} (hc : c.Allowed s.sched)
    (ho : s.AllowedOther c) (hsafe : s.point = .marked → ¬ c.Reschedules s.sched)
    (hr : (ReaderStep.other c).run s = some s') : s'.Inv := by
  obtain ⟨σ, b, he, hs, -⟩ := h.sched.step c hc
  rw [ReaderStep.run, he] at hr
  obtain rfl := Option.some.inj hr
  refine h.sched_step hs.inv hs.initTask (fun hp => ?_) hs.current (fun hp => ?_)
  · have hne : ∀ u, (u = s.task → s.point = .outside) → s.task ≠ u :=
      fun u hu he => hp (hu he.symm)
    rw [hs.state]
    cases c with
    | wake task => exact if_neg (hne task ho.2)
    | interruptWake task => exact if_neg (hne task ho)
    | sleep => exact if_neg (hne _ ho)
    | schedule | interrupt | tick | lock | unlock => rfl
  · refine SchedStep.current_eq h.sched hc (hsafe hp) ?_ he
    rintro rfl
    have hplace := h.place
    unfold Reader.Place at hplace
    rw [hp] at hplace
    have hout := ho hplace.2.2.1
    rw [hp] at hout
    exact nomatch hout

/-- The ring changes where the reader does not rely on it. -/
theorem Reader.Inv.setKb (h : s.Inv) (kb : KeyboardInBuf) (hq : s.waitQueue = [])
    (h1 : s.point ≠ .tested) (h2 : s.point ≠ .marked) : ({ s with kb := kb } : Reader).Inv := by
  refine ⟨h.sched, h.idle, ?_⟩
  have hplace := h.place
  unfold Reader.Place at hplace ⊢
  have hnot : ¬ s.Queued := by
    rintro ⟨hqueued, -⟩
    rw [hq] at hqueued
    exact nomatch hqueued
  cases hp : s.point with
  | outside | entered | reading =>
      rw [hp] at hplace
      exact hplace
  | tested => exact absurd hp h1
  | marked => exact absurd hp h2
  | linked =>
      rw [hp] at hplace
      exact Or.inr (hplace.resolve_left hnot)
  | scheduled =>
      rw [hp] at hplace
      exact Or.inr (hplace.resolve_left (fun hq => hnot hq.1))

/-- Behind the entry into the queue the reader is on it, or is to run. -/
theorem Reader.Inv.queue_cases (h : s.Inv) :
    s.waitQueue = [] ∨ (s.Queued ∧ (s.point = .linked ∨ s.point = .scheduled)) := by
  have hplace := h.place
  unfold Reader.Place at hplace
  cases hp : s.point with
  | outside =>
      rw [hp] at hplace
      exact Or.inl hplace
  | entered | reading | marked =>
      rw [hp] at hplace
      exact Or.inl hplace.1
  | tested =>
      rw [hp] at hplace
      exact Or.inl hplace.1.1
  | linked =>
      rw [hp] at hplace
      exact hplace.elim (fun h1 => Or.inr ⟨h1, Or.inl rfl⟩) (fun h1 => Or.inl h1.1)
  | scheduled =>
      rw [hp] at hplace
      exact hplace.elim (fun h1 => Or.inr ⟨h1.1, Or.inr rfl⟩) (fun h1 => Or.inl h1.1)

/-- **An interrupt of the keyboard**: a reader on the queue is woken. -/
theorem Reader.Inv.keyboard (h : s.Inv) (x : UInt8) (h1 : s.point ≠ .tested)
    (h2 : s.point ≠ .marked) (hr : (ReaderStep.keyboard x).run s = some s') : s'.Inv := by
  rcases h.queue_cases with hq | ⟨hqueued, hp⟩
  · have hk := h.setKb (keyboardHandler s.kb x) hq h1 h2
    refine hk.other (c := .interrupt) trivial trivial (fun hp => absurd hp h2) ?_
    simp only [ReaderStep.run, keyboardInterrupt, hq, wakeUp, Option.map_some, Option.bind_some,
      SchedStep.run, Option.map_map] at hr ⊢
    exact hr
  · obtain ⟨hwq, hstate, -⟩ := hqueued
    obtain ⟨σ, b, he, hs, -⟩ := h.sched.step (.interruptWake s.task)
      (by rw [SchedStep.Allowed, hstate]; decide)
    have hawake : (σ.task s.task).state = .running := by
      rw [hs.state]
      exact if_pos rfl
    rw [SchedStep.run, Option.bind_eq_some_iff] at he
    obtain ⟨σ₁, hwake, he⟩ := he
    obtain ⟨σ', hret, heq⟩ := Option.map_eq_some_iff.mp he
    obtain ⟨rfl, -⟩ := Prod.mk.inj heq
    rw [ReaderStep.run, keyboardInterrupt, hwq, wakeUp_uninterruptable hstate, hwake,
      Option.map_some, Option.map_some, Option.bind_some, hret] at hr
    obtain rfl := Option.some.inj hr
    refine ⟨hs.inv, ?_, ?_⟩
    · show s.task ≠ σ'.initTask
      rw [hs.initTask]
      exact h.idle
    · unfold Reader.Place
      rcases hp with hp | hp
      · rw [hp]
        exact Or.inr ⟨rfl, hawake⟩
      · rw [hp]
        exact Or.inr ⟨rfl, hawake⟩

/-- **One step** of the task. -/
theorem Reader.Inv.own (h : s.Inv) (c : ReaderStep) (ha : c.Allowed s) {p : ReadPoint}
    (hfrom : c.from = some p) (hr : c.run s = some s') : s'.Inv := by
  obtain ⟨hpoint, hcur⟩ := ha.1 p hfrom
  have hplace := h.place
  unfold Reader.Place at hplace
  rw [hpoint] at hplace
  cases c with
  | call =>
      obtain rfl := Option.some.inj hfrom
      obtain rfl := Option.some.inj hr
      exact ⟨h.sched, h.idle, hplace, ha.2⟩
  | test =>
      obtain rfl := Option.some.inj hfrom
      obtain rfl := Option.some.inj hr
      refine ⟨h.sched, h.idle, ?_⟩
      unfold Reader.Place
      by_cases hz : s.kb.count = 0
      · rw [if_pos hz]
        exact ⟨hplace, hz⟩
      · rw [if_neg hz]
        exact hplace
  | mark =>
      obtain rfl := Option.some.inj hfrom
      obtain rfl := Option.some.inj hr
      refine ⟨h.sched.sleep (by rw [hcur]; exact ha.2), h.idle, hplace.1.1, ?_, hcur, hplace.2⟩
      show (s.sched.markSleeping.task s.task).state = _
      rw [markSleeping_state, if_pos hcur.symm]
  | link =>
      obtain rfl := Option.some.inj hfrom
      obtain rfl := Option.some.inj hr
      refine ⟨h.sched, h.idle, Or.inl ⟨?_, hplace.2.1, hplace.2.2.2⟩⟩
      show waitLink s.waitQueue s.task = [s.task]
      rw [hplace.1]
      rfl
  | schedule =>
      obtain rfl := Option.some.inj hfrom
      obtain ⟨σ, he, hs, -, hrun⟩ := schedule_inv h.sched.queue h.sched.unlocked
      rw [ReaderStep.run, he] at hr
      obtain rfl := Option.some.inj hr
      have hstate := hs.state s.task
      have hidle : s.task ≠ σ.initTask := hs.initTask ▸ h.idle
      refine ⟨hs.inv, hidle, hplace.imp (fun h1 => ⟨⟨h1.1, hstate.trans h1.2.1, h1.2.2⟩, ?_⟩)
        (fun h1 => ⟨h1.1, hstate.trans h1.2⟩)⟩
      -- a task that sleeps is switched out
      show σ.current ≠ s.task
      intro hc
      rw [hc, hstate, h1.2.1] at hrun
      exact hrun.elim (fun h2 => nomatch h2) hidle
  | ret =>
      obtain rfl := Option.some.inj hfrom
      obtain rfl := Option.some.inj hr
      exact ⟨h.sched, h.idle, hplace.resolve_left (fun h1 => h1.2 hcur)⟩
  | copy buf count =>
      obtain rfl := Option.some.inj hfrom
      obtain rfl := Option.some.inj hr
      exact ⟨h.sched, h.idle, hplace.1⟩
  | keyboard x => exact nomatch hfrom
  | other c => exact nomatch hfrom

theorem ReaderReachable.inv (h : ReaderReachable (fun s c => c.Safe s) s) : s.Inv := by
  induction h with
  | init hs block mem hidle => exact ⟨hs.inv, hidle, rfl⟩
  | step c _ ha hok hr ih =>
      cases c with
      | keyboard x => exact ih.keyboard x hok.1 hok.2 hr
      | other c => exact ih.other ha.2.1 ha.2.2 hok hr
      | _ => exact ih.own _ ha rfl hr

/-- Inside `keyboard_read`, a reader that is marked sleeping is on the queue, or still runs. -/
theorem Reader.Inv.sleeping (h : s.Inv) (hout : s.point ≠ .outside)
    (hstate : (s.sched.task s.task).state = .uninterruptable) :
    s.Queued ∨ s.sched.current = s.task := by
  have hplace := h.place
  have hawake : ¬ s.Awake := fun h1 => nomatch h1.2.symm.trans hstate
  unfold Reader.Place at hplace
  cases hp : s.point with
  | outside => exact absurd hp hout
  | entered | reading =>
      rw [hp] at hplace
      exact absurd hplace hawake
  | tested =>
      rw [hp] at hplace
      exact absurd hplace.1 hawake
  | marked =>
      rw [hp] at hplace
      exact Or.inr hplace.2.2.1
  | linked =>
      rw [hp] at hplace
      exact Or.inl (hplace.resolve_right hawake)
  | scheduled =>
      rw [hp] at hplace
      exact Or.inl (hplace.resolve_right hawake).1

end

/-- **The reader is never lost**, in every run in which no byte arrives between the test and the
entry into the queue, and no interrupt reschedules between the change of the state and the entry. -/
theorem keyboard_reader_never_lost {s : Reader} (h : ReaderReachable (fun s c => c.Safe s) s) :
    ¬ s.Lost ∧ ¬ s.Overslept := by
  constructor
  · rintro ⟨hout, hcur, hstate, hq⟩
    rcases h.inv.sleeping hout hstate with h1 | h1
    · rw [h1.1] at hq
      exact hq List.mem_cons_self
    · exact hcur h1
  · rintro ⟨hq, -, -, hcount⟩
    rcases h.inv.queue_cases with h1 | ⟨h1, -⟩
    · rw [h1] at hq
      exact absurd hq List.not_mem_nil
    · rw [h1.2.2] at hcount
      exact absurd hcount (lt_irrefl 0)

/-- Task 1 runs, and is to read. -/
def exampleReader : Option Reader :=
  (SchedStep.run (schedulerInit 0 exampleTasks) (.interruptWake 1)).map
    (fun r => readerInit r.1 (fun _ => 0) (fun _ => 0) 1)

theorem exampleReader_reachable {ok : Reader → ReaderStep → Prop} {s : Reader}
    (h : exampleReader = some s) : ReaderReachable ok s := by
  obtain ⟨σ, hr, hσ, -, hi, -⟩ := exampleSched
  unfold exampleReader at h
  rw [hr] at h
  obtain rfl := Option.some.inj h
  exact .init hσ _ _ (by rw [hi]; decide)

/-- The steps lead from one state to the other. -/
def Reader.Runs (ok : Reader → ReaderStep → Prop) (s : Reader) : List ReaderStep → Reader → Prop
  | [], s' => s = s'
  | c :: cs, s' => ∃ s₁, c.Allowed s ∧ ok s c ∧ c.run s = some s₁ ∧ s₁.Runs ok cs s'

theorem ReaderReachable.runs {ok : Reader → ReaderStep → Prop} {s s' : Reader}
    (h : ReaderReachable ok s) {cs : List ReaderStep} (hr : s.Runs ok cs s') :
    ReaderReachable ok s' := by
  induction cs generalizing s with
  | nil => exact hr ▸ h
  | cons c cs ih =>
      obtain ⟨s₁, ha, hok, hrun, hrest⟩ := hr
      exact ih (h.step c ha hok hrun) hrest

/-- A step of the task, made from its place. -/
theorem ReaderStep.Allowed.own {s : Reader} {c : ReaderStep} {p : ReadPoint} (hc : c.from = some p)
    (hp : s.point = p) (ht : s.sched.current = s.task) (h : c.Ready s) : c.Allowed s := by
  refine ⟨fun q hq => ?_, h⟩
  obtain rfl := Option.some.inj (hc.symm.trans hq)
  exact ⟨hp, ht⟩

/-- A reader that finds nothing sleeps on the queue. -/
theorem keyboard_reader_never_lost_example : ∃ s : Reader,
    s.waitQueue = [1] ∧ s.sched.current = 0 ∧ ¬ s.Lost ∧ ¬ s.Overslept := by
  obtain ⟨s₀, s, h0, hrun, hq, hc⟩ : ∃ s₀ s, exampleReader = some s₀ ∧
      s₀.Runs (fun s c => c.Safe s) [.call, .test, .mark, .link, .schedule] s ∧
      s.waitQueue = [1] ∧ s.sched.current = 0 :=
    ⟨_, _, rfl, ⟨_, .own rfl rfl rfl rfl, trivial, rfl,
      _, .own rfl rfl rfl trivial, trivial, rfl, _, .own rfl rfl rfl rfl, trivial, rfl,
      _, .own rfl rfl rfl trivial, trivial, rfl, _, .own rfl rfl rfl trivial, trivial, rfl,
      rfl⟩, rfl, rfl⟩
  exact ⟨s, hq, hc, keyboard_reader_never_lost ((exampleReader_reachable h0).runs hrun)⟩

/-- A byte arrives between the test and the change of the state: the reader sleeps all the same. -/
theorem keyboard_reader_oversleeps :
    ¬ ∀ s, ReaderReachable (fun _ _ => True) s → ¬ s.Lost ∧ ¬ s.Overslept := by
  intro hall
  obtain ⟨s₀, s, h0, hrun, hq, ht, hc, hs, hcount⟩ : ∃ s₀ s, exampleReader = some s₀ ∧
      s₀.Runs (fun _ _ => True) [.call, .test, .keyboard 7, .mark, .link, .schedule] s ∧
      s.waitQueue = [1] ∧ s.task = 1 ∧ s.sched.current = 0 ∧
      (s.sched.task 1).state = .uninterruptable ∧ s.kb.count = 1 :=
    ⟨_, _, rfl, ⟨_, .own rfl rfl rfl rfl, trivial, rfl,
      _, .own rfl rfl rfl trivial, trivial, rfl, _, ⟨by rintro _ ⟨⟩, trivial⟩, trivial, rfl,
      _, .own rfl rfl rfl rfl, trivial, rfl, _, .own rfl rfl rfl trivial, trivial, rfl,
      _, .own rfl rfl rfl trivial, trivial, rfl, rfl⟩, rfl, rfl, rfl, rfl, rfl⟩
  refine (hall s ((exampleReader_reachable h0).runs hrun)).2 ⟨?_, ?_, ?_, ?_⟩
  · rw [hq, ht]
    exact List.mem_cons_self
  · rw [hc, ht]
    decide
  · rw [ht]
    exact hs
  · rw [hcount]
    decide

end Talios
