import Mathlib.Data.List.Sort
import Mathlib.Tactic

set_option autoImplicit false

/-! # Timers

`add_timer`, `delete_timer` and `do_time` of `timer.c` on the list behind `timer_list_header`, and
what the tick of `hpet_handler` does with it. The list is the sequence of the pending timers from
`timer_list_header.list.next` on; behind the last one comes the header, whose `expire_jiffies` is
the largest there is.

The state has, besides, the trace of what happened to the timers, in order.
-/

namespace Talios

/-! ## Data -/

/-- `struct timer_list` at address `self`; `expire_jiffies` is an `unsigned long`. -/
structure Timer where
  self : Nat
  expireJiffies : Nat
  lt : expireJiffies < 2 ^ 64

/-- `timer_list_header.expire_jiffies`. -/
def HEADER_EXPIRE : Nat := 2 ^ 64 - 1

inductive TimerEvent
  | added (t : Timer)
  | deleted (self : Nat)
  | fired (t : Timer) (jiffies : Nat)

/-- `jiffies`, the list, the `TIME_SIRQ` bit of `softirq_status`, and the trace. -/
structure Timers where
  jiffies : Nat
  pending : List Timer
  timeSirq : Bool
  trace : List TimerEvent

/-! ## `timer.c` -/

/-- The loop of `add_timer`; `none` is a walk past the header. -/
def addWalk (timer : Timer) : List Timer → Option (List Timer)
  | [] => if HEADER_EXPIRE < timer.expireJiffies then none else some [timer]
  | tmp :: rest =>
      if tmp.expireJiffies < timer.expireJiffies then (addWalk timer rest).map (tmp :: ·)
      else some (timer :: tmp :: rest)

/-- `add_timer`. -/
def addTimer (s : Timers) (timer : Timer) : Option Timers :=
  if s.pending.isEmpty then
    some { s with pending := [timer], trace := s.trace ++ [.added timer] }
  else
    (addWalk timer s.pending).map (fun pending => { s with
      pending := pending, trace := s.trace ++ [.added timer] })

/-- `delete_timer`. -/
def deleteTimer (s : Timers) (self : Nat) : Timers :=
  { s with
    pending := s.pending.filter (fun t => decide (t.self ≠ self))
    trace := s.trace ++ [.deleted self] }

/-- The loop of `do_time`: the timers it calls, and those it leaves. -/
def timeLoop (jiffies : Nat) : List Timer → List Timer × List Timer
  | [] => ([], [])
  | tmp :: rest =>
      if tmp.expireJiffies ≤ jiffies then
        let r := timeLoop jiffies rest
        (tmp :: r.1, r.2)
      else ([], tmp :: rest)

/-- `do_time`, as `do_softirq` calls it. -/
def doTime (s : Timers) : Timers :=
  let r := timeLoop s.jiffies s.pending
  { s with
    pending := r.2, timeSirq := false
    trace := s.trace ++ r.1.map (fun t => .fired t s.jiffies) }

/-- `hpet_handler`, as far as the timers are concerned. -/
def timerTick (s : Timers) : Timers :=
  let jiffies := (s.jiffies + 1) % 2 ^ 64
  let first := (s.pending.head?.map Timer.expireJiffies).getD HEADER_EXPIRE
  { s with jiffies := jiffies, timeSirq := s.timeSirq || decide (first ≤ jiffies) }

/-! ## Steps -/

inductive TimerStep
  | add (t : Timer)
  | delete (self : Nat)
  | tick
  | doTime

def TimerStep.run (s : Timers) : TimerStep → Option Timers
  | .add t => addTimer s t
  | .delete self => some (deleteTimer s self)
  | .tick => some (timerTick s)
  | .doTime => some (Talios.doTime s)

/-- A timer is added that is not pending, and deleted if it is. -/
def TimerStep.Allowed (s : Timers) : TimerStep → Prop
  | .add t => t.self ∉ s.pending.map Timer.self
  | .delete self => self ∈ s.pending.map Timer.self
  | .tick => True
  | .doTime => True

/-- The states from `time_init` on, whose own timer is the first that is added. -/
inductive TimerReachable : Timers → Prop
  | init : TimerReachable ⟨0, [], false, []⟩
  | step {s s' : Timers} (c : TimerStep) (h : TimerReachable s) (hok : c.Allowed s)
      (hr : c.run s = some s') : TimerReachable s'

/-! ## What is wanted -/

/-- Whether the timer at `self` is pending, from event to event; `none` where it is added twice, or
deleted or called without being pending. -/
def TimerEvent.next (self : Nat) (b : Option Bool) : TimerEvent → Option Bool
  | .added t => if t.self = self then (if b = some false then some true else none) else b
  | .deleted x => if x = self then (if b = some true then some false else none) else b
  | .fired t _ => if t.self = self then (if b = some true then some false else none) else b

def status (self : Nat) (trace : List TimerEvent) : Option Bool :=
  trace.foldl (TimerEvent.next self) (some false)

/-- The list is sorted; every timer was added, and then deleted or called, in turn, and those that
are pending are the ones added last; none was called before its time. -/
structure Timers.Ok (s : Timers) : Prop where
  sorted : s.pending.Pairwise (fun a b => a.expireJiffies ≤ b.expireJiffies)
  nodup : (s.pending.map Timer.self).Nodup
  trace : ∀ self, status self s.trace = some (decide (self ∈ s.pending.map Timer.self))
  early : ∀ t j, .fired t j ∈ s.trace → t.expireJiffies ≤ j

/-! ## One call -/

section

variable {s : Timers} {timer : Timer} {l : List Timer}

/-- The walk ends at the latest at the header. -/
theorem addWalk_eq : addWalk timer l
    = some (l.orderedInsert (fun a b => a.expireJiffies ≤ b.expireJiffies) timer) := by
  induction l with
  | nil =>
      have hlt := timer.lt
      rw [addWalk, if_neg (by unfold HEADER_EXPIRE; omega), List.orderedInsert_nil]
  | cons tmp rest ih =>
      rw [addWalk, List.orderedInsert_cons]
      by_cases h : tmp.expireJiffies < timer.expireJiffies
      · rw [if_pos h, if_neg (by omega), ih]
        rfl
      · rw [if_neg h, if_pos (by omega)]

theorem addTimer_eq : addTimer s timer = some { s with
    pending := s.pending.orderedInsert (fun a b => a.expireJiffies ≤ b.expireJiffies) timer
    trace := s.trace ++ [.added timer] } := by
  unfold addTimer
  cases hp : s.pending with
  | nil => rfl
  | cons tmp rest =>
      rw [addWalk_eq]
      rfl

/-- On a sorted list the loop stops at the first timer that is not due, and no later one is. -/
theorem timeLoop_eq {jiffies : Nat}
    (hs : l.Pairwise (fun a b => a.expireJiffies ≤ b.expireJiffies)) :
    timeLoop jiffies l = (l.filter (fun t => decide (t.expireJiffies ≤ jiffies)),
      l.filter (fun t => !decide (t.expireJiffies ≤ jiffies))) := by
  induction l with
  | nil => rfl
  | cons tmp rest ih =>
      obtain ⟨hfirst, hrest⟩ := List.pairwise_cons.mp hs
      rw [timeLoop]
      by_cases h : tmp.expireJiffies ≤ jiffies
      · rw [if_pos h, ih hrest]
        simp [h]
      · have hlate : ∀ t ∈ tmp :: rest, ¬ t.expireJiffies ≤ jiffies := by
          intro t ht
          rcases List.mem_cons.mp ht with rfl | ht
          · exact h
          · have := hfirst t ht
            omega
        rw [if_neg h, List.filter_eq_nil_iff.mpr (fun t ht => by simpa using hlate t ht),
          List.filter_eq_self.mpr (fun t ht => by simpa using hlate t ht)]

theorem status_append (self : Nat) (trace trace' : List TimerEvent) :
    status self (trace ++ trace') = trace'.foldl (TimerEvent.next self) (status self trace) :=
  List.foldl_append

/-- The calls of a list of timers, none of them twice. -/
theorem foldl_fired (self jiffies : Nat) : ∀ (l : List Timer) (b : Bool),
    (l.map Timer.self).Nodup → (self ∈ l.map Timer.self → b = true) →
    (l.map (fun t => TimerEvent.fired t jiffies)).foldl (TimerEvent.next self) (some b)
      = some (b && !decide (self ∈ l.map Timer.self)) := by
  intro l
  induction l with
  | nil =>
      intro b _ _
      simp
  | cons t rest ih =>
      intro b hnd hb
      obtain ⟨hout, hnd⟩ := List.nodup_cons.mp hnd
      rw [List.map_cons, List.foldl_cons]
      by_cases ht : t.self = self
      · subst ht
        obtain rfl := hb (by simp)
        have hnext : TimerEvent.next t.self (some true) (.fired t jiffies) = some false := by
          simp [TimerEvent.next]
        rw [hnext, ih false hnd (fun h => absurd h hout)]
        simp
      · have hnext : TimerEvent.next self (some b) (.fired t jiffies) = some b := by
          simp [TimerEvent.next, ht]
        rw [hnext, ih b hnd (fun h => hb (List.mem_cons_of_mem _ h))]
        simp [Ne.symm ht]

end

/-! ## Runs -/

section

variable {s s' : Timers}

theorem Timers.Ok.add (h : s.Ok) {t : Timer} (ht : t.self ∉ s.pending.map Timer.self)
    (hr : addTimer s t = some s') : s'.Ok := by
  obtain rfl := Option.some.inj (addTimer_eq.symm.trans hr)
  have hperm : ((s.pending.orderedInsert (fun a b => a.expireJiffies ≤ b.expireJiffies) t).map
      Timer.self).Perm (t.self :: s.pending.map Timer.self) :=
    (List.perm_orderedInsert _ t s.pending).map Timer.self
  refine ⟨?_, ?_, fun self => ?_, fun x j hx => ?_⟩
  · exact h.sorted.orderedInsert t _
  · exact hperm.nodup_iff.mpr (List.nodup_cons.mpr ⟨ht, h.nodup⟩)
  · show status self (s.trace ++ [.added t]) = some (decide (self ∈ (s.pending.orderedInsert
      (fun a b => a.expireJiffies ≤ b.expireJiffies) t).map Timer.self))
    rw [status_append, h.trace]
    simp only [hperm.mem_iff, List.mem_cons]
    by_cases he : t.self = self
    · subst he
      simp [TimerEvent.next, ht]
    · simp [TimerEvent.next, he, Ne.symm he]
  · rcases List.mem_append.mp hx with hx | hx
    · exact h.early x j hx
    · exact absurd (List.mem_singleton.mp hx) (by simp)

theorem Timers.Ok.delete (h : s.Ok) {self : Nat} (ht : self ∈ s.pending.map Timer.self) :
    (deleteTimer s self).Ok := by
  refine ⟨h.sorted.sublist List.filter_sublist, h.nodup.sublist (List.filter_sublist.map _),
    fun x => ?_, fun x j hx => ?_⟩
  · show status x (s.trace ++ [.deleted self]) = some (decide (x ∈ (s.pending.filter
      (fun t => decide (t.self ≠ self))).map Timer.self))
    have hmem : x ∈ (s.pending.filter (fun t => decide (t.self ≠ self))).map Timer.self ↔
        x ∈ s.pending.map Timer.self ∧ x ≠ self := by
      simp only [List.mem_map, List.mem_filter, decide_eq_true_eq]
      constructor
      · rintro ⟨t, ⟨h1, h2⟩, rfl⟩
        exact ⟨⟨t, h1, rfl⟩, h2⟩
      · rintro ⟨⟨t, h1, rfl⟩, h2⟩
        exact ⟨t, ⟨h1, h2⟩, rfl⟩
    rw [status_append, h.trace]
    simp only [hmem]
    by_cases he : self = x
    · subst he
      simp [TimerEvent.next, ht]
    · simp [TimerEvent.next, he, Ne.symm he]
  · rcases List.mem_append.mp hx with hx | hx
    · exact h.early x j hx
    · exact absurd (List.mem_singleton.mp hx) (by simp)

theorem Timers.Ok.tick (h : s.Ok) : (timerTick s).Ok := ⟨h.sorted, h.nodup, h.trace, h.early⟩

theorem doTime_eq (h : s.Ok) : doTime s = { s with
    pending := s.pending.filter (fun t => !decide (t.expireJiffies ≤ s.jiffies)), timeSirq := false
    trace := s.trace ++ (s.pending.filter (fun t => decide (t.expireJiffies ≤ s.jiffies))).map
      (fun t => .fired t s.jiffies) } := by
  unfold doTime
  rw [timeLoop_eq h.sorted]

theorem Timers.Ok.doTime (h : s.Ok) : (Talios.doTime s).Ok := by
  rw [doTime_eq h]
  set due := s.pending.filter (fun t => decide (t.expireJiffies ≤ s.jiffies)) with hdue
  have hmemdue : ∀ t, t ∈ due ↔ t ∈ s.pending ∧ t.expireJiffies ≤ s.jiffies := by
    intro t
    simp [hdue]
  refine ⟨h.sorted.sublist List.filter_sublist, h.nodup.sublist (List.filter_sublist.map _),
    fun self => ?_, fun x j hx => ?_⟩
  · show status self (s.trace ++ due.map (fun t => .fired t s.jiffies)) = some (decide (self ∈
      (s.pending.filter (fun t => !decide (t.expireJiffies ≤ s.jiffies))).map Timer.self))
    have hsub : self ∈ due.map Timer.self → self ∈ s.pending.map Timer.self := by
      intro hm
      obtain ⟨t, ht, rfl⟩ := List.mem_map.mp hm
      exact List.mem_map_of_mem ((hmemdue t).mp ht).1
    -- a timer is called or left, not both, since it is pending once
    have hleft : self ∈ (s.pending.filter (fun t => !decide (t.expireJiffies ≤ s.jiffies))).map
        Timer.self ↔ self ∈ s.pending.map Timer.self ∧ self ∉ due.map Timer.self := by
      constructor
      · intro hm
        obtain ⟨t, ht, rfl⟩ := List.mem_map.mp hm
        obtain ⟨h1, h2⟩ := List.mem_filter.mp ht
        refine ⟨List.mem_map_of_mem h1, fun hd => ?_⟩
        obtain ⟨u, hu, heq⟩ := List.mem_map.mp hd
        obtain ⟨h3, h4⟩ := (hmemdue u).mp hu
        have hut : u = t := List.inj_on_of_nodup_map h.nodup h3 h1 heq
        rw [hut] at h4
        simp [h4] at h2
      · rintro ⟨h1, h2⟩
        obtain ⟨t, ht, rfl⟩ := List.mem_map.mp h1
        refine List.mem_map_of_mem (List.mem_filter.mpr ⟨ht, ?_⟩)
        have hlate : ¬ t.expireJiffies ≤ s.jiffies := fun hle =>
          h2 (List.mem_map_of_mem ((hmemdue t).mpr ⟨ht, hle⟩))
        simp [hlate]
    rw [status_append, h.trace, foldl_fired self s.jiffies due _
      (h.nodup.sublist (List.filter_sublist.map _)) (fun hm => decide_eq_true (hsub hm))]
    simp only [hleft]
    by_cases h1 : self ∈ s.pending.map Timer.self <;> by_cases h2 : self ∈ due.map Timer.self <;>
      simp [h1, h2]
  · rcases List.mem_append.mp hx with hx | hx
    · exact h.early x j hx
    · obtain ⟨t, ht, heq⟩ := List.mem_map.mp hx
      cases heq
      exact ((hmemdue x).mp ht).2

/-- **One step.** -/
theorem Timers.Ok.step (h : s.Ok) (c : TimerStep) (hok : c.Allowed s) :
    ∃ s', c.run s = some s' ∧ s'.Ok := by
  cases c with
  | add t => exact ⟨_, addTimer_eq, h.add hok addTimer_eq⟩
  | delete self => exact ⟨_, rfl, h.delete hok⟩
  | tick => exact ⟨_, rfl, h.tick⟩
  | doTime => exact ⟨_, rfl, h.doTime⟩

theorem TimerReachable.ok (h : TimerReachable s) : s.Ok := by
  induction h with
  | init => exact ⟨List.Pairwise.nil, List.nodup_nil, fun self => rfl, fun t j ht => by cases ht⟩
  | step c _ hok hr ih =>
      obtain ⟨s', he, hi⟩ := ih.step c hok
      obtain rfl := Option.some.inj (he.symm.trans hr)
      exact hi

/-- A tick looks at the first timer only, which is enough. -/
theorem timerTick_sirq (h : s.Ok) {t : Timer} (ht : t ∈ (timerTick s).pending)
    (hdue : t.expireJiffies ≤ (timerTick s).jiffies) : (timerTick s).timeSirq = true := by
  have ht : t ∈ s.pending := ht
  have hdue : t.expireJiffies ≤ (s.jiffies + 1) % 2 ^ 64 := hdue
  have hsorted := h.sorted
  unfold timerTick
  cases hp : s.pending with
  | nil =>
      rw [hp] at ht
      exact absurd ht List.not_mem_nil
  | cons first rest =>
      rw [hp] at ht hsorted
      have hle : first.expireJiffies ≤ t.expireJiffies := by
        rcases List.mem_cons.mp ht with rfl | ht
        · exact le_rfl
        · exact (List.pairwise_cons.mp hsorted).1 t ht
      show (s.timeSirq || decide (first.expireJiffies ≤ (s.jiffies + 1) % 2 ^ 64)) = true
      rw [decide_eq_true (hle.trans hdue), Bool.or_true]

/-- What `delete_timer` leaves: the timer is off, every other one stays. -/
theorem mem_deleteTimer {self : Nat} {t : Timer} :
    t ∈ (deleteTimer s self).pending ↔ t ∈ s.pending ∧ t.self ≠ self := by
  simp [deleteTimer]

end

/-- **The timer list.** In every state a run reaches: the list is sorted, no timer is on it twice;
of the trace every timer has a history in which it is added, then called or deleted, in turn, and is
pending if it was added last; no timer was called early. `add_timer` puts the timer among the
pending ones and `delete_timer` takes it off, both leave the others; `do_time` calls the timers that
are due, each once and in the order of expiry, leaves the others pending and `TIME_SIRQ` clear; a tick
leaves the list and, where a timer is due, raises `TIME_SIRQ`; and every call comes back. -/
theorem timer_list_ok (s : Timers) (h : TimerReachable s) :
    s.pending.Pairwise (fun a b => a.expireJiffies ≤ b.expireJiffies) ∧
    (∀ self, status self s.trace = some (decide (self ∈ s.pending.map Timer.self))) ∧
    (∀ t j, .fired t j ∈ s.trace → t.expireJiffies ≤ j) ∧
    (s.pending.map Timer.self).Nodup ∧
    (∀ t s', addTimer s t = some s' →
      s'.pending.Perm (t :: s.pending) ∧ s'.trace = s.trace ++ [.added t]) ∧
    (∀ self ∈ s.pending.map Timer.self,
      (∀ t, t ∈ (deleteTimer s self).pending ↔ t ∈ s.pending ∧ t.self ≠ self) ∧
      (deleteTimer s self).trace = s.trace ++ [.deleted self]) ∧
    (doTime s).pending = s.pending.filter (fun t => !decide (t.expireJiffies ≤ s.jiffies)) ∧
    (doTime s).trace = s.trace ++
      (s.pending.filter (fun t => decide (t.expireJiffies ≤ s.jiffies))).map
        (fun t => .fired t s.jiffies) ∧
    (doTime s).timeSirq = false ∧
    (timerTick s).pending = s.pending ∧ (timerTick s).trace = s.trace ∧
    (∀ t ∈ (timerTick s).pending, t.expireJiffies ≤ (timerTick s).jiffies →
      (timerTick s).timeSirq = true) ∧
    ∀ c : TimerStep, c.Allowed s → ∃ s', c.run s = some s' := by
  have hok := h.ok
  have hdo := doTime_eq hok
  refine ⟨hok.sorted, hok.trace, hok.early, hok.nodup, fun t s' hr => ?_,
    fun self _ => ⟨fun t => mem_deleteTimer, rfl⟩, congrArg Timers.pending hdo,
    congrArg Timers.trace hdo, congrArg Timers.timeSirq hdo, rfl, rfl,
    fun t ht hdue => timerTick_sirq hok ht hdue, fun c hc => ?_⟩
  · obtain rfl := Option.some.inj (addTimer_eq.symm.trans hr)
    exact ⟨List.perm_orderedInsert _ t s.pending, rfl⟩
  · obtain ⟨s', he, -⟩ := hok.step c hc
    exact ⟨s', he⟩

/-- A timer that never comes to its end, and one that is due at the first tick: the second is called
by `do_time`, the first is deleted, and neither is called again. -/
theorem timer_list_ok_example :
    ∃ s never first, TimerReachable s ∧ never.expireJiffies = 2 ^ 64 - 1 ∧
      s.trace = [.added never, .added first, .fired first 1, .deleted never.self] ∧
      ∀ self, status self s.trace = some false := by
  have h₁ := TimerReachable.step (.add ⟨64, 2 ^ 64 - 1, by decide⟩) .init
    (by simp [TimerStep.Allowed]) addTimer_eq
  have h₂ := TimerReachable.step (.add ⟨128, 1, by decide⟩) h₁
    (by simp [TimerStep.Allowed]) addTimer_eq
  have h₃ := TimerReachable.step .tick h₂ trivial rfl
  have h₄ := TimerReachable.step .doTime h₃ trivial rfl
  have h₅ := TimerReachable.step (.delete 64) h₄ (show 64 ∈ [64] by decide) rfl
  have hstatus := (timer_list_ok _ h₅).2.1
  exact ⟨_, ⟨64, 2 ^ 64 - 1, by decide⟩, ⟨128, 1, by decide⟩, h₅, rfl, rfl, hstatus⟩

end Talios
