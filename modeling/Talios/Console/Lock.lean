import Mathlib.Data.List.Basic
import Mathlib.Tactic

set_option autoImplicit false

/-! # The lock of the console

`ColorPrintfk` takes `screenInfo.lock` where interrupts are enabled, and nothing where they are
disabled. The contexts of one processor are nested: a task, the handler of an interrupt that came on
top of it with interrupts disabled, `do_softirq` behind the handler with interrupts enabled again,
the handler of an interrupt on top of that, and so on. Only the innermost context runs.

A handler prints without the lock. But a softirq action runs with interrupts enabled on top of a
context that may hold the lock, and then waits for it without end.
-/

namespace Talios

/-! ## Data -/

inductive ContextKind
  | task
  | irq
  | softirq
deriving DecidableEq

/-- Where a context stands in `ColorPrintfk`: outside, in `spin_lock`, or in the loop over the
buffer, with the lock or without it. -/
inductive PrintPoint
  | outside
  | waiting
  | locked
  | unlocked
deriving DecidableEq

/-- A context, with the interrupt flag of `get_rflags`. -/
structure Context where
  kind : ContextKind
  intr : Bool
  print : PrintPoint
deriving DecidableEq

/-- The contexts, the innermost first, and `screenInfo.lock`. -/
structure Console where
  contexts : List Context
  lock : Bool

/-- A task runs, and nobody prints. -/
def consoleInit : Console := ⟨[⟨.task, true, .outside⟩], false⟩

/-! ## Steps -/

/-- What the running context does: it calls `ColorPrintfk`, gets the lock in `spin_lock`, comes to
the end of the loop, disables or enables interrupts, is interrupted, goes on to `do_softirq`, or
returns to the context it came on top of. -/
inductive ConsoleStep
  | print
  | lock
  | done
  | cli
  | sti
  | interrupt
  | softirq
  | ret

/-- The first test of the interrupt flag. -/
def Context.colorPrintfk (c : Context) : Context :=
  { c with print := if c.intr then .waiting else .unlocked }

/-- `do_softirq`, up to its `sti`. -/
def Context.doSoftirq (c : Context) : Context := { c with kind := .softirq, intr := true }

/-- The step of the running context `c`, on top of `rest`. -/
def ConsoleStep.run (lock : Bool) (c : Context) (rest : List Context) : ConsoleStep → Console
  | .print => ⟨c.colorPrintfk :: rest, lock⟩
  | .lock => ⟨{ c with print := .locked } :: rest, true⟩
  | .done => ⟨{ c with print := .outside } :: rest, if c.intr then false else lock⟩
  | .cli => ⟨{ c with intr := false } :: rest, lock⟩
  | .sti => ⟨{ c with intr := true } :: rest, lock⟩
  | .interrupt => ⟨⟨.irq, false, .outside⟩ :: c :: rest, lock⟩
  | .softirq => ⟨c.doSoftirq :: rest, lock⟩
  | .ret => ⟨rest, lock⟩

/-- When a step can be made. `spin_lock` comes to its end where the lock is free; interrupts come
where they are enabled, through a gate that disables them; the flag is changed by a task. -/
def ConsoleStep.Allowed (lock : Bool) (c : Context) : ConsoleStep → Prop
  | .print => c.print = .outside
  | .lock => c.print = .waiting ∧ lock = false
  | .done => c.print = .locked ∨ c.print = .unlocked
  | .cli => c.kind = .task ∧ c.print = .outside
  | .sti => c.kind = .task ∧ c.print = .outside
  | .interrupt => c.intr = true
  | .softirq => c.kind = .irq ∧ c.print = .outside
  | .ret => c.kind ≠ .task ∧ c.print = .outside

/-- A state that a run comes to whose steps all meet `ok`. -/
inductive ConsoleReachable (ok : Context → List Context → ConsoleStep → Prop) : Console → Prop
  | init : ConsoleReachable ok consoleInit
  | step {lock : Bool} {c : Context} {rest : List Context} (a : ConsoleStep)
      (h : ConsoleReachable ok ⟨c :: rest, lock⟩) (ha : a.Allowed lock c) (hok : ok c rest a) :
      ConsoleReachable ok (a.run lock c rest)

/-! ## Deadlock -/

/-- A context waits in `spin_lock` for one that it came on top of. -/
def Console.Deadlock (s : Console) : Prop :=
  ¬ s.contexts.Pairwise (fun c d => c.print = .waiting → d.print ≠ .locked)

/-- No softirq action prints on top of a context that holds the lock. -/
def ConsoleStep.Apart (c : Context) (rest : List Context) (a : ConsoleStep) : Prop :=
  a = .print → c.kind = .softirq → ∀ d ∈ rest, d.print ≠ .locked

/-- The flag of a context, by its kind and its place in `ColorPrintfk`. -/
structure Context.Ok (c : Context) : Prop where
  irq : c.kind = .irq → c.intr = false
  softirq : c.kind = .softirq → c.intr = true
  waiting : c.print = .waiting → c.intr = true
  locked : c.print = .locked → c.intr = true
  unlocked : c.print = .unlocked → c.intr = false

/-- `c` came on top of `d`. -/
structure Context.Above (c d : Context) : Prop where
  kind : c.kind ≠ .task
  waiting : c.print = .waiting → d.print ≠ .locked
  locked : c.print = .locked → d.print ≠ .locked

/-- The state between two steps. -/
structure Console.Inv (s : Console) : Prop where
  ok : ∀ c ∈ s.contexts, c.Ok
  above : s.contexts.Pairwise Context.Above
  lock : s.lock = true ↔ ∃ c ∈ s.contexts, c.print = .locked

section

variable {lock : Bool} {c : Context} {rest : List Context}

/-- The running context is changed. -/
theorem Console.Inv.replace (h : Console.Inv ⟨c :: rest, lock⟩) (c' : Context) (lock' : Bool)
    (hok : c'.Ok) (habove : ∀ d ∈ rest, c.Above d → c'.Above d)
    (hlock : lock' = true ↔ c'.print = .locked ∨ ∃ d ∈ rest, d.print = .locked) :
    Console.Inv ⟨c' :: rest, lock'⟩ := by
  obtain ⟨h1, h2⟩ := List.pairwise_cons.mp h.above
  refine ⟨fun d hd => ?_, List.pairwise_cons.mpr ⟨fun d hd => habove d hd (h1 d hd), h2⟩, ?_⟩
  · rcases List.mem_cons.mp hd with rfl | hd
    · exact hok
    · exact h.ok d (List.mem_cons_of_mem _ hd)
  · rw [hlock]
    simp

theorem Console.Inv.lock_iff (h : Console.Inv ⟨c :: rest, lock⟩) :
    lock = true ↔ c.print = .locked ∨ ∃ d ∈ rest, d.print = .locked := by
  have hlock := h.lock
  simpa using hlock

/-- A context calls `ColorPrintfk`. -/
theorem Console.Inv.print (h : Console.Inv ⟨c :: rest, lock⟩) (hp : c.print = .outside)
    (hapart : c.kind = .softirq → ∀ d ∈ rest, d.print ≠ .locked) :
    (ConsoleStep.print.run lock c rest).Inv := by
  have hc := h.ok c List.mem_cons_self
  have hlock := h.lock_iff
  rw [hp] at hlock
  refine h.replace c.colorPrintfk lock ⟨hc.irq, hc.softirq, ?_, ?_, ?_⟩
    (fun d hd ha => ⟨ha.kind, ?_, ?_⟩) ?_
  · unfold Context.colorPrintfk
    cases c.intr <;> simp
  · unfold Context.colorPrintfk
    cases c.intr <;> simp
  · unfold Context.colorPrintfk
    cases c.intr <;> simp
  · intro hw
    -- who waits has interrupts enabled, so that it is no handler
    have hi : c.intr = true := by
      by_contra hi
      simp [Context.colorPrintfk, hi] at hw
    cases hk : c.kind with
    | task => exact absurd hk ha.kind
    | irq => exact absurd hi (by simp [hc.irq hk])
    | softirq => exact hapart hk d hd
  · intro hl
    unfold Context.colorPrintfk at hl
    cases hi : c.intr <;> simp [hi] at hl
  · unfold Context.colorPrintfk
    cases hi : c.intr <;> simpa using hlock

/-- A context gets the lock. -/
theorem Console.Inv.acquire (h : Console.Inv ⟨c :: rest, lock⟩) (hp : c.print = .waiting)
    (hfree : lock = false) : (ConsoleStep.lock.run lock c rest).Inv := by
  have hc := h.ok c List.mem_cons_self
  have hlock := h.lock_iff
  rw [hfree] at hlock
  refine h.replace { c with print := .locked } true
    ⟨hc.irq, hc.softirq, (fun hw => nomatch hw), fun _ => hc.waiting hp, (fun hw => nomatch hw)⟩
    (fun d hd ha => ⟨ha.kind, (fun hw => nomatch hw), fun _ hd' => ?_⟩) (by simp)
  exact absurd (hlock.mpr (Or.inr ⟨d, hd, hd'⟩)) (by decide)

/-- A context leaves `ColorPrintfk`. -/
theorem Console.Inv.done (h : Console.Inv ⟨c :: rest, lock⟩)
    (hp : c.print = .locked ∨ c.print = .unlocked) :
    (ConsoleStep.done.run lock c rest).Inv := by
  have hc := h.ok c List.mem_cons_self
  have hlock := h.lock_iff
  refine h.replace { c with print := .outside } (if c.intr then false else lock)
    ⟨hc.irq, hc.softirq, (fun hw => nomatch hw), (fun hw => nomatch hw), (fun hw => nomatch hw)⟩
    (fun d hd ha => ⟨ha.kind, (fun hw => nomatch hw), (fun hw => nomatch hw)⟩) ?_
  rcases hp with hp | hp
  · -- nobody below holds the lock as well
    have hnone : ∀ d ∈ rest, d.print ≠ .locked :=
      fun d hd => ((List.pairwise_cons.mp h.above).1 d hd).locked hp
    simpa [hc.locked hp] using hnone
  · rw [hp] at hlock
    simpa [hc.unlocked hp] using hlock

/-- A task changes the flag. -/
theorem Console.Inv.setIntr (h : Console.Inv ⟨c :: rest, lock⟩) (hk : c.kind = .task)
    (hp : c.print = .outside) (b : Bool) : Console.Inv ⟨{ c with intr := b } :: rest, lock⟩ := by
  have hkind : ∀ k, k ≠ .task → c.kind ≠ k := fun k hne he => hne (he.symm.trans hk)
  have hprint : ∀ p, p ≠ .outside → c.print ≠ p := fun p hne he => hne (he.symm.trans hp)
  refine h.replace { c with intr := b } lock
    ⟨fun hw => absurd hw (hkind _ (by decide)), fun hw => absurd hw (hkind _ (by decide)),
      fun hw => absurd hw (hprint _ (by decide)), fun hw => absurd hw (hprint _ (by decide)),
      fun hw => absurd hw (hprint _ (by decide))⟩
    (fun d hd ha => ⟨ha.kind, ha.waiting, ha.locked⟩) h.lock_iff

/-- An interrupt comes. -/
theorem Console.Inv.interrupt (h : Console.Inv ⟨c :: rest, lock⟩) :
    (ConsoleStep.interrupt.run lock c rest).Inv := by
  refine ⟨fun d hd => ?_, List.pairwise_cons.mpr ⟨fun d _ => ?_, h.above⟩, ?_⟩
  · rcases List.mem_cons.mp hd with rfl | hd
    · exact ⟨fun _ => rfl, (fun hk => nomatch hk), (fun hw => nomatch hw), (fun hw => nomatch hw),
        fun _ => rfl⟩
    · exact h.ok d hd
  · exact ⟨by decide, (fun hw => nomatch hw), (fun hw => nomatch hw)⟩
  · have hlock := h.lock
    simpa [ConsoleStep.run] using hlock

/-- The handler goes on to `do_softirq`. -/
theorem Console.Inv.softirq (h : Console.Inv ⟨c :: rest, lock⟩) (hp : c.print = .outside) :
    (ConsoleStep.softirq.run lock c rest).Inv := by
  refine h.replace c.doSoftirq lock
    ⟨(fun hk => nomatch hk), fun _ => rfl, fun _ => rfl, fun _ => rfl, fun hw => ?_⟩
    (fun d hd ha => ⟨(fun hk => nomatch hk), ha.waiting, ha.locked⟩) h.lock_iff
  have hw : c.print = .unlocked := hw
  rw [hp] at hw
  exact nomatch hw

/-- A context returns. -/
theorem Console.Inv.ret (h : Console.Inv ⟨c :: rest, lock⟩) (hp : c.print = .outside) :
    Console.Inv ⟨rest, lock⟩ := by
  have hlock := h.lock_iff
  rw [hp] at hlock
  exact ⟨fun d hd => h.ok d (List.mem_cons_of_mem _ hd), (List.pairwise_cons.mp h.above).2,
    by simpa using hlock⟩

end

theorem Console.Inv.not_deadlock {s : Console} (h : s.Inv) : ¬ s.Deadlock :=
  fun hd => hd (h.above.imp (fun ha => ha.waiting))

/-- **One step.** -/
theorem Console.Inv.step {lock : Bool} {c : Context} {rest : List Context}
    (h : Console.Inv ⟨c :: rest, lock⟩) (a : ConsoleStep) (ha : a.Allowed lock c)
    (hok : a.Apart c rest) : (a.run lock c rest).Inv := by
  cases a with
  | print => exact h.print ha (hok rfl)
  | lock => exact h.acquire ha.1 ha.2
  | done => exact h.done ha
  | cli => exact h.setIntr ha.1 ha.2 false
  | sti => exact h.setIntr ha.1 ha.2 true
  | interrupt => exact h.interrupt
  | softirq => exact h.softirq ha.2
  | ret => exact h.ret ha.2

theorem ConsoleReachable.inv {s : Console} (h : ConsoleReachable ConsoleStep.Apart s) : s.Inv := by
  induction h with
  | init =>
      refine ⟨?_, List.pairwise_singleton _ _, ?_⟩
      · intro c hc
        obtain rfl := List.mem_singleton.mp hc
        exact ⟨(fun hk => nomatch hk), (fun hk => nomatch hk), fun _ => rfl, fun _ => rfl,
          (fun hw => nomatch hw)⟩
      · simp [consoleInit]
  | step a _ ha hok ih => exact ih.step a ha hok

/-- A softirq action that prints on top of a context with the lock waits for it. -/
theorem Console.Inv.deadlock_of_not_apart {lock : Bool} {c : Context} {rest : List Context}
    (h : Console.Inv ⟨c :: rest, lock⟩) {a : ConsoleStep} (hn : ¬ a.Apart c rest) :
    (a.run lock c rest).Deadlock := by
  unfold ConsoleStep.Apart at hn
  push Not at hn
  obtain ⟨rfl, hk, d, hd, hl⟩ := hn
  intro hp
  have hi := (h.ok c List.mem_cons_self).softirq hk
  have hw : c.colorPrintfk.print = .waiting := if_pos hi
  exact (List.pairwise_cons.mp hp).1 d hd hw hl

/-- **The console does not deadlock**, in every run in which no softirq action prints on top of a
context that holds the lock; and the first step that does not keep to that is a deadlock. -/
theorem console_no_deadlock {s : Console} (h : ConsoleReachable ConsoleStep.Apart s) :
    ¬ s.Deadlock ∧ ∀ lock c rest (a : ConsoleStep), s = ⟨c :: rest, lock⟩ → a.Allowed lock c →
      (¬ (a.run lock c rest).Deadlock ↔ a.Apart c rest) := by
  refine ⟨h.inv.not_deadlock, ?_⟩
  rintro lock c rest a rfl ha
  constructor
  · intro hnd
    by_contra hn
    exact hnd (h.inv.deadlock_of_not_apart hn)
  · intro hok
    exact (h.inv.step a ha hok).not_deadlock

section

variable {ok : Context → List Context → ConsoleStep → Prop}

/-- A task prints, and holds the lock. -/
theorem printing_reachable (h1 : ∀ c rest, ok c rest .lock) (h2 : ∀ c, ok c [] .print) :
    ConsoleReachable ok ⟨[⟨.task, true, .locked⟩], true⟩ :=
  ((ConsoleReachable.init).step .print rfl (h2 _)).step .lock ⟨rfl, rfl⟩ (h1 _ _)

end

/-- The handler of an interrupt prints on top of the task, without the lock. -/
theorem console_no_deadlock_example :
    ¬ Console.Deadlock ⟨[⟨.irq, false, .unlocked⟩, ⟨.task, true, .locked⟩], true⟩ := by
  have h := @printing_reachable ConsoleStep.Apart (fun _ _ hp => nomatch hp)
    (fun _ _ _ _ hd => absurd hd List.not_mem_nil)
  have h' : ConsoleReachable ConsoleStep.Apart
      ⟨[⟨.irq, false, .unlocked⟩, ⟨.task, true, .locked⟩], true⟩ :=
    (h.step .interrupt rfl (fun hp => nomatch hp)).step .print rfl (fun _ hk => nomatch hk)
  exact (console_no_deadlock h').1

/-- A timer is due in an interrupt that comes while the task prints, and its function prints. -/
theorem console_deadlock :
    ¬ ∀ s, ConsoleReachable (fun _ _ _ => True) s → ¬ s.Deadlock := by
  intro hall
  have h := @printing_reachable (fun _ _ _ => True) (fun _ _ => trivial) (fun _ => trivial)
  have h' : ConsoleReachable (fun _ _ _ => True)
      ⟨[⟨.softirq, true, .waiting⟩, ⟨.task, true, .locked⟩], true⟩ :=
    ((h.step .interrupt rfl trivial).step .softirq ⟨rfl, rfl⟩ trivial).step .print rfl trivial
  refine hall _ h' (fun hp => ?_)
  exact (List.pairwise_cons.mp hp).1 _ List.mem_cons_self rfl rfl

end Talios
