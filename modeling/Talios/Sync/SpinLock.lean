import Mathlib.Data.Fintype.Basic
import Mathlib.Data.Fintype.Fin
import Mathlib.Tactic

set_option autoImplicit false

/-! # Spin locks

`__LOCK` and `__UNLOCK` of `spin_lock.h`, instruction by instruction, on one lock word and any
number of processors; memory is sequentially consistent. A processor that has left `__UNLOCK`
starts over with `__LOCK`.

The increment and the compare that decides who owns the lock are two accesses. `spinLock_exclusive`
and `spinLock_not_orphaned` say which increments must not happen for the lock to work.
-/

namespace Talios

/-! ## The instructions -/

/-- The instruction a processor executes next; `movl` is that of `__UNLOCK`, and a processor
that stands there holds the lock. -/
inductive LockPc
  | incl | cmpl | je | pause | spinCmpl | jae | jmp | movl
deriving DecidableEq

/-- A processor: its next instruction, and the zero and carry flags. -/
structure LockCpu where
  pc : LockPc
  zf : Bool
  cf : Bool
deriving DecidableEq

/-- The lock word and `n` processors. -/
structure LockState (n : Nat) where
  lock : BitVec 32
  cpu : Fin n → LockCpu

/-- `spin_lock_init`, every processor before `__LOCK`. -/
def lockInit (n : Nat) : LockState n := ⟨0, fun _ => ⟨.incl, false, false⟩⟩

section

variable {n : Nat}

/-- Processor `c` is changed. -/
def LockState.setCpu (s : LockState n) (c : Fin n) (p : LockCpu) : LockState n :=
  { s with cpu := Function.update s.cpu c p }

/-- Processor `c` executes one instruction. -/
def LockState.step (s : LockState n) (c : Fin n) : LockState n :=
  let p := s.cpu c
  match p.pc with
  -- `incl` and `cmpl` are two accesses: others may come between them
  | .incl => { s with lock := s.lock + 1 }.setCpu c { p with pc := .cmpl, zf := s.lock + 1 == 0 }
  | .cmpl => s.setCpu c ⟨.je, s.lock == 1, decide (s.lock < 1)⟩
  | .je => s.setCpu c { p with pc := if p.zf then .movl else .pause }
  | .pause => s.setCpu c { p with pc := .spinCmpl }
  | .spinCmpl => s.setCpu c ⟨.jae, s.lock == 1, decide (s.lock < 1)⟩
  -- back to the increment once the word is seen as 0
  | .jae => s.setCpu c { p with pc := if p.cf then .jmp else .pause }
  | .jmp => s.setCpu c { p with pc := .incl }
  | .movl => { s with lock := 0 }.setCpu c { p with pc := .incl }

/-- The processors of a list execute one instruction each, in this order. -/
def LockState.run (s : LockState n) (l : List (Fin n)) : LockState n := l.foldl LockState.step s

/-- The states of the runs whose steps all meet `ok`. -/
inductive LockReachable (ok : LockState n → Fin n → Prop) : LockState n → Prop
  | init : LockReachable ok (lockInit n)
  | step {s : LockState n} (h : LockReachable ok s) (c : Fin n) (hok : ok s c) :
      LockReachable ok (s.step c)

/-! ## What is wanted -/

/-- Past `__LOCK` and before `__UNLOCK`. -/
def LockState.Holds (s : LockState n) (c : Fin n) : Prop := (s.cpu c).pc = .movl

def LockState.Exclusive (s : LockState n) : Prop := ∀ c d, s.Holds c → s.Holds d → c = d

/-- Between the increment and the test, which are `cmpl` and `je`. -/
def LockState.Tests (s : LockState n) (c : Fin n) : Prop :=
  (s.cpu c).pc = .cmpl ∨ (s.cpu c).pc = .je

/-- The lock is taken, and by no one. -/
def LockState.Orphaned (s : LockState n) : Prop :=
  s.lock ≠ 0 ∧ ∀ c, ¬ s.Holds c ∧ ¬ s.Tests c

/-! ## One instruction -/

/-- The lock is `c`'s: it holds the lock, or its compare has found 1. -/
def LockState.Granted (s : LockState n) (c : Fin n) : Prop :=
  s.Holds c ∨ (s.cpu c).pc = .je ∧ (s.cpu c).zf = true

/-- The other processors do not notice. -/
theorem LockState.step_cpu_ne (s : LockState n) {c d : Fin n} (h : d ≠ c) :
    (s.step c).cpu d = s.cpu d := by
  unfold step
  dsimp only
  split <;> exact Function.update_of_ne h ..

/-- **What an instruction does** to the lock word and to its processor's claim on the lock. -/
theorem LockState.step_cases (s : LockState n) (c : Fin n) :
    ((s.cpu c).pc = .incl ∧ (s.step c).lock = s.lock + 1 ∧ ((s.step c).cpu c).pc = .cmpl) ∨
    ((s.cpu c).pc = .cmpl ∧ (s.step c).lock = s.lock ∧ ((s.step c).cpu c).pc = .je ∧
      ((s.step c).cpu c).zf = (s.lock == 1)) ∨
    ((s.cpu c).pc = .je ∧ (s.step c).lock = s.lock ∧
      ((s.step c).cpu c).pc = if (s.cpu c).zf then .movl else .pause) ∨
    (s.Holds c ∧ (s.step c).lock = 0 ∧ ((s.step c).cpu c).pc = .incl) ∨
    (¬ s.Granted c ∧ ¬ s.Tests c ∧ (s.step c).lock = s.lock ∧ ¬ (s.step c).Granted c ∧
      ¬ (s.step c).Tests c) := by
  unfold Granted Tests Holds step
  dsimp only
  cases hpc : (s.cpu c).pc <;> simp [setCpu]
  split <;> simp

theorem LockState.granted_ne (s : LockState n) {c d : Fin n} (h : d ≠ c) :
    (s.step c).Granted d ↔ s.Granted d := by
  unfold Granted Holds
  rw [s.step_cpu_ne h]

/-- Granted the lock, or about to compare. -/
def LockState.Wants (s : LockState n) (c : Fin n) : Prop := s.Granted c ∨ (s.cpu c).pc = .cmpl

theorem LockState.wants_ne (s : LockState n) {c d : Fin n} (h : d ≠ c) :
    (s.step c).Wants d ↔ s.Wants d := by
  unfold Wants
  rw [s.granted_ne h, s.step_cpu_ne h]

theorem LockState.not_granted {s : LockState n} {c : Fin n} (h1 : (s.cpu c).pc ≠ .movl)
    (h2 : (s.cpu c).pc ≠ .je) : ¬ s.Granted c := by
  rintro (h | ⟨h, -⟩)
  exacts [h1 h, h2 h]

/-! ## Mutual exclusion -/

/-- No increment that wraps, and none of a free lock while a processor stands between its own
increment and its compare. -/
def LockState.Timely (s : LockState n) (c : Fin n) : Prop :=
  (s.cpu c).pc = .incl →
    s.lock ≠ 0xffffffff ∧ (s.lock = 0 → ∀ d, (s.cpu d).pc ≠ .cmpl)

/-- The invariant: one processor at most is granted the lock, none while the word is 0; while it
is 1, the compare of no other can find it. -/
structure LockState.Safe (s : LockState n) : Prop where
  unique : ∀ c d, s.Granted c → s.Granted d → c = d
  zero : s.lock = 0 → ∀ c, ¬ s.Granted c
  one : s.lock = 1 → ∀ c d, s.Wants c → s.Wants d → c = d

theorem lockInit_safe : (lockInit n).Safe := by
  have h : ∀ c, ¬ (lockInit n).Granted c :=
    fun c => LockState.not_granted (by simp [lockInit]) (by simp [lockInit])
  exact ⟨fun c _ hc => absurd hc (h c), fun _ => h, fun h1 => absurd h1 (by simp [lockInit])⟩

theorem add_one_eq_one {w : BitVec 32} : w + 1 = 1 ↔ w = 0 := by
  constructor <;> intro h <;> bv_omega

theorem add_one_eq_zero {w : BitVec 32} : w + 1 = 0 ↔ w = 0xffffffff := by
  constructor <;> intro h <;> bv_omega

/-- A processor that gets no new claim on the lock leaves the claims as they are. -/
theorem LockState.granted_of_step {s : LockState n} {c : Fin n}
    (hc : (s.step c).Granted c → s.Granted c) (d : Fin n) (hd : (s.step c).Granted d) :
    s.Granted d := by
  by_cases h : d = c
  · exact h ▸ hc (h ▸ hd)
  · exact (s.granted_ne h).mp hd

theorem LockState.wants_of_step {s : LockState n} {c : Fin n}
    (hc : (s.step c).Wants c → s.Wants c) (d : Fin n) (hd : (s.step c).Wants d) : s.Wants d := by
  by_cases h : d = c
  · exact h ▸ hc (h ▸ hd)
  · exact (s.wants_ne h).mp hd

theorem LockState.Safe.of_unchanged {s : LockState n} {c : Fin n} (h : s.Safe)
    (hl : (s.step c).lock = s.lock) (hg : (s.step c).Granted c → s.Granted c)
    (hw : (s.step c).Wants c → s.Wants c) : (s.step c).Safe :=
  ⟨fun a b ha hb => h.unique a b (granted_of_step hg a ha) (granted_of_step hg b hb),
    fun h0 a ha => h.zero (hl ▸ h0) a (granted_of_step hg a ha),
    fun h1 a b ha hb => h.one (hl ▸ h1) a b (wants_of_step hw a ha) (wants_of_step hw b hb)⟩

theorem LockState.Safe.step {s : LockState n} (h : s.Safe) {c : Fin n} (ht : s.Timely c) :
    (s.step c).Safe := by
  rcases s.step_cases c with ⟨hpc, hl, hpc'⟩ | ⟨hpc, hl, hpc', hzf⟩ | ⟨hpc, hl, hpc'⟩ |
    ⟨hh, hl, hpc'⟩ | ⟨-, -, hl, hg', ht'⟩
  · -- the increment
    obtain ⟨hwrap, hfree⟩ := ht hpc
    have hgc : ¬ (s.step c).Granted c := not_granted (by simp [hpc']) (by simp [hpc'])
    have hg := granted_of_step (fun hx => absurd hx hgc)
    refine ⟨fun a b ha hb => h.unique a b (hg a ha) (hg b hb), fun h0 => ?_, fun h1 a b ha hb => ?_⟩
    · rw [hl, add_one_eq_zero] at h0
      exact absurd h0 hwrap
    · -- the word was zero, so only `c` wants the lock
      rw [hl, add_one_eq_one] at h1
      have honly : ∀ d, (s.step c).Wants d → d = c := by
        intro d hd
        by_contra hdc
        rcases (s.wants_ne hdc).mp hd with hd | hd
        · exact h.zero h1 d hd
        · exact hfree h1 d hd
      rw [honly a ha, honly b hb]
  · -- the compare
    have hc : s.Wants c := Or.inr hpc
    by_cases h1 : s.lock = 1
    · have honly : ∀ d, (s.step c).Wants d → d = c := by
        intro d hd
        by_contra hdc
        exact hdc (h.one h1 d c ((s.wants_ne hdc).mp hd) hc)
      refine ⟨fun a b ha hb => ?_, fun h0 => ?_, fun _ a b ha hb => ?_⟩
      · rw [honly a (Or.inl ha), honly b (Or.inl hb)]
      · rw [hl, h1] at h0
        exact absurd h0 (by decide)
      · rw [honly a ha, honly b hb]
    · have hgc : ¬ (s.step c).Granted c := by
        rintro (hx | ⟨-, hx⟩)
        · exact absurd (hpc'.symm.trans hx) (by simp)
        · rw [hzf] at hx
          exact h1 (by simpa using hx)
      exact h.of_unchanged hl (fun hx => absurd hx hgc) (fun _ => hc)
  · -- the jump after it
    have hgc : (s.step c).Granted c → s.Granted c := by
      rintro (hx | ⟨hx, -⟩)
      · by_cases hz : (s.cpu c).zf = true
        · exact Or.inr ⟨hpc, hz⟩
        · rw [Holds, hpc', if_neg hz] at hx
          exact absurd hx (by simp)
      · rw [hpc'] at hx
        split at hx <;> exact absurd hx (by simp)
    have hwc : (s.step c).Wants c → s.Wants c := by
      rintro (hx | hx)
      · exact Or.inl (hgc hx)
      · rw [hpc'] at hx
        split at hx <;> exact absurd hx (by simp)
    exact h.of_unchanged hl hgc hwc
  · -- the store of `__UNLOCK`
    have hnone : ∀ d, ¬ (s.step c).Granted d := by
      intro d hd
      by_cases hdc : d = c
      · exact not_granted (by simp [hpc']) (by simp [hpc']) (hdc ▸ hd)
      · exact hdc (h.unique d c ((s.granted_ne hdc).mp hd) (Or.inl hh))
    exact ⟨fun a _ ha => absurd ha (hnone a), fun _ => hnone,
      fun h1 => absurd (hl.symm.trans h1) (by decide)⟩
  · -- the spin loop
    refine h.of_unchanged hl (fun hx => absurd hx hg') ?_
    rintro (hx | hx)
    · exact absurd hx hg'
    · exact absurd (Or.inl hx) ht'

theorem LockReachable.safe {s : LockState n} (h : LockReachable LockState.Timely s) : s.Safe := by
  induction h with
  | init => exact lockInit_safe
  | step _ c hok ih => exact ih.step hok

/-- **Mutual exclusion** in every run whose increments are timely. In any state, an increment
that is not, and does not wrap, is four instructions away from two processors that hold the
lock. -/
theorem spinLock_exclusive :
    (∀ s : LockState n, LockReachable LockState.Timely s → s.Exclusive) ∧
    ∀ (s : LockState n) (c : Fin n), ¬ s.Timely c → s.lock ≠ 0xffffffff →
      ∃ d, ¬ (s.run [c, c, d, c, d]).Exclusive := by
  refine ⟨fun s h c d hc hd => h.safe.unique c d (Or.inl hc) (Or.inl hd), fun s c ht hw => ?_⟩
  unfold LockState.Timely at ht
  push Not at ht
  obtain ⟨hpc, himp⟩ := ht
  obtain ⟨h0, d, hd⟩ := himp hw
  have hdc : d ≠ c := by
    rintro rfl
    rw [hpc] at hd
    exact absurd hd (by simp)
  refine ⟨d, fun hex => hdc (hex d c ?_ ?_)⟩
  · simp [LockState.run, LockState.step, LockState.setCpu, LockState.Holds, hpc, h0, hd, hdc,
      Ne.symm hdc]
  · simp [LockState.run, LockState.step, LockState.setCpu, LockState.Holds, hpc, h0, hd, hdc,
      Ne.symm hdc]

instance (s : LockState n) (c : Fin n) : Decidable (s.Timely c) :=
  inferInstanceAs (Decidable (_ → _ ∧ (_ → ∀ _, _)))

theorem LockReachable.run {s : LockState n} (h : LockReachable (fun _ _ => True) s)
    (l : List (Fin n)) : LockReachable (fun _ _ => True) (s.run l) := by
  induction l generalizing s with
  | nil => exact h
  | cons c l ih => exact ih (h.step c trivial)

/-- One of two processors takes the lock. -/
theorem spinLock_exclusive_two :
    LockReachable LockState.Timely ((((lockInit 2).step 0).step 0).step 0) ∧
      ((((lockInit 2).step 0).step 0).step 0).Holds 0 ∧
      ((((lockInit 2).step 0).step 0).step 0).Exclusive := by
  have h : LockReachable LockState.Timely ((((lockInit 2).step 0).step 0).step 0) :=
    ((LockReachable.init.step 0 (by decide)).step 0 (by decide)).step 0 (by decide)
  exact ⟨h, by unfold LockState.Holds; decide, spinLock_exclusive.1 _ h⟩

/-- Processor 1 increments while processor 0 holds the lock; processor 0 unlocks and increments
again; both compares find 1. -/
theorem spinLock_not_exclusive :
    ¬ ∀ (n : Nat) (s : LockState n), LockReachable (fun _ _ => True) s → s.Exclusive := by
  intro hall
  have h := hall 2 _ (LockReachable.init.run [0, 0, 0, 1, 0, 0, 1, 0, 1, 0])
  exact absurd (h 0 1 (by unfold LockState.Holds; decide) (by unfold LockState.Holds; decide))
    (by decide)

/-! ## Orphaned locks -/

/-- No increment of a word that is not 0 while the lock is granted to no one. -/
def LockState.Answered (s : LockState n) (c : Fin n) : Prop :=
  (s.cpu c).pc = .incl → s.lock = 0 ∨ ∃ d, s.Granted d

/-- The invariant: someone will set the word to 0, or get the lock. -/
def LockState.Alive (s : LockState n) : Prop :=
  s.lock = 0 ∨ (∃ d, s.Granted d) ∨ s.lock = 1 ∧ ∃ d, (s.cpu d).pc = .cmpl

theorem LockState.Alive.step {s : LockState n} (h : s.Alive) {c : Fin n} (ha : s.Answered c) :
    (s.step c).Alive := by
  rcases s.step_cases c with ⟨hpc, hl, hpc'⟩ | ⟨hpc, hl, hpc', hzf⟩ | ⟨hpc, hl, hpc'⟩ |
    ⟨-, hl, -⟩ | ⟨hg, htest, hl, -, -⟩
  · -- the increment: of 0, or someone else has the lock
    rcases ha hpc with h0 | ⟨d, hd⟩
    · exact Or.inr (Or.inr ⟨by rw [hl, h0]; rfl, c, hpc'⟩)
    · have hdc : d ≠ c := by
        rintro rfl
        exact not_granted (by simp [hpc]) (by simp [hpc]) hd
      exact Or.inr (Or.inl ⟨d, (s.granted_ne hdc).mpr hd⟩)
  · -- the compare
    by_cases h1 : s.lock = 1
    · exact Or.inr (Or.inl ⟨c, Or.inr ⟨hpc', by rw [hzf, h1]; rfl⟩⟩)
    · rcases h with h0 | ⟨d, hd⟩ | ⟨h1', -⟩
      · exact Or.inl (hl.trans h0)
      · have hdc : d ≠ c := by
          rintro rfl
          exact not_granted (by simp [hpc]) (by simp [hpc]) hd
        exact Or.inr (Or.inl ⟨d, (s.granted_ne hdc).mpr hd⟩)
      · exact absurd h1' h1
  · -- the jump after it
    rcases h with h0 | ⟨d, hd⟩ | ⟨h1, d, hd⟩
    · exact Or.inl (hl.trans h0)
    · by_cases hdc : d = c
      · subst hdc
        refine Or.inr (Or.inl ⟨d, Or.inl ?_⟩)
        rcases hd with hx | ⟨-, hx⟩
        · rw [Holds, hpc] at hx
          exact absurd hx (by simp)
        · rw [Holds, hpc', if_pos hx]
      · exact Or.inr (Or.inl ⟨d, (s.granted_ne hdc).mpr hd⟩)
    · have hdc : d ≠ c := by
        rintro rfl
        rw [hpc] at hd
        exact absurd hd (by simp)
      exact Or.inr (Or.inr ⟨hl.trans h1, d, by rw [s.step_cpu_ne hdc]; exact hd⟩)
  · exact Or.inl hl
  · -- the spin loop
    rcases h with h0 | ⟨d, hd⟩ | ⟨h1, d, hd⟩
    · exact Or.inl (hl.trans h0)
    · have hdc : d ≠ c := by
        rintro rfl
        exact hg hd
      exact Or.inr (Or.inl ⟨d, (s.granted_ne hdc).mpr hd⟩)
    · have hdc : d ≠ c := by
        rintro rfl
        exact htest (Or.inl hd)
      exact Or.inr (Or.inr ⟨hl.trans h1, d, by rw [s.step_cpu_ne hdc]; exact hd⟩)

theorem LockReachable.alive {s : LockState n} (h : LockReachable LockState.Answered s) :
    s.Alive := by
  induction h with
  | init => exact Or.inl rfl
  | step _ c hok ih => exact ih.step hok

theorem LockState.Alive.not_orphaned {s : LockState n} (h : s.Alive) : ¬ s.Orphaned := by
  rintro ⟨h0, hno⟩
  rcases h with h | ⟨d, hd | ⟨hd, -⟩⟩ | ⟨-, d, hd⟩
  · exact h0 h
  · exact (hno d).1 hd
  · exact (hno d).2 (Or.inr hd)
  · exact (hno d).2 (Or.inl hd)

/-- The word is above 1 and the lock is granted to no one: every compare will fail. -/
structure LockState.Lost (s : LockState n) : Prop where
  zero : s.lock ≠ 0
  one : s.lock ≠ 1
  granted : ∀ d, ¬ s.Granted d

theorem LockState.tests_ne (s : LockState n) {c d : Fin n} (h : d ≠ c) :
    (s.step c).Tests d ↔ s.Tests d := by
  unfold Tests
  rw [s.step_cpu_ne h]

theorem LockState.Lost.je {s : LockState n} (h : s.Lost) {c : Fin n} (hpc : (s.cpu c).pc = .je) :
    (s.step c).Lost ∧ ((s.step c).cpu c).pc = .pause := by
  have hzf : ¬ (s.cpu c).zf = true := fun hz => h.granted c (Or.inr ⟨hpc, hz⟩)
  have hl : (s.step c).lock = s.lock := by simp [step, hpc, setCpu]
  have hpc' : ((s.step c).cpu c).pc = .pause := by simp [step, hpc, setCpu, hzf]
  refine ⟨⟨by rw [hl]; exact h.zero, by rw [hl]; exact h.one, fun d hd => ?_⟩, hpc'⟩
  refine h.granted d (granted_of_step (fun hx => absurd hx ?_) d hd)
  exact not_granted (by simp [hpc']) (by simp [hpc'])

theorem LockState.Lost.cmpl {s : LockState n} (h : s.Lost) {c : Fin n}
    (hpc : (s.cpu c).pc = .cmpl) : (s.step c).Lost ∧ ((s.step c).cpu c).pc = .je := by
  have hl : (s.step c).lock = s.lock := by simp [step, hpc, setCpu]
  have hpc' : ((s.step c).cpu c).pc = .je := by simp [step, hpc, setCpu]
  have hzf : ((s.step c).cpu c).zf = false := by simpa [step, hpc, setCpu] using h.one
  refine ⟨⟨by rw [hl]; exact h.zero, by rw [hl]; exact h.one, fun d hd => ?_⟩, hpc'⟩
  refine h.granted d (granted_of_step (fun hx => absurd hx ?_) d hd)
  rintro (hx | ⟨-, hx⟩)
  · exact absurd (hpc'.symm.trans hx) (by simp)
  · exact absurd (hzf.symm.trans hx) (by simp)

/-- The test of one processor fails. -/
theorem LockState.Lost.test {s : LockState n} (h : s.Lost) (c : Fin n) :
    ∃ r : List (Fin n), (s.run r).Lost ∧ ¬ (s.run r).Tests c ∧
      ∀ d, ¬ s.Tests d → ¬ (s.run r).Tests d := by
  have hjump : ∀ {t : LockState n}, t.Lost → (t.cpu c).pc = .je →
      (t.step c).Lost ∧ ¬ (t.step c).Tests c := by
    intro t ht hpc
    obtain ⟨h1, h2⟩ := ht.je hpc
    exact ⟨h1, by rintro (hx | hx) <;> exact absurd (h2.symm.trans hx) (by simp)⟩
  by_cases hc : s.Tests c
  · have hne : ∀ d, ¬ s.Tests d → d ≠ c := fun d hd hdc => hd (hdc ▸ hc)
    rcases hc with hpc | hpc
    · obtain ⟨h1, hpc'⟩ := h.cmpl hpc
      obtain ⟨h2, h3⟩ := hjump h1 hpc'
      refine ⟨[c, c], h2, h3, fun d hd => ?_⟩
      show ¬ ((s.step c).step c).Tests d
      rw [tests_ne _ (hne d hd), tests_ne _ (hne d hd)]
      exact hd
    · obtain ⟨h2, h3⟩ := hjump h hpc
      refine ⟨[c], h2, h3, fun d hd => ?_⟩
      show ¬ (s.step c).Tests d
      rw [tests_ne _ (hne d hd)]
      exact hd
  · exact ⟨[], h, hc, fun _ hd => hd⟩

/-- The tests of all processors fail. -/
theorem LockState.Lost.orphaned {s : LockState n} (h : s.Lost) :
    ∃ r : List (Fin n), (s.run r).Orphaned := by
  have hall : ∀ l : List (Fin n), ∃ r : List (Fin n), (s.run r).Lost ∧
      ∀ d ∈ l, ¬ (s.run r).Tests d := by
    intro l
    induction l with
    | nil => exact ⟨[], h, by simp⟩
    | cons c l ih =>
        obtain ⟨r, h1, h2⟩ := ih
        obtain ⟨r', h3, h4, h5⟩ := h1.test c
        have hrun : s.run (r ++ r') = (s.run r).run r' := List.foldl_append
        refine ⟨r ++ r', by rw [hrun]; exact h3, fun d hd => ?_⟩
        rw [hrun]
        rcases List.mem_cons.mp hd with rfl | hd
        · exact h4
        · exact h5 d (h2 d hd)
  obtain ⟨r, h1, h2⟩ := hall (List.finRange n)
  exact ⟨r, h1.zero, fun d => ⟨fun hd => h1.granted d (Or.inl hd), h2 d (List.mem_finRange d)⟩⟩

/-- **The lock is never orphaned** in a run whose increments are answered. In any state, an
increment that is not, and does not wrap, leads to an orphaned lock. -/
theorem spinLock_not_orphaned :
    (∀ s : LockState n, LockReachable LockState.Answered s → ¬ s.Orphaned) ∧
    ∀ (s : LockState n) (c : Fin n), ¬ s.Answered c → s.lock ≠ 0xffffffff →
      ∃ r : List (Fin n), ((s.step c).run r).Orphaned := by
  refine ⟨fun s h => h.alive.not_orphaned, fun s c ha hw => LockState.Lost.orphaned ?_⟩
  unfold LockState.Answered at ha
  push Not at ha
  obtain ⟨hpc, h0, hnone⟩ := ha
  have hl : (s.step c).lock = s.lock + 1 := by simp [LockState.step, hpc, LockState.setCpu]
  have hpc' : ((s.step c).cpu c).pc = .cmpl := by simp [LockState.step, hpc, LockState.setCpu]
  refine ⟨?_, ?_, fun d hd => hnone d (LockState.granted_of_step (fun hx => absurd hx ?_) d hd)⟩
  · rw [hl, Ne, add_one_eq_zero]
    exact hw
  · rw [hl, Ne, add_one_eq_one]
    exact h0
  · exact LockState.not_granted (by simp [hpc']) (by simp [hpc'])

/-- One of two processors takes the lock, the other has not started. -/
theorem spinLock_not_orphaned_two :
    LockReachable LockState.Answered ((((lockInit 2).step 0).step 0).step 0) ∧
      ¬ ((((lockInit 2).step 0).step 0).step 0).Orphaned := by
  have h : LockReachable LockState.Answered ((((lockInit 2).step 0).step 0).step 0) :=
    ((LockReachable.init.step 0 (fun _ => Or.inl (by decide))).step 0
      (fun h => absurd h (by decide))).step 0 (fun h => absurd h (by decide))
  exact ⟨h, spinLock_not_orphaned.1 _ h⟩

/-- Two processors increment, both compares find 2. -/
theorem spinLock_orphaned :
    ¬ ∀ (n : Nat) (s : LockState n), LockReachable (fun _ _ => True) s → ¬ s.Orphaned := by
  intro hall
  refine hall 2 _ (LockReachable.init.run [0, 1, 0, 1, 0, 1]) ⟨by decide, ?_⟩
  unfold LockState.Holds LockState.Tests
  decide

end

end Talios
