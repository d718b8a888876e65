import Talios.Lib.NextRing
import Talios.Task.Fork

set_option autoImplicit false

/-! # `get_task`

`do_fork` puts a new task into the ring of tasks behind the one that forks, with the next number.
`get_task` goes round the ring from the idle task on, and stops at the task whose successor is the idle
task, before it has looked at that one's number. So it finds every task but the last of the ring
(`getTask_iff`).
-/

namespace Talios

open NextRing

/-! ## What `do_fork` does to the ring -/

/-- The pointers and the counter are the same. -/
def ForkSys.SameRing (s s' : ForkSys) : Prop := s'.next = s.next ∧ s'.globalPid = s.globalPid

section

variable {env : ForkEnv} {s s' : ForkSys} {c c' : Copying}

theorem ForkSys.SameRing.trans {s'' : ForkSys} (h : s.SameRing s') (h' : s'.SameRing s'') :
    s.SameRing s'' := ⟨h'.1.trans h.1, h'.2.trans h.2⟩

theorem copyFromParent_ring {v page : Nat} (h : copyFromParent env s v page = some s') :
    s.SameRing s' := by
  unfold copyFromParent at h
  split at h
  · obtain rfl := Option.some.inj h
    exact ⟨rfl, rfl⟩
  · split at h
    · obtain rfl := Option.some.inj h
      exact ⟨rfl, rfl⟩
    · exact nomatch h

theorem copyUserPage_ring {v : Nat} (h : copyUserPage env c v = .done c') : c.sys.SameRing c'.sys := by
  unfold copyUserPage at h
  split at h
  · exact nomatch h
  · exact nomatch h
  · split at h
    · exact nomatch h
    · dsimp only at h
      split at h
      · exact nomatch h
      · rename_i s₁ hs₁
        obtain rfl := ForkStage.done.inj h
        have hring := copyFromParent_ring hs₁
        exact ⟨hring.1, hring.2⟩

theorem copyUserLoop_ring : ∀ (l : List Nat) (c c' : Copying), copyUserLoop env l c = .done c' →
    c.sys.SameRing c'.sys
  | [], c, c', h => by
      obtain rfl := ForkStage.done.inj h
      exact ⟨rfl, rfl⟩
  | v :: l, c, c', h => by
      rw [copyUserLoop] at h
      split at h
      · rename_i c₁ hc₁
        exact (copyUserPage_ring hc₁).trans (copyUserLoop_ring l c₁ c' h)
      · rename_i hno
        exact absurd h (hno c')

theorem copyRanges_ring (h : copyRanges env c = .done c') : c.sys.SameRing c'.sys := by
  unfold copyRanges copyUserRange at h
  dsimp only at h
  split at h
  · rename_i c₁ hc₁
    have h₁ := copyUserLoop_ring _ _ _ hc₁
    split at h
    · exact h₁.trans (copyUserLoop_ring _ _ _ h)
    · obtain rfl := ForkStage.done.inj h
      exact h₁
  · rename_i hno
    exact absurd h (hno c')

theorem copyPages_ring (h : copyPages env c = .done c') : c.sys.SameRing c'.sys := by
  unfold copyPages at h
  split at h
  · exact copyRanges_ring h
  · exact nomatch h
  · exact nomatch h
  · exact nomatch h
  · obtain rfl := ForkStage.done.inj h
    exact ⟨rfl, rfl⟩

theorem copyMm_ring {mm : Process} (h : copyMm env s = .done (s', mm)) : s.SameRing s' := by
  unfold copyMm at h
  split at h
  · exact nomatch h
  · dsimp only at h
    generalize vmaCloneAll blocksEnv _ _ _ = cloned at h
    obtain ⟨mm', ⟨heap, blocks⟩, err⟩ := cloned
    dsimp only at h
    split at h
    · exact nomatch h
    · split at h
      · exact nomatch h
      · split at h
        · exact nomatch h
        · exact nomatch h
        · exact nomatch h
        · rename_i hc
          obtain ⟨rfl, -⟩ := Prod.mk.inj (ForkStage.done.inj h)
          have hring := copyPages_ring hc
          exact ⟨hring.1, hring.2⟩

/-- **A `do_fork` that succeeds**: the child is the block that `kmalloc` has returned, with the number
of the counter, put in behind the parent. -/
theorem doFork_inRing {current : Nat} {cloneVm cloneFs : Bool} {child : ForkChild}
    (h : doFork current cloneVm cloneFs env s = some (.forked s' child)) :
    env.taskBlock = some child.task ∧ child.pid = s.globalPid ∧
      s'.next = putIn s.next current child.task ∧ s'.globalPid = s.globalPid + 1 := by
  unfold doFork at h
  cases htask : env.taskBlock with
  | none =>
      rw [htask] at h
      exact nomatch h
  | some tsk =>
      have key : ∀ (t : ForkSys) (ch : ForkChild), (s.linkChild current tsk).SameRing t →
          ch.task = tsk → ch.pid = s.globalPid →
          forkFiles env cloneFs t ch = some (.forked s' child) →
          some tsk = some child.task ∧ child.pid = s.globalPid ∧
            s'.next = putIn s.next current child.task ∧ s'.globalPid = s.globalPid + 1 := by
        rintro t ch ⟨hnext, hcount⟩ rfl hp he
        rcases forkFiles_cases he with ⟨-, -, u, err, hc, -⟩ | ⟨-, u, handles, hc, heap, rfl⟩
        · exact nomatch hc
        · obtain ⟨rfl, rfl⟩ := ForkResult.forked.inj hc
          exact ⟨rfl, hp, hnext, hcount⟩
      rw [htask] at h
      dsimp only at h
      split at h
      · exact key _ _ ⟨rfl, rfl⟩ rfl rfl h
      · split at h
        · exact nomatch h
        · exact nomatch h
        · exact nomatch Option.some.inj h
        · rename_i hmm
          exact key _ _ (copyMm_ring hmm) rfl rfl h

end

/-! ## The ring -/

/-- The pointers and numbers of the tasks, and the counter. -/
structure TaskRing where
  next : Nat → Nat
  pid : Nat → Nat
  globalPid : Nat

/-- The loop of `get_task` from `task` on; the outer option is none where the steps have run out, the
inner one is the result. -/
def getTaskLoop (r : TaskRing) (taskH pid : Nat) : Nat → Nat → Option (Option Nat)
  | 0, _ => none
  | fuel + 1, task =>
      if r.next task = taskH then some none
      else if r.pid task = pid then some (some task)
      else getTaskLoop r taskH pid fuel (r.next task)

/-- `get_task`, with the idle task at `taskH`. -/
def getTask (r : TaskRing) (taskH pid fuel : Nat) : Option (Option Nat) :=
  getTaskLoop r taskH pid fuel taskH

/-- The rings reached from the idle task by calls of `do_fork` that succeed, each by a task of the
ring, and the tasks these have made. The block of a new task is none of a task of the ring. -/
inductive RingReachable (idle : Nat) : TaskRing → List Nat → Prop
  | boot {next pid : Nat → Nat} (hnext : next idle = idle) (hpid : pid idle = 0) :
      RingReachable idle ⟨next, pid, 1⟩ []
  | fork {r : TaskRing} {created : List Nat} (h : RingReachable idle r created) {current : Nat}
      (hcur : current ∈ idle :: created) {cloneVm cloneFs : Bool} {env : ForkEnv} {s s' : ForkSys}
      {child : ForkChild} (hnext : s.next = r.next) (hcount : s.globalPid = r.globalPid)
      (hfork : doFork current cloneVm cloneFs env s = some (.forked s' child))
      (hfresh : child.task ∉ idle :: created) :
      RingReachable idle ⟨s'.next, Function.update r.pid child.task child.pid, s'.globalPid⟩
        (child.task :: created)

section

variable {idle : Nat} {r : TaskRing} {created : List Nat}

/-- The invariant: the pointers lead round through the idle task and the others, and the numbers are
those below the counter, one each. -/
structure TaskRing.Inv (r : TaskRing) (idle : Nat) (created l : List Nat) : Prop where
  perm : (idle :: l).Perm (idle :: created)
  nodup : (idle :: l).Nodup
  leads : Leads r.next idle (idle :: l)
  pids : ∀ t ∈ idle :: created, ∀ u ∈ idle :: created, r.pid t = r.pid u → t = u
  below : ∀ t ∈ idle :: created, r.pid t < r.globalPid

/-- **A successful `do_fork`** keeps the ring. -/
theorem TaskRing.Inv.fork {l : List Nat} (h : r.Inv idle created l) {current tsk : Nat}
    (hcur : current ∈ idle :: created) (hfresh : tsk ∉ idle :: created) {next : Nat → Nat}
    (hnext : next = putIn r.next current tsk) :
    ∃ l', TaskRing.Inv ⟨next, Function.update r.pid tsk r.globalPid, r.globalPid + 1⟩ idle
      (tsk :: created) l' := by
  have htsk : tsk ∉ idle :: l := fun hm => hfresh (h.perm.mem_iff.mp hm)
  have hidle : tsk ≠ idle := fun he => hfresh (he ▸ List.mem_cons_self)
  obtain ⟨xs, ys, hsplit⟩ := List.append_of_mem (h.perm.mem_iff.mpr hcur)
  have hold : ∀ t ∈ idle :: created, Function.update r.pid tsk r.globalPid t = r.pid t := fun t ht =>
    Function.update_of_ne (fun he : t = tsk => hfresh (he ▸ ht)) ..
  -- the new task stands behind the one that forks, and the idle task stays in front
  have hput : (xs ++ current :: tsk :: ys).Perm (tsk :: xs ++ current :: ys) := by
    have hmiddle : (xs ++ [current] ++ tsk :: ys).Perm (tsk :: (xs ++ [current] ++ ys)) :=
      List.perm_middle
    simpa using hmiddle
  obtain ⟨l', hl'⟩ : ∃ l', xs ++ current :: tsk :: ys = idle :: l' := by
    cases xs with
    | nil =>
        obtain ⟨rfl, -⟩ := List.cons.inj hsplit
        exact ⟨_, rfl⟩
    | cons x xs =>
        obtain ⟨rfl, -⟩ := List.cons.inj hsplit
        exact ⟨_, rfl⟩
  have hperm : (idle :: l').Perm (tsk :: idle :: l) := by
    rw [← hl', hsplit]
    exact hput
  refine ⟨l', ⟨?_, ?_, ?_, ?_, ?_⟩⟩
  · calc (idle :: l').Perm (tsk :: idle :: l) := hperm
      _ |>.Perm (tsk :: idle :: created) := h.perm.cons tsk
      _ |>.Perm (idle :: tsk :: created) := List.Perm.swap idle tsk created
  · exact hperm.nodup_iff.mpr (List.nodup_cons.mpr ⟨htsk, h.nodup⟩)
  · have hleads := h.leads
    have hnd := h.nodup
    rw [hsplit] at hleads hnd htsk
    rw [← hl', hnext]
    exact hleads.putIn hnd htsk
  · have hnew : ∀ t ∈ idle :: created, r.pid t ≠ r.globalPid := fun t ht =>
      Nat.ne_of_lt (h.below t ht)
    have hcases : ∀ t ∈ idle :: tsk :: created, t = tsk ∨ t ∈ idle :: created := by
      intro t ht
      simp only [List.mem_cons] at ht ⊢
      tauto
    intro t ht u hu he
    dsimp only at he
    rcases hcases t ht with ht' | ht' <;> rcases hcases u hu with hu' | hu'
    · rw [ht', hu']
    · rw [ht', Function.update_self, hold u hu'] at he
      exact absurd he.symm (hnew u hu')
    · rw [hu', Function.update_self, hold t ht'] at he
      exact absurd he (hnew t ht')
    · rw [hold t ht', hold u hu'] at he
      exact h.pids t ht' u hu' he
  · intro t ht
    dsimp only
    by_cases htt : t = tsk
    · rw [htt, Function.update_self]
      exact Nat.lt_succ_self _
    · have ht' : t ∈ idle :: created := by
        simp only [List.mem_cons] at ht ⊢
        tauto
      rw [hold t ht']
      exact Nat.lt_succ_of_lt (h.below t ht')

/-- **Every ring that is reached** satisfies the invariant. -/
theorem RingReachable.inv (h : RingReachable idle r created) : ∃ l, r.Inv idle created l := by
  induction h with
  | boot hnext hpid =>
      refine ⟨[], List.Perm.refl _, List.nodup_singleton _, ⟨hnext, trivial⟩, fun t ht u hu _ => ?_,
        fun t ht => ?_⟩
      · rw [List.mem_singleton.mp ht, List.mem_singleton.mp hu]
      · rw [List.mem_singleton.mp ht]
        exact lt_of_eq_of_lt hpid Nat.zero_lt_one
  | fork h hcur hnext hcount hfork hfresh ih =>
      obtain ⟨l, hl⟩ := ih
      obtain ⟨-, hpid, hn, hc⟩ := doFork_inRing hfork
      rw [hpid, hc, hcount]
      rw [hnext] at hn
      exact hl.fork hcur hfresh hn

/-! ## The search -/

/-- From a task of the ring on, the loop looks at all tasks but the last. -/
theorem getTaskLoop_eq {pid : Nat} : ∀ (ys : List Nat) (a fuel : Nat),
    Leads r.next idle (a :: ys) → idle ∉ ys → ys.length < fuel →
    getTaskLoop r idle pid fuel a = some ((a :: ys).dropLast.find? (fun t => r.pid t == pid))
  | _, _, 0, _, _, hf => absurd hf (Nat.not_lt_zero _)
  | [], a, fuel + 1, hl, _, _ => by
      have hlast : r.next a = idle := hl.1
      rw [getTaskLoop, if_pos hlast]
      rfl
  | b :: ys, a, fuel + 1, hl, hn, hf => by
      have hb : r.next a = b := hl.1
      have hbi : b ≠ idle := fun he => hn (he ▸ List.mem_cons_self)
      rw [getTaskLoop, hb, if_neg hbi, List.dropLast_cons_cons, List.find?_cons]
      by_cases hp : r.pid a = pid
      · rw [if_pos hp, beq_iff_eq.mpr hp]
      · rw [if_neg hp, beq_eq_false_iff_ne.mpr hp]
        exact getTaskLoop_eq ys b fuel hl.2 (fun hm => hn (List.mem_cons_of_mem b hm))
          (Nat.lt_of_succ_lt_succ hf)

/-- The result is the task with that number, or null if there is none. -/
def FindsTask (r : TaskRing) (tasks : List Nat) (pid : Nat) : Option Nat → Prop
  | some t => t ∈ tasks ∧ r.pid t = pid
  | none => ∀ t ∈ tasks, r.pid t ≠ pid

/-- A search that leaves out the last task is right exactly if that is not the one looked for. -/
theorem findsTask_dropLast {l : List Nat} {last pid : Nat} :
    FindsTask r (l ++ [last]) pid (l.find? (fun t => r.pid t == pid)) ↔
      (∃ t ∈ l, r.pid t = pid) ∨ r.pid last ≠ pid := by
  cases hf : l.find? (fun t => r.pid t == pid) with
  | some t =>
      have hp : r.pid t = pid := by simpa using List.find?_some hf
      have hm := List.mem_of_find?_eq_some hf
      exact iff_of_true ⟨List.mem_append_left _ hm, hp⟩ (Or.inl ⟨t, hm, hp⟩)
  | none =>
      have hno : ∀ t ∈ l, r.pid t ≠ pid := by
        intro t ht hc
        have := List.find?_eq_none.mp hf t ht
        simp [hc] at this
      constructor
      · intro hall
        exact Or.inr (hall last (by simp))
      · rintro (⟨t, ht, hp⟩ | hlast)
        · exact absurd hp (hno t ht)
        · intro t ht
          rcases List.mem_append.mp ht with ht | ht
          · exact hno t ht
          · rw [List.mem_singleton.mp ht]
            exact hlast

/-- **`get_task` on a ring that is reached.** The ring has every task once, no two tasks have the same
number, and the search is right if and only if the number is not that of the task in front of the idle
task. -/
theorem getTask_iff (h : RingReachable idle r created) :
    (∃ l, (idle :: l).Perm (idle :: created) ∧ (idle :: l).Nodup ∧
      Leads r.next idle (idle :: l)) ∧
    (∀ t ∈ idle :: created, ∀ u ∈ idle :: created, r.pid t = r.pid u → t = u) ∧
    ∀ pid fuel, created.length < fuel → ∃ res, getTask r idle pid fuel = some res ∧
      (FindsTask r (idle :: created) pid res ↔
        ∀ t ∈ idle :: created, r.next t = idle → r.pid t ≠ pid) := by
  obtain ⟨l, hl⟩ := h.inv
  refine ⟨⟨l, hl.perm, hl.nodup, hl.leads⟩, hl.pids, fun pid fuel hf => ?_⟩
  have hidle := (List.nodup_cons.mp hl.nodup).1
  have hlen : l.length = created.length := by simpa using hl.perm.length_eq
  refine ⟨_, getTaskLoop_eq l idle fuel hl.leads hidle (by omega), ?_⟩
  obtain ⟨front, last, hsplit⟩ : ∃ front last, idle :: l = front ++ [last] :=
    ⟨_, _, (List.dropLast_append_getLast (List.cons_ne_nil idle l)).symm⟩
  have hmem : ∀ t, t ∈ front ++ [last] ↔ t ∈ idle :: created := fun t => by
    rw [← hsplit]
    exact hl.perm.mem_iff
  have hlead : Leads r.next idle (front ++ [last]) := hsplit ▸ hl.leads
  have hnext : ∀ t ∈ idle :: created, r.next t = idle ↔ t = last := by
    intro t ht
    constructor
    · intro hn
      obtain ⟨xs, ys, hxy⟩ := List.append_of_mem ((hmem t).mpr ht)
      have hys : idle ∉ ys := by
        intro hc
        cases xs with
        | nil =>
            rw [← hsplit] at hxy
            exact hidle ((List.cons.inj hxy).2 ▸ hc)
        | cons x xs =>
            rw [← hsplit] at hxy
            exact hidle ((List.cons.inj hxy).2 ▸ by simp [hc])
      rw [hxy] at hlead
      obtain rfl := hlead.eq_nil hn hys
      exact (List.append_inj' hxy rfl).2 |> List.cons.inj |>.1 |>.symm
    · rintro rfl
      exact hlead.last
  have hfinds : FindsTask r (idle :: created) pid
        ((idle :: l).dropLast.find? (fun t => r.pid t == pid)) ↔
      FindsTask r (front ++ [last]) pid (front.find? (fun t => r.pid t == pid)) := by
    rw [hsplit, List.dropLast_concat]
    cases front.find? (fun t => r.pid t == pid) with
    | some t => exact and_congr_left (fun _ => (hmem t).symm)
    | none => exact forall_congr' (fun t => imp_congr_left (hmem t).symm)
  rw [hfinds, findsTask_dropLast]
  have hlast : last ∈ idle :: created := (hmem last).mp (by simp)
  constructor
  · rintro (⟨t, ht, hp⟩ | hp) u hu hn
    · -- the numbers are different, and the last task is not in front of itself
      rw [(hnext u hu).mp hn]
      intro hc
      have htl := hl.pids t ((hmem t).mp (List.mem_append_left _ ht)) last hlast (hp.trans hc.symm)
      have hnd := hl.nodup
      rw [hsplit] at hnd
      exact (List.nodup_append.mp hnd).2.2 t ht last (by simp) htl
    · rw [(hnext u hu).mp hn]
      exact hp
  · intro hall
    exact Or.inr (hall last hlast ((hnext last hlast).mpr rfl))

/-- The counter is a `long`. It does not wrap: the blocks of the tasks are different multiples of 32. -/
theorem RingReachable.globalPid_le (h : RingReachable idle r created)
    (hblocks : ∀ t ∈ created, 32 ∣ t ∧ t < 2 ^ 64) : r.globalPid ≤ 2 ^ 59 + 1 := by
  have hcount : r.globalPid = created.length + 1 := by
    clear hblocks
    induction h with
    | boot hnext hpid => rfl
    | fork h hcur hnext hcount hfork hfresh ih =>
        rw [(doFork_inRing hfork).2.2.2, hcount, ih]
        rfl
  obtain ⟨l, hl⟩ := h.inv
  have hnd : created.Nodup := (List.nodup_cons.mp (hl.perm.nodup_iff.mp hl.nodup)).2
  have hinj : (created.map (· / 32)).Nodup := by
    refine (List.nodup_map_iff_inj_on hnd).mpr (fun t ht u hu he => ?_)
    obtain ⟨a, rfl⟩ := (hblocks t ht).1
    obtain ⟨b, rfl⟩ := (hblocks u hu).1
    omega
  have hsub : created.map (· / 32) ⊆ List.range (2 ^ 59) := by
    intro x hx
    obtain ⟨t, ht, rfl⟩ := List.mem_map.mp hx
    have := (hblocks t ht).2
    rw [List.mem_range]
    omega
  have hle : (created.map (· / 32)).length ≤ (List.range (2 ^ 59)).length :=
    (List.subperm_of_subset hinj hsub).length_le
  rw [List.length_map, List.length_range] at hle
  omega

end

/-! ## An example -/

/-- The idle task at `0x100` has forked once. -/
theorem ring_example : ∃ r, RingReachable 0x100 r [0x5000] ∧ r.pid 0x5000 = 1 ∧ r.next 0x5000 = 0x100 ∧
    getTask r 0x100 1 3 = some none := by
  have hboot : RingReachable 0x100 ⟨fun _ => 0x100, fun _ => 0, 1⟩ [] := .boot rfl rfl
  have hstep := @RingReachable.fork 0x100 _ _ hboot 0x100 List.mem_cons_self true true exampleFork
    { exampleParent exampleEmpty with globalPid := 1 } _ _ rfl rfl rfl (by decide)
  exact ⟨_, hstep, rfl, rfl, rfl⟩

/-- Its child is not found. -/
theorem getTask_iff_last : ∃ r, RingReachable 0x100 r [0x5000] ∧ r.pid 0x5000 = 1 ∧
    ∃ res, getTask r 0x100 1 3 = some res ∧ ¬ FindsTask r [0x100, 0x5000] 1 res := by
  obtain ⟨r, hr, hpid, hnext, -⟩ := ring_example
  obtain ⟨-, -, hall⟩ := getTask_iff hr
  obtain ⟨res, he, hiff⟩ := hall 1 3 (by decide)
  exact ⟨r, hr, hpid, res, he, fun hf => hiff.mp hf 0x5000 (by decide) hnext hpid⟩

/-- `get_task` does not find every task. -/
theorem getTask_misses : ¬ ∀ (idle : Nat) (r : TaskRing) (created : List Nat),
    RingReachable idle r created → ∀ pid fuel res, created.length < fuel →
      getTask r idle pid fuel = some res → FindsTask r (idle :: created) pid res := by
  intro hall
  obtain ⟨r, hr, hpid, -, he⟩ := ring_example
  exact hall _ r _ hr 1 3 none (by decide) he 0x5000 (by decide) hpid

end Talios
