import Mathlib.Data.Finset.Basic
import Mathlib.Data.List.Nodup
import Mathlib.Tactic

set_option autoImplicit false

/-! # Open files

The `handle_array` of every task under `sys_open`, `sys_close`, `sys_fork`, `sys_vfork` and
`sys_execve`: which file objects are allocated, and who refers to them. A file object is known by
its address; `kmalloc` hands out an address that is not in use, or null.

A task that `vfork` has made shares the objects of its parent, and the objects of a child that a
failed `fork` gives up may still be those of the parent. `files_ok` says when nothing goes wrong.
-/

namespace Talios

/-! ## The calls -/

/-- The file objects that are allocated; `wrong` says that `kfree` has been called for one that
was not. -/
structure FileHeap where
  alive : Finset Nat
  wrong : Bool

def FileHeap.kfree (h : FileHeap) (p : Nat) : FileHeap :=
  if p ∈ h.alive then { h with alive := h.alive.erase p } else { h with wrong := true }

/-- `kmalloc(sizeof(file))` with the result `p`; `none` where `p` is in use. -/
def FileHeap.kmalloc (h : FileHeap) (p : Nat) : Option FileHeap :=
  if p ∈ h.alive then none else some { h with alive := insert p h.alive }

/-- `handle_array`, and whether `PF_VFORK` is set. -/
structure TaskFiles where
  handles : List (Option Nat)
  vfork : Bool

/-- The file objects a task refers to. -/
def TaskFiles.files (f : TaskFiles) : List Nat := f.handles.filterMap id

/-- All tasks, by address. -/
structure Files where
  heap : FileHeap
  task : Nat → Option TaskFiles

/-- The loop of `copy_files` over the handles of the parent; `results` are those of `kmalloc`. A
null stops it, and the rest of the child's handles stay those of the parent. -/
def copyFiles : List (Option Nat) → List (Option Nat) → FileHeap →
    Option (List (Option Nat) × FileHeap × Bool)
  | [], _, h => some ([], h, false)
  | none :: l, rs, h => (copyFiles l rs h).map (fun r => (none :: r.1, r.2))
  | some _ :: _, [], _ => none
  | some _ :: l, none :: _, h => some (none :: l, h, true)
  | some _ :: l, some q :: rs, h =>
      match h.kmalloc q with
      | none => none
      | some h' => (copyFiles l rs h').map (fun r => (some q :: r.1, r.2))

/-- `exit_files`. -/
def exitFiles (f : TaskFiles) (h : FileHeap) : TaskFiles × FileHeap :=
  ({ f with handles := f.handles.map (fun _ => none) },
    if f.vfork then h else f.files.foldl FileHeap.kfree h)

/-- `do_fork`, of the files: `mm` says that `copy_mm` fails, which it does not with `CLONE_VM`;
`results` are those of `kmalloc` in `copy_files`. The labels after a failure end in
`exit_files`, and the child is given up. -/
def Files.doFork (s : Files) (cloneVm cloneFs : Bool) (t child : Nat) (mm : Bool)
    (results : List (Option Nat)) : Option Files :=
  match s.task t, s.task child with
  | some parent, none =>
      let tsk : TaskFiles := ⟨parent.handles, parent.vfork || cloneVm⟩
      if !cloneVm && mm then some { s with heap := (exitFiles tsk s.heap).2 }
      else if cloneFs then some { s with task := Function.update s.task child (some tsk) }
      else
        match copyFiles parent.handles results s.heap with
        | none => none
        | some (hs, h, true) => some { s with heap := (exitFiles { tsk with handles := hs } h).2 }
        | some (hs, h, false) =>
            some ⟨h, Function.update s.task child (some { tsk with handles := hs })⟩
  | _, _ => none

/-- `sys_open` once the path has been found: `p` is the result of `kmalloc`, which the code does
not test, and `opened` says that `f_ops->open` returns 1. -/
def Files.sysOpen (s : Files) (t p : Nat) (opened : Bool) : Option Files :=
  match s.task t, s.heap.kmalloc p with
  | some f, some h =>
      if !opened then some { s with heap := h.kfree p }
      else
        match f.handles.findIdx? Option.isNone with
        | none => some { s with heap := h.kfree p }
        | some fd => some ⟨h, Function.update s.task t
            (some { f with handles := f.handles.set fd (some p) })⟩
  | _, _ => none

/-- `sys_close` of a handle; `none` where the code reads through a null handle. -/
def Files.sysClose (s : Files) (t fd : Nat) : Option Files :=
  match s.task t with
  | none => none
  | some f =>
      match f.handles[fd]? with
      | none => some s
      | some none => none
      | some (some p) => some ⟨s.heap.kfree p, Function.update s.task t
          (some { f with handles := f.handles.set fd none })⟩

/-- `do_execve`: `early` says that it fails before `exit_files`; `result` is that of the `kmalloc`
in `open_exec_file`, none if that is not reached or returns null. -/
def Files.doExecve (s : Files) (t : Nat) (early : Bool) (result : Option Nat) : Option Files :=
  match s.task t with
  | none => none
  | some f =>
      if early then some s
      else
        let r := exitFiles f s.heap
        let task := Function.update s.task t (some { r.1 with vfork := false })
        match result with
        | none => some ⟨r.2, task⟩
        | some p => (r.2.kmalloc p).map (⟨·, task⟩)

inductive FileEvent
  | open (t p : Nat) (opened : Bool)
  | close (t fd : Nat)
  | fork (t child : Nat) (mm : Bool) (results : List (Option Nat))
  | vfork (t child : Nat)
  | execve (t : Nat) (early : Bool) (result : Option Nat)

/-- One call by task `t`. -/
def Files.step (s : Files) : FileEvent → Option Files
  | .open t p opened => s.sysOpen t p opened
  | .close t fd => s.sysClose t fd
  | .fork t child mm results => s.doFork false false t child mm results
  | .vfork t child => s.doFork true true t child false []
  | .execve t early result => s.doExecve t early result

/-- The first task, without open files. -/
def filesInit (t : Nat) : Files :=
  ⟨⟨∅, false⟩, fun x => if x = t then some ⟨List.replicate 20 none, false⟩ else none⟩

/-- The states of the runs whose calls all meet `ok`. -/
inductive FilesReachable (ok : Files → FileEvent → Prop) : Files → Prop
  | init (t : Nat) : FilesReachable ok (filesInit t)
  | step {s s' : Files} {e : FileEvent} (h : FilesReachable ok s) (hok : ok s e)
      (hs : s.step e = some s') : FilesReachable ok s'

/-! ## What is wanted -/

/-- Every handle refers to an allocated object, and `kfree` has been called for such only. -/
structure Files.Ok (s : Files) : Prop where
  held : ∀ t f, s.task t = some f → ∀ p ∈ f.files, p ∈ s.heap.alive
  once : s.heap.wrong = false

/-- No other task has a handle of the object. -/
def Files.Only (s : Files) (t p : Nat) : Prop :=
  ∀ t' f', t' ≠ t → s.task t' = some f' → p ∉ f'.files

/-- The handles that `copy_files` has not come to when a `kmalloc` fails. -/
def uncopied : List (Option Nat) → List (Option Nat) → List (Option Nat)
  | none :: l, rs => uncopied l rs
  | some _ :: l, none :: _ => l
  | some _ :: l, some _ :: rs => uncopied l rs
  | _, _ => []

/-- In the state before a call: what it frees belongs to the caller alone. A `fork` that fails
frees the handles it has not copied, which are the parent's, unless the parent has `PF_VFORK`
set. -/
def Files.Owned (s : Files) : FileEvent → Prop
  | .close t fd => ∀ f p, s.task t = some f → f.handles[fd]? = some (some p) → s.Only t p
  | .execve t early _ => ∀ f, s.task t = some f → early = false → f.vfork = false →
      ∀ p ∈ f.files, s.Only t p
  | .fork t _ mm results => ∀ f, s.task t = some f → f.vfork = false →
      (if mm then f.handles else uncopied f.handles results).filterMap id = []
  | _ => True

/-! ## Allocating and freeing -/

theorem FileHeap.kmalloc_eq_some {h h' : FileHeap} {p : Nat} (he : h.kmalloc p = some h') :
    p ∉ h.alive ∧ h'.alive = insert p h.alive ∧ h'.wrong = h.wrong := by
  unfold kmalloc at he
  split at he
  · cases he
  · rename_i hp
    cases he
    exact ⟨hp, rfl, rfl⟩

theorem FileHeap.kfree_of_mem {h : FileHeap} {p : Nat} (hp : p ∈ h.alive) :
    (h.kfree p).alive = h.alive.erase p ∧ (h.kfree p).wrong = h.wrong := by
  unfold kfree
  rw [if_pos hp]
  exact ⟨rfl, rfl⟩

/-- Different allocated objects are freed. -/
theorem FileHeap.foldl_kfree {l : List Nat} (hl : l.Nodup) {h : FileHeap}
    (hm : ∀ p ∈ l, p ∈ h.alive) :
    (∀ p, p ∈ (l.foldl kfree h).alive ↔ p ∈ h.alive ∧ p ∉ l) ∧
      (l.foldl kfree h).wrong = h.wrong := by
  induction l generalizing h with
  | nil => simp
  | cons q l ih =>
      obtain ⟨hq, hl⟩ := List.nodup_cons.mp hl
      obtain ⟨ha, hw⟩ := kfree_of_mem (hm q List.mem_cons_self)
      obtain ⟨h1, h2⟩ := @ih hl (h.kfree q) (fun p hp => by
        rw [ha, Finset.mem_erase]
        exact ⟨fun he => hq (he ▸ hp), hm p (List.mem_cons_of_mem _ hp)⟩)
      refine ⟨fun p => ?_, h2.trans hw⟩
      rw [List.foldl_cons, h1, ha, Finset.mem_erase, List.mem_cons]
      tauto

theorem mem_of_mem_uncopied (l rs : List (Option Nat)) (p : Nat)
    (hp : p ∈ (uncopied l rs).filterMap id) : p ∈ l.filterMap id := by
  fun_induction uncopied l rs with
  | case1 rs l ih => exact ih hp
  | case2 x l rs => exact List.mem_cons_of_mem _ hp
  | case3 x l q rs ih => exact List.mem_cons_of_mem _ (ih hp)
  | case4 => exact absurd hp (by simp)

/-- **`copy_files`**: every object of the child is a new one, or one of the parent that the loop
has not come to. -/
theorem copyFiles_spec : ∀ (l rs : List (Option Nat)) (h : FileHeap) (hs : List (Option Nat))
    (h' : FileHeap) (err : Bool), copyFiles l rs h = some (hs, h', err) →
      (l.filterMap id).Nodup → (∀ p ∈ l.filterMap id, p ∈ h.alive) →
      h'.wrong = h.wrong ∧ h.alive ⊆ h'.alive ∧ (hs.filterMap id).Nodup ∧
      ∀ p ∈ hs.filterMap id, p ∈ h'.alive ∧
        (p ∉ h.alive ∨ err = true ∧ p ∈ (uncopied l rs).filterMap id) := by
  intro l
  induction l with
  | nil =>
      intro rs h hs h' err he _ _
      cases he
      exact ⟨rfl, Finset.Subset.refl _, List.nodup_nil, by simp⟩
  | cons x l ih =>
      intro rs h hs h' err he hnd hal
      cases x with
      | none =>
          obtain ⟨⟨hs₁, h₁, err₁⟩, hr, heq⟩ := Option.map_eq_some_iff.mp he
          cases heq
          exact ih rs h hs₁ h' err hr hnd hal
      | some x =>
          have hnd' : (l.filterMap id).Nodup := (List.nodup_cons.mp hnd).2
          have hal' : ∀ p ∈ l.filterMap id, p ∈ h.alive :=
            fun p hp => hal p (List.mem_cons_of_mem _ hp)
          cases rs with
          | nil => cases he
          | cons r rs =>
              cases r with
              | none =>
                  -- `kmalloc` fails, the rest is the parent's
                  cases he
                  exact ⟨rfl, Finset.Subset.refl _, hnd', fun p hp => ⟨hal' p hp, Or.inr ⟨rfl, hp⟩⟩⟩
              | some q =>
                  rw [copyFiles] at he
                  cases hk : h.kmalloc q with
                  | none => rw [hk] at he; cases he
                  | some h₁ =>
                      rw [hk] at he
                      obtain ⟨⟨hs₁, h₂, err₁⟩, hr, heq⟩ := Option.map_eq_some_iff.mp he
                      cases heq
                      obtain ⟨hq, ha, hw⟩ := FileHeap.kmalloc_eq_some hk
                      have hsub : h.alive ⊆ h₁.alive := ha ▸ Finset.subset_insert q h.alive
                      obtain ⟨h1, h2, h3, h4⟩ := ih rs h₁ hs₁ h' err hr hnd'
                        (fun p hp => hsub (hal' p hp))
                      have hq₁ : q ∈ h₁.alive := ha ▸ Finset.mem_insert_self q h.alive
                      -- what lies behind the loop is the parent's and not new
                      have hun : ∀ p ∈ (uncopied l rs).filterMap id, p ∈ h.alive :=
                        fun p hp => hal' p (mem_of_mem_uncopied l rs p hp)
                      refine ⟨h1.trans hw, hsub.trans h2, List.nodup_cons.mpr ⟨fun hmem => ?_, h3⟩,
                        fun p hp => ?_⟩
                      · rcases (h4 q hmem).2 with hno | ⟨-, hp⟩
                        · exact hno hq₁
                        · exact hq (hun q hp)
                      · rcases List.mem_cons.mp hp with rfl | hp
                        · exact ⟨h2 hq₁, Or.inl hq⟩
                        · refine ⟨(h4 p hp).1, ?_⟩
                          rcases (h4 p hp).2 with hno | ⟨he', hp'⟩
                          · exact Or.inl (fun hin => hno (hsub hin))
                          · exact Or.inr ⟨he', hp'⟩

/-- `exit_files` of a task whose objects are allocated. -/
theorem exitFiles_spec {f : TaskFiles} {h : FileHeap} (hnd : f.files.Nodup)
    (hm : ∀ p ∈ f.files, p ∈ h.alive) :
    (∀ p, p ∈ (exitFiles f h).2.alive ↔ p ∈ h.alive ∧ (f.vfork = false → p ∉ f.files)) ∧
      (exitFiles f h).2.wrong = h.wrong ∧ (exitFiles f h).1.files = [] := by
  have hnone : (exitFiles f h).1.files = [] := by
    show (f.handles.map (fun _ => none)).filterMap id = []
    simp
  unfold exitFiles at *
  cases hv : f.vfork with
  | false =>
      obtain ⟨h1, h2⟩ := FileHeap.foldl_kfree hnd hm
      exact ⟨fun p => by simp [h1], h2, by simpa [hv] using hnone⟩
  | true => exact ⟨fun p => by simp, rfl, by simpa [hv] using hnone⟩

/-- A handle is replaced. -/
theorem set_split {l : List (Option Nat)} {i : Nat} {x : Option Nat} (h : l[i]? = some x)
    (y : Option Nat) : ∃ a b, l = a ++ x :: b ∧ l.set i y = a ++ y :: b := by
  obtain ⟨hi, hx⟩ := List.getElem?_eq_some_iff.mp h
  refine ⟨l.take i, l.drop (i + 1), ?_, List.set_eq_take_append_cons_drop.trans (if_pos hi)⟩
  rw [← hx, List.cons_getElem_drop_succ, List.take_append_drop]

/-! ## The invariant -/

/-- The invariant: a task has no object twice. -/
structure Files.Inv (s : Files) : Prop extends s.Ok where
  nodup : ∀ t f, s.task t = some f → f.files.Nodup

section

variable {s s' : Files} {h : FileHeap} {t : Nat} {f : TaskFiles}

/-- Nothing that was allocated has been freed. -/
theorem Files.Inv.keep (hs : s.Inv) (hsub : s.heap.alive ⊆ h.alive) (hw : h.wrong = s.heap.wrong) :
    Files.Inv { s with heap := h } :=
  ⟨⟨fun t f ht p hp => hsub (hs.held t f ht p hp), hw.trans hs.once⟩, hs.nodup⟩

/-- The handles of one task change, and objects are freed that only it had. -/
theorem Files.Inv.setTask (hs : s.Inv) (hw : h.wrong = s.heap.wrong) {g : TaskFiles}
    (hnd : g.files.Nodup) (hg : ∀ p ∈ g.files, p ∈ h.alive)
    (hkeep : ∀ t' f', t' ≠ t → s.task t' = some f' → ∀ p ∈ f'.files, p ∈ h.alive) :
    Files.Inv ⟨h, Function.update s.task t (some g)⟩ := by
  have hcases : ∀ t' f', Function.update s.task t (some g) t' = some f' →
      f' = g ∨ t' ≠ t ∧ s.task t' = some f' := by
    intro t' f' ht'
    by_cases he : t' = t
    · rw [he, Function.update_self] at ht'
      exact Or.inl (Option.some.inj ht').symm
    · rw [Function.update_of_ne he] at ht'
      exact Or.inr ⟨he, ht'⟩
  refine ⟨⟨fun t' f' ht' p hp => ?_, hw.trans hs.once⟩, fun t' f' ht' => ?_⟩
  · rcases hcases t' f' ht' with rfl | ⟨he, ht'⟩
    · exact hg p hp
    · exact hkeep t' f' he ht' p hp
  · rcases hcases t' f' ht' with rfl | ⟨-, ht'⟩
    · exact hnd
    · exact hs.nodup t' f' ht'

theorem Files.Inv.sysOpen (hs : s.Inv) {p : Nat} {opened : Bool}
    (he : s.sysOpen t p opened = some s') : s'.Inv := by
  unfold Files.sysOpen at he
  split at he
  · rename_i f h ht hk
    obtain ⟨hp, ha, hw⟩ := FileHeap.kmalloc_eq_some hk
    have hin : p ∈ h.alive := ha ▸ Finset.mem_insert_self p _
    have hsub : s.heap.alive ⊆ h.alive := ha ▸ Finset.subset_insert p _
    -- where the new object is given back, the others are as they were
    have hback : Files.Inv { s with heap := h.kfree p } := by
      obtain ⟨h1, h2⟩ := FileHeap.kfree_of_mem hin
      refine hs.keep (fun q hq => ?_) (h2.trans hw)
      rw [h1, Finset.mem_erase]
      exact ⟨fun hqp => hp (hqp ▸ hq), hsub hq⟩
    split at he
    · cases he
      exact hback
    · split at he
      · cases he
        exact hback
      · rename_i fd hfd
        cases he
        obtain ⟨hlt, hnone, -⟩ := List.findIdx?_eq_some_iff_getElem.mp hfd
        have hget : f.handles[fd]? = some none := by
          rw [List.getElem?_eq_getElem hlt, Option.isNone_iff_eq_none.mp hnone]
        obtain ⟨a, b, hl, hset⟩ := set_split hget (some p)
        have hfiles : f.files = a.filterMap id ++ b.filterMap id := by
          unfold TaskFiles.files
          rw [hl]
          simp
        have hfiles' : ({ f with handles := f.handles.set fd (some p) } : TaskFiles).files
            = a.filterMap id ++ p :: b.filterMap id := by
          unfold TaskFiles.files
          rw [hset]
          simp
        have hold := hs.held t f ht
        have hnd := hs.nodup t f ht
        refine hs.setTask hw ?_ ?_ (fun t' f' _ ht' q hq => hsub (hs.held t' f' ht' q hq))
        · rw [hfiles', List.nodup_middle, List.nodup_cons, ← hfiles]
          exact ⟨fun hmem => hp (hold p hmem), hnd⟩
        · intro q hq
          rw [hfiles', List.mem_append, List.mem_cons] at hq
          rcases hq with hq | rfl | hq
          · exact hsub (hold q (by rw [hfiles]; exact List.mem_append_left _ hq))
          · exact hin
          · exact hsub (hold q (by rw [hfiles]; exact List.mem_append_right _ hq))
  · cases he

theorem Files.Inv.sysClose (hs : s.Inv) {fd : Nat} (ho : s.Owned (.close t fd))
    (he : s.sysClose t fd = some s') : s'.Inv := by
  unfold Files.sysClose at he
  split at he
  · cases he
  rename_i f ht
  split at he
  · cases he
    exact hs
  · cases he
  · rename_i p hget
    cases he
    obtain ⟨a, b, hl, hset⟩ := set_split hget none
    have hfiles : f.files = a.filterMap id ++ p :: b.filterMap id := by
      unfold TaskFiles.files
      rw [hl]
      simp
    have hfiles' : ({ f with handles := f.handles.set fd none } : TaskFiles).files
        = a.filterMap id ++ b.filterMap id := by
      unfold TaskFiles.files
      rw [hset]
      simp
    have hnd := hs.nodup t f ht
    rw [hfiles, List.nodup_middle, List.nodup_cons] at hnd
    have hold := hs.held t f ht
    obtain ⟨h1, h2⟩ := FileHeap.kfree_of_mem (hold p (by rw [hfiles]; simp))
    refine hs.setTask h2 (by rw [hfiles']; exact hnd.2) (fun q hq => ?_)
      (fun t' f' hne ht' q hq => ?_)
    · rw [hfiles'] at hq
      rw [h1, Finset.mem_erase]
      refine ⟨fun hqp => hnd.1 (hqp ▸ hq), hold q ?_⟩
      rw [hfiles, List.mem_append, List.mem_cons]
      exact (List.mem_append.mp hq).imp_right Or.inr
    · rw [h1, Finset.mem_erase]
      exact ⟨fun hqp => ho f p ht hget t' f' hne ht' (hqp ▸ hq), hs.held t' f' ht' q hq⟩

/-- A child is given up: what is freed was new. -/
theorem Files.Inv.giveUp (hs : s.Inv) (hsub : s.heap.alive ⊆ h.alive)
    (hw : h.wrong = s.heap.wrong) (hnd : f.files.Nodup) (hf : ∀ p ∈ f.files, p ∈ h.alive)
    (hnew : f.vfork = false → ∀ p ∈ f.files, p ∉ s.heap.alive) :
    Files.Inv { s with heap := (exitFiles f h).2 } := by
  obtain ⟨h1, h2, -⟩ := exitFiles_spec hnd hf
  refine hs.keep (fun q hq => (h1 q).mpr ⟨hsub hq, fun hv hmem => ?_⟩) (h2.trans hw)
  exact hnew hv q hmem hq

theorem Files.Inv.doFork (hs : s.Inv) {child : Nat} {mm : Bool} {results : List (Option Nat)}
    (ho : s.Owned (.fork t child mm results))
    (he : s.doFork false false t child mm results = some s') : s'.Inv := by
  unfold Files.doFork at he
  split at he
  · rename_i f ht hchild
    have hfree := ho f ht
    have hold := hs.held t f ht
    have hnd := hs.nodup t f ht
    simp only [Bool.not_false, Bool.true_and, Bool.or_false, Bool.false_eq_true, if_false] at he
    split at he
    · -- `copy_mm` fails
      rename_i hmm
      cases he
      refine hs.giveUp (Finset.Subset.refl _) rfl hnd hold (fun hv p hp => ?_)
      have hnone := hfree hv
      rw [if_pos hmm] at hnone
      exact absurd hp (by rw [show f.files = [] from hnone]; simp)
    · rename_i hmm
      split at he
      · cases he
      · -- `copy_files` fails
        rename_i hs' h' hc
        cases he
        obtain ⟨h1, h2, h3, h4⟩ := copyFiles_spec _ _ _ _ _ _ hc hnd hold
        refine hs.giveUp h2 h1 h3 (fun p hp => (h4 p hp).1) (fun hv p hp => ?_)
        rcases (h4 p hp).2 with hno | ⟨-, hun⟩
        · exact hno
        · have hnone := hfree hv
          rw [if_neg hmm] at hnone
          rw [hnone] at hun
          exact absurd hun (by simp)
      · rename_i hs' h' hc
        cases he
        obtain ⟨h1, h2, h3, h4⟩ := copyFiles_spec _ _ _ _ _ _ hc hnd hold
        exact hs.setTask h1 h3 (fun p hp => (h4 p hp).1)
          (fun t' f' _ ht' q hq => h2 (hs.held t' f' ht' q hq))
  · cases he

theorem Files.Inv.vfork (hs : s.Inv) {child : Nat} (he : s.step (.vfork t child) = some s') :
    s'.Inv := by
  have he : s.doFork true true t child false [] = some s' := he
  unfold Files.doFork at he
  split at he
  · rename_i f ht hchild
    simp only [Bool.not_true, Bool.false_and, Bool.false_eq_true, if_false, if_true] at he
    cases he
    exact hs.setTask rfl (hs.nodup t f ht) (hs.held t f ht)
      (fun t' f' _ ht' q hq => hs.held t' f' ht' q hq)
  · cases he

theorem Files.Inv.doExecve (hs : s.Inv) {early : Bool} {result : Option Nat}
    (ho : s.Owned (.execve t early result)) (he : s.doExecve t early result = some s') :
    s'.Inv := by
  unfold Files.doExecve at he
  split at he
  · cases he
  rename_i f ht
  split at he
  · cases he
    exact hs
  rename_i hearly
  obtain ⟨h1, h2, h3⟩ := exitFiles_spec (hs.nodup t f ht) (hs.held t f ht)
  have hfiles : ({ (exitFiles f s.heap).1 with vfork := false } : TaskFiles).files = [] := h3
  have hkeep : ∀ t' f', t' ≠ t → s.task t' = some f' → ∀ p ∈ f'.files,
      p ∈ (exitFiles f s.heap).2.alive := by
    intro t' f' hne ht' p hp
    refine (h1 p).mpr ⟨hs.held t' f' ht' p hp, fun hv hmem => ?_⟩
    exact ho f ht (by simpa using hearly) hv p hmem t' f' hne ht' hp
  dsimp only at he
  split at he
  · cases he
    exact hs.setTask h2 (by rw [hfiles]; simp) (by rw [hfiles]; simp) hkeep
  · rename_i p
    obtain ⟨h, hk, rfl⟩ := Option.map_eq_some_iff.mp he
    obtain ⟨-, ha, hw⟩ := FileHeap.kmalloc_eq_some hk
    refine hs.setTask (hw.trans h2) (by rw [hfiles]; simp) (by rw [hfiles]; simp) ?_
    intro t' f' hne ht' p hp
    rw [ha]
    exact Finset.mem_insert_of_mem (hkeep t' f' hne ht' p hp)

/-- **One call** that frees what the caller alone has. -/
theorem Files.Inv.step (hs : s.Inv) {e : FileEvent} (ho : s.Owned e) (he : s.step e = some s') :
    s'.Inv := by
  cases e with
  | «open» t p opened => exact hs.sysOpen he
  | close t fd => exact hs.sysClose ho he
  | fork t child mm results => exact hs.doFork ho he
  | vfork t child => exact hs.vfork he
  | execve t early result => exact hs.doExecve ho he

end

theorem filesInit_inv (t : Nat) : (filesInit t).Inv := by
  have hnone : ∀ t' f, (filesInit t).task t' = some f → f.files = [] := by
    intro t' f h
    unfold filesInit at h
    dsimp only at h
    split at h
    · cases h
      rfl
    · cases h
  refine ⟨⟨fun t' f h p hp => ?_, rfl⟩, fun t' f h => ?_⟩
  · rw [hnone t' f h] at hp
    exact absurd hp (by simp)
  · rw [hnone t' f h]
    exact List.nodup_nil

theorem FilesReachable.inv {s : Files} (h : FilesReachable Files.Owned s) : s.Inv := by
  induction h with
  | init t => exact filesInit_inv t
  | step _ hok hs ih => exact ih.step hok hs

/-- **Open files**: in every run in which a call frees what its caller alone has, every handle
refers to an allocated object and none is freed twice. -/
theorem files_ok (s : Files) (h : FilesReachable Files.Owned s) : s.Ok := h.inv.toOk

/-- The first task opens two files and calls `fork`, closes the first of them and opens another. -/
theorem files_ok_example :
    ∃ s, FilesReachable Files.Owned s ∧ (s.task 1).map TaskFiles.files = some [5000, 2000] ∧
      (s.task 2).map TaskFiles.files = some [3000, 4000] ∧ s.Ok := by
  have h1 : FilesReachable Files.Owned _ :=
    .step (e := .open 1 1000 true) (.init 1) trivial rfl
  have h2 : FilesReachable Files.Owned _ := .step (e := .open 1 2000 true) h1 trivial rfl
  have h3 : FilesReachable Files.Owned _ :=
    .step (e := .fork 1 2 false [some 3000, some 4000]) h2
      (fun f hf _ => by obtain rfl := Option.some.inj hf; decide) rfl
  have h4 : FilesReachable Files.Owned _ :=
    .step (e := .close 1 0) h3 (fun f p hf hp t f' hne hf' => by
      obtain rfl := Option.some.inj hf
      obtain rfl := Option.some.inj (Option.some.inj hp)
      by_cases ht : t = 2
      · obtain rfl := ht
        obtain rfl := Option.some.inj hf'
        decide
      · -- there is no third task
        refine absurd (hf'.symm.trans ?_) (Option.some_ne_none f')
        dsimp only
        rw [Function.update_of_ne ht, Function.update_of_ne hne, Function.update_of_ne hne]
        exact if_neg hne) rfl
  have h5 : FilesReachable Files.Owned _ := .step (e := .open 1 5000 true) h4 trivial rfl
  exact ⟨_, h5, by decide, by decide, files_ok _ h5⟩

/-- A task opens a file and calls `vfork`; then it closes the file, which the child still has. -/
theorem files_not_ok : ¬ ∀ s, FilesReachable (fun _ _ => True) s → s.Ok := by
  intro hall
  have h1 : FilesReachable (fun _ _ => True) _ :=
    .step (e := .open 1 1000 true) (.init 1) trivial rfl
  have h2 : FilesReachable (fun _ _ => True) _ := .step (e := .vfork 1 2) h1 trivial rfl
  have h3 : FilesReachable (fun _ _ => True) _ := .step (e := .close 1 0) h2 trivial rfl
  have hmem := (hall _ h3).held 2 _ rfl 1000 (by decide)
  exact absurd hmem (by decide)

end Talios
