import Talios.Mm.Vma

set_option autoImplicit false

/-! # The lists of memory areas stay in order

Runs of any number of managers: `lmm_init`, `do_mmap`, `do_munmap`, `insert_vma` and
`vma_clone_all` in any order and with any arguments, over any `kmalloc`. Every list stays sorted,
disjoint and aligned, and a clone is complete or empty.
-/

namespace Talios

open Word

/-! ## Areas and lists -/

/-- An area of the manager at `id`, aligned and in user space. -/
structure AreaOk (id : Nat) (v : VmArea) : Prop where
  startAligned : PAGE_4K_SIZE ∣ v.start
  stopAligned : PAGE_4K_SIZE ∣ v.stop
  lower : PAGE_4K_SIZE ≤ v.start
  lt : v.start < v.stop
  upper : v.stop ≤ USER_LIMIT
  mm : v.vmMm = id

/-- A list of such areas, each ending before the next one starts. -/
structure AreasOk (id : Nat) (l : List VmArea) : Prop where
  areas : ∀ v ∈ l, AreaOk id v
  ordered : l.Pairwise (fun a b => a.stop ≤ b.start)

theorem areasOk_nil (id : Nat) : AreasOk id [] := ⟨by simp, List.Pairwise.nil⟩

theorem areasOk_cons {id : Nat} {v : VmArea} {l : List VmArea} :
    AreasOk id (v :: l) ↔ AreaOk id v ∧ (∀ w ∈ l, v.stop ≤ w.start) ∧ AreasOk id l := by
  constructor
  · rintro ⟨h1, h2⟩
    obtain ⟨h3, h4⟩ := List.forall_mem_cons.mp h1
    obtain ⟨h5, h6⟩ := List.pairwise_cons.mp h2
    exact ⟨h3, h5, h4, h6⟩
  · rintro ⟨h3, h5, h4, h6⟩
    exact ⟨List.forall_mem_cons.mpr ⟨h3, h4⟩, List.pairwise_cons.mpr ⟨h5, h6⟩⟩

/-- **`insert_vma`** puts an area between its neighbours. -/
theorem insertLoop_spec {id : Nat} {v : VmArea} (hv : AreaOk id v) :
    ∀ l l' : List VmArea, AreasOk id l → insertLoop v l = some l' →
      AreasOk id l' ∧ l'.Perm (v :: l) := by
  intro l
  induction l with
  | nil =>
      intro l' _ he
      obtain rfl := Option.some.inj he
      exact ⟨areasOk_cons.mpr ⟨hv, by simp, areasOk_nil id⟩, List.Perm.refl _⟩
  | cons p rest ih =>
      intro l' h he
      obtain ⟨hp, hlt, hrest⟩ := areasOk_cons.mp h
      rw [insertLoop] at he
      by_cases h1 : v.stop ≤ p.start
      · rw [if_pos h1] at he
        obtain rfl := Option.some.inj he
        refine ⟨areasOk_cons.mpr ⟨hv, fun w hw => ?_, h⟩, List.Perm.refl _⟩
        rcases List.mem_cons.mp hw with rfl | hw
        · exact h1
        · exact h1.trans (hp.lt.le.trans (hlt w hw))
      · rw [if_neg h1] at he
        by_cases h2 : v.start < p.stop
        · rw [if_pos h2] at he
          exact absurd he (by simp)
        · rw [if_neg h2] at he
          obtain ⟨r, hr, rfl⟩ := Option.map_eq_some_iff.mp he
          obtain ⟨hok, hperm⟩ := ih r hrest hr
          refine ⟨areasOk_cons.mpr ⟨hp, fun w hw => ?_, hok⟩,
            (hperm.cons p).trans (List.Perm.swap v p rest)⟩
          rcases List.mem_cons.mp (hperm.mem_iff.mp hw) with rfl | hw
          · omega
          · exact hlt w hw

theorem areaOk_of_insertArgsOk {mm : Lmm} {v : VmArea} (h : insertArgsOk mm v = true) :
    AreaOk mm.self { v with vmMm := mm.self } := by
  simp only [insertArgsOk, Bool.and_eq_true, decide_eq_true_eq] at h
  obtain ⟨⟨⟨⟨⟨-, h2⟩, h3⟩, h4⟩, h5⟩, h6⟩ := h
  exact ⟨Nat.dvd_of_mod_eq_zero h5, Nat.dvd_of_mod_eq_zero h6, h3, h2, h4, rfl⟩

theorem insertVma_ok {mm : Lmm} (h : AreasOk mm.self mm.vmaList) (v : VmArea) :
    AreasOk (insertVma mm v).1.self (insertVma mm v).1.vmaList ∧
      (insertVma mm v).1.self = mm.self := by
  unfold insertVma
  split
  · rename_i hargs
    cases hl : insertLoop { v with vmMm := mm.self } mm.vmaList with
    | none => exact ⟨h, rfl⟩
    | some l => exact ⟨(insertLoop_spec (areaOk_of_insertArgsOk hargs) _ _ h hl).1, rfl⟩
  · exact ⟨h, rfl⟩

/-- A check that has passed. -/
theorem ok_of_check {α : Type} {c : Prop} [Decidable c] {e : Nat} {x : Except Nat α} {r : α}
    (h : (if c then .error e else x) = .ok r) : ¬ c ∧ x = .ok r := by
  by_cases hc : c
  · rw [if_pos hc] at h
    exact nomatch h
  · rw [if_neg hc] at h
    exact ⟨hc, h⟩

theorem mmapCheck_anon {a : MmapArgs} {len : Nat} (h : mmapCheck a = .ok len) :
    hasFlag a.flags MAP_ANONYMOUS = true ∧ a.file = none := by
  unfold mmapCheck at h
  obtain ⟨-, h⟩ := ok_of_check h
  obtain ⟨-, h⟩ := ok_of_check h
  obtain ⟨-, h⟩ := ok_of_check h
  obtain ⟨-, h⟩ := ok_of_check h
  obtain ⟨-, h⟩ := ok_of_check h
  obtain ⟨hfile, h⟩ := ok_of_check h
  obtain ⟨-, h⟩ := ok_of_check h
  obtain ⟨hanon, -⟩ := ok_of_check h
  have ha : hasFlag a.flags MAP_ANONYMOUS = true := by simpa using hanon
  rw [ha] at hfile
  exact ⟨ha, by simpa using hfile⟩

/-- What `insert_vma` returns and does to the list. -/
theorem insertVma_cases {mm : Lmm} (hok : AreasOk mm.self mm.vmaList) (v : VmArea) :
    (∃ r, r ≠ 1 ∧ insertVma mm v = (mm, r)) ∨
    ∃ l, insertVma mm v = ({ mm with vmaList := l }, 1) ∧
      l.Perm ({ v with vmMm := mm.self } :: mm.vmaList) := by
  unfold insertVma
  split
  · rename_i hargs
    cases hl : insertLoop { v with vmMm := mm.self } mm.vmaList with
    | none => exact Or.inl ⟨-(EEXIST : Int), by decide, rfl⟩
    | some l => exact Or.inr ⟨l, rfl, (insertLoop_spec (areaOk_of_insertArgsOk hargs) _ _ hok hl).2⟩
  · exact Or.inl ⟨-(EINVAL : Int), by decide, rfl⟩

section

variable {σ : Type} (env : VmaEnv σ)

theorem doMmap_ok {mm : Lmm} (h : AreasOk mm.self mm.vmaList) (a : MmapArgs) (s : σ) :
    AreasOk (doMmap env mm a s).1.self (doMmap env mm a s).1.vmaList ∧
      (doMmap env mm a s).1.self = mm.self := by
  unfold doMmap
  cases mmapCheck a with
  | error e => exact ⟨h, rfl⟩
  | ok len =>
      dsimp only
      split
      · exact ⟨h, rfl⟩
      · split
        · exact ⟨h, rfl⟩
        · rcases env.kmalloc s with ⟨s₁, _ | p⟩
          · exact ⟨h, rfl⟩
          · have := insertVma_ok h (mmapArea mm a p (getUnmappedArea mm a.addr len a.flags) len)
            dsimp only
            split <;> rename_i he <;> rw [he] at this <;> exact this

/-- What is left of an area lies inside it. -/
def Within (l l' : List VmArea) : Prop := ∀ v ∈ l', ∃ w ∈ l, w.start ≤ v.start ∧ v.stop ≤ w.stop

/-- **The loop of `do_munmap`** keeps the list in order: removing, trimming and splitting leave
parts of the areas that were there. -/
theorem munmapLoop_spec (mm : Lmm) {addr stop : Nat} (ha : PAGE_4K_SIZE ∣ addr)
    (hs : PAGE_4K_SIZE ∣ stop) (hlt : addr < stop) :
    ∀ (l : List VmArea) (s : σ) (u : Bool), AreasOk mm.self l →
      AreasOk mm.self (munmapLoop env mm addr stop l s u).1 ∧
        Within l (munmapLoop env mm addr stop l s u).1 := by
  intro l
  induction l with
  | nil => exact fun s u h => ⟨h, fun v hv => absurd hv (by simp [munmapLoop])⟩
  | cons v rest ih =>
      intro s u h
      obtain ⟨hv, hord, hrest⟩ := areasOk_cons.mp h
      have hself : Within (v :: rest) (v :: rest) := fun w hw => ⟨w, hw, le_rfl, le_rfl⟩
      -- a part of `v` in front of what is left of the rest
      have hcons : ∀ (w : VmArea) (r : List VmArea), AreaOk mm.self w → v.start ≤ w.start →
          w.stop ≤ v.stop → AreasOk mm.self r → Within rest r →
          AreasOk mm.self (w :: r) ∧ Within (v :: rest) (w :: r) := by
        intro w r hw h1 h2 hr hwr
        refine ⟨areasOk_cons.mpr ⟨hw, fun x hx => ?_, hr⟩, fun x hx => ?_⟩
        · obtain ⟨y, hy, h3, -⟩ := hwr x hx
          exact h2.trans ((hord y hy).trans h3)
        · rcases List.mem_cons.mp hx with rfl | hx
          · exact ⟨v, by simp, h1, h2⟩
          · obtain ⟨y, hy, h3⟩ := hwr x hx
            exact ⟨y, by simp [hy], h3⟩
      rw [munmapLoop]
      split
      · obtain ⟨h1, h2⟩ := ih s u hrest
        exact hcons v _ hv le_rfl le_rfl h1 h2
      rename_i hbefore
      split
      · exact ⟨h, hself⟩
      rename_i hbehind
      split
      · exact ⟨h, hself⟩
      dsimp only
      set us := if v.start < addr then addr else v.start with hus
      set ue := if stop < v.stop then stop else v.stop with hue
      have husd : PAGE_4K_SIZE ∣ us := by rw [hus]; split; exacts [ha, hv.startAligned]
      have hued : PAGE_4K_SIZE ∣ ue := by rw [hue]; split; exacts [hs, hv.stopAligned]
      have hb : v.start ≤ us ∧ us < ue ∧ ue ≤ v.stop := by
        have := hv.lt
        rw [hus, hue]
        split <;> split <;> omega
      obtain ⟨hb1, hb2, hb3⟩ := hb
      have hlow := hv.lower
      have hup := hv.upper
      split
      · rename_i hsplit
        rcases env.kmalloc s with ⟨s₁, _ | p⟩
        · exact ⟨h, hself⟩
        · dsimp only
          obtain ⟨h1, h2⟩ := ih (env.unmapAnonymousPages s₁ mm.pgd us ue) true hrest
          have hleft : AreaOk mm.self { v with stop := us } :=
            ⟨hv.startAligned, husd, hlow, hsplit.1, by show us ≤ _; omega, hv.mm⟩
          have hright : AreaOk mm.self { v with
              self := p, vmMm := mm.self, start := ue
              fileOffset := add64 v.fileOffset (ue - v.start) } :=
            ⟨hued, hv.stopAligned, by show _ ≤ ue; omega, hsplit.2, hup, rfl⟩
          obtain ⟨h3, h4⟩ := hcons _ _ hright (by show _ ≤ ue; omega) le_rfl h1 h2
          refine ⟨areasOk_cons.mpr ⟨hleft, fun x hx => ?_, h3⟩, fun x hx => ?_⟩
          · rcases List.mem_cons.mp hx with rfl | hx
            · exact hb2.le
            · obtain ⟨y, hy, h5, -⟩ := h2 x hx
              have := hord y hy
              show us ≤ x.start
              omega
          · rcases List.mem_cons.mp hx with rfl | hx
            · exact ⟨v, by simp, le_rfl, by show us ≤ _; omega⟩
            · exact h4 x hx
      · split
        · obtain ⟨h1, h2⟩ := ih (env.kfree (env.unmapAnonymousPages s mm.pgd us ue) v.self) true
            hrest
          refine ⟨h1, fun x hx => ?_⟩
          obtain ⟨y, hy, h3⟩ := h2 x hx
          exact ⟨y, by simp [hy], h3⟩
        · obtain ⟨h1, h2⟩ := ih (env.unmapAnonymousPages s mm.pgd us ue) true hrest
          split
          · rename_i hne heq
            have hlt' : ue < v.stop := by omega
            exact hcons _ _ ⟨hued, hv.stopAligned, by show _ ≤ ue; omega, hlt', hup, hv.mm⟩
              (by show _ ≤ ue; omega) le_rfl h1 h2
          · exact hcons _ _ ⟨hv.startAligned, husd, hlow, by show v.start < us; omega,
              by show us ≤ _; omega, hv.mm⟩ le_rfl (by show us ≤ _; omega) h1 h2

theorem munmapCheck_spec {mm : Lmm} {addr len len' : Nat}
    (h : munmapCheck mm addr len = some len') :
    PAGE_4K_SIZE ∣ addr ∧ PAGE_4K_SIZE ∣ len' ∧ 0 < len' ∧ PAGE_4K_SIZE ≤ addr ∧
      addr + len' ≤ USER_LIMIT ∧ mm.pgd ≠ 0 ∧ mm.listReady = true := by
  unfold munmapCheck at h
  split at h
  · exact absurd h (by simp)
  rename_i h1
  split at h
  · exact absurd h (by simp)
  dsimp only at h
  split at h
  · exact absurd h (by simp)
  rename_i h3
  split at h
  · exact absurd h (by simp)
  rename_i h4
  obtain rfl := Option.some.inj h
  push Not at h1 h3
  exact ⟨Nat.dvd_of_mod_eq_zero h1.2.2, dvd_alignDown _ _, Nat.pos_of_ne_zero h3.2.2.1, h3.1,
    by omega, h1.1, by simpa using h4⟩

theorem doMunmap_ok {mm : Lmm} (h : AreasOk mm.self mm.vmaList) (addr len : Nat) (s : σ) :
    AreasOk (doMunmap env mm addr len s).1.self (doMunmap env mm addr len s).1.vmaList ∧
      (doMunmap env mm addr len s).1.self = mm.self := by
  unfold doMunmap
  cases hc : munmapCheck mm addr len with
  | none => exact ⟨h, rfl⟩
  | some len' =>
      obtain ⟨h1, h2, h3, -⟩ := munmapCheck_spec hc
      exact ⟨(munmapLoop_spec env mm h1 (dvd_add h1 h2) (by omega) _ s false h).1, rfl⟩

/-! ## Cloning -/

/-- The fields of an area a clone has in common with its source. -/
def VmArea.fields (v : VmArea) : Nat × Nat × Nat × Nat × Nat × Nat :=
  (v.start, v.stop, v.prot, v.flags, v.mmapFlags, v.fileOffset)

/-- The loop of `vma_clone_all` appends copies of all areas, or empties the destination. -/
theorem cloneLoop_spec : ∀ (l : List VmArea) (dst : Lmm) (s : σ), dst.listReady = true →
    (cloneLoop env l dst s).1.self = dst.self ∧
    (((cloneLoop env l dst s).2.2 = 0 ∧ ∃ l', (cloneLoop env l dst s).1.vmaList = dst.vmaList ++ l' ∧
        l'.map VmArea.fields = l.map VmArea.fields ∧ ∀ v ∈ l', v.vmMm = dst.self) ∨
      ((cloneLoop env l dst s).2.2 = -(ENOMEM : Int) ∧ (cloneLoop env l dst s).1.vmaList = [])) := by
  intro l
  induction l with
  | nil => exact fun dst s _ => ⟨rfl, Or.inl ⟨rfl, [], by simp [cloneLoop], rfl, by simp⟩⟩
  | cons v rest ih =>
      intro dst s hready
      rw [cloneLoop]
      rcases env.kmalloc s with ⟨s₁, _ | p⟩
      · dsimp only
        unfold vmaDestroyAll
        rw [if_pos hready]
        exact ⟨rfl, Or.inr ⟨rfl, rfl⟩⟩
      · dsimp only
        obtain ⟨hself, hres⟩ := ih
          { dst with vmaList := dst.vmaList ++ [{ v with self := p, vmMm := dst.self }] } s₁ hready
        refine ⟨hself, hres.imp ?_ id⟩
        rintro ⟨h0, l', he, hf, hm⟩
        refine ⟨h0, { v with self := p, vmMm := dst.self } :: l', ?_, ?_, ?_⟩
        · rw [he, List.append_assoc]
          rfl
        · rw [List.map_cons, List.map_cons, hf]
          rfl
        · exact List.forall_mem_cons.mpr ⟨rfl, hm⟩

/-- Being in order depends on the fields and the manager only. -/
theorem areasOk_of_fields {id id' : Nat} {l l' : List VmArea} (h : AreasOk id l)
    (hf : l'.map VmArea.fields = l.map VmArea.fields) (hm : ∀ v ∈ l', v.vmMm = id') :
    AreasOk id' l' := by
  induction l generalizing l' with
  | nil =>
      obtain rfl : l' = [] := by simpa using hf
      exact areasOk_nil id'
  | cons v l ih =>
      cases l' with
      | nil => exact absurd hf (by simp)
      | cons w l' =>
          obtain ⟨hv, hord, hl⟩ := areasOk_cons.mp h
          simp only [List.map_cons, List.cons.injEq] at hf
          obtain ⟨hvw, hf⟩ := hf
          have h1 : w.start = v.start := congrArg (fun f => f.1) hvw
          have h2 : w.stop = v.stop := congrArg (fun f => f.2.1) hvw
          refine areasOk_cons.mpr ⟨⟨h1 ▸ hv.startAligned, h2 ▸ hv.stopAligned, h1 ▸ hv.lower,
            h1 ▸ h2 ▸ hv.lt, h2 ▸ hv.upper, hm w (by simp)⟩, fun x hx => ?_,
            ih hl hf (fun x hx => hm x (by simp [hx]))⟩
          have hmem : x.fields ∈ l.map VmArea.fields := by
            rw [← hf]; exact List.mem_map_of_mem hx
          obtain ⟨y, hy, hyx⟩ := List.mem_map.mp hmem
          have h3 : y.start = x.start := congrArg (fun f => f.1) hyx
          rw [h2, ← h3]
          exact hord y hy

/-- **`vma_clone_all`** into a fresh manager lists what the source lists, or nothing. -/
theorem vmaCloneAll_spec {src dst : Lmm} (s : σ) (hsrc : src.listReady = true)
    (hdst : lmmInit dst = dst) (hne : src.self ≠ dst.self) :
    (vmaCloneAll env src dst s).1.self = dst.self ∧
    (((vmaCloneAll env src dst s).2.2 = 0 ∧
        (vmaCloneAll env src dst s).1.vmaList.map VmArea.fields
          = src.vmaList.map VmArea.fields ∧
        ∀ v ∈ (vmaCloneAll env src dst s).1.vmaList, v.vmMm = dst.self) ∨
      ((vmaCloneAll env src dst s).2.2 = -(ENOMEM : Int) ∧
        (vmaCloneAll env src dst s).1.vmaList = [])) := by
  have hready : dst.listReady = true := by rw [← hdst]; rfl
  have hempty : dst.vmaList = [] := by rw [← hdst]; rfl
  unfold vmaCloneAll
  rw [if_neg (by simp [hne, hsrc, hready])]
  obtain ⟨hself, hres⟩ := cloneLoop_spec env src.vmaList dst s hready
  refine ⟨hself, hres.imp ?_ id⟩
  rintro ⟨h0, l', he, hf, hm⟩
  rw [hempty, List.nil_append] at he
  rw [he]
  exact ⟨h0, hf, hm⟩

end

/-! ## Runs -/

/-- The managers by their addresses, and the rest of the kernel. -/
structure VmaState (σ : Type) where
  lmm : Nat → Option Lmm
  rest : σ

/-- The manager at `id` and the rest of the kernel replaced. -/
def VmaState.set {σ : Type} (s : VmaState σ) (id : Nat) (mm : Lmm) (rest : σ) : VmaState σ :=
  ⟨Function.update s.lmm id (some mm), rest⟩

theorem VmaState.set_lmm_self {σ : Type} (s : VmaState σ) (id : Nat) (mm : Lmm) (rest : σ) :
    (s.set id mm rest).lmm id = some mm := Function.update_self ..

theorem VmaState.set_lmm_ne {σ : Type} (s : VmaState σ) {id j : Nat} (h : j ≠ id) (mm : Lmm)
    (rest : σ) : (s.set id mm rest).lmm j = s.lmm j := Function.update_of_ne h ..

/-- `vma_clone_all` from the manager at `i` into the manager at `j`. -/
def VmaState.clone {σ : Type} (env : VmaEnv σ) (s : VmaState σ) (i j : Nat) :
    VmaState σ × Int :=
  match s.lmm i, s.lmm j with
  | some src, some dst =>
      let r := vmaCloneAll env src dst s.rest
      (s.set j r.1 r.2.1, r.2.2)
  | _, _ => (s, -(EINVAL : Int))

/-- One call, by a task with the manager at `id`. The destination of a clone is fresh. What the
other parts of the kernel do to `rest` is any change. -/
inductive VmaStep {σ : Type} (env : VmaEnv σ) : VmaState σ → VmaState σ → Prop
  | init {s : VmaState σ} (mm : Lmm) (h : s.lmm mm.self = none) :
      VmaStep env s (s.set mm.self (lmmInit mm) s.rest)
  | mmap {s : VmaState σ} {id : Nat} {mm : Lmm} (h : s.lmm id = some mm) (a : MmapArgs) :
      VmaStep env s (s.set id (doMmap env mm a s.rest).1 (doMmap env mm a s.rest).2.1)
  | munmap {s : VmaState σ} {id : Nat} {mm : Lmm} (h : s.lmm id = some mm) (addr len : Nat) :
      VmaStep env s (s.set id (doMunmap env mm addr len s.rest).1
        (doMunmap env mm addr len s.rest).2.1)
  | insert {s : VmaState σ} {id : Nat} {mm : Lmm} (h : s.lmm id = some mm) (v : VmArea)
      (hv : ∀ j mm', s.lmm j = some mm' → ∀ w ∈ mm'.vmaList, w.self ≠ v.self) :
      VmaStep env s (s.set id (insertVma mm v).1 s.rest)
  | clone {s : VmaState σ} {i j : Nat} {src dst : Lmm} (hi : s.lmm i = some src)
      (hj : s.lmm j = some dst) (hfresh : lmmInit dst = dst) : VmaStep env s (s.clone env i j).1
  | other {s : VmaState σ} (rest : σ) : VmaStep env s ⟨s.lmm, rest⟩

/-- The states reached from one without managers. -/
inductive VmaReachable {σ : Type} (env : VmaEnv σ) : VmaState σ → Prop
  | start (rest : σ) : VmaReachable env ⟨fun _ => none, rest⟩
  | step {s s' : VmaState σ} (h : VmaReachable env s) (hs : VmaStep env s s') :
      VmaReachable env s'

section

variable {σ : Type} {env : VmaEnv σ} {s s' : VmaState σ}

/-- A manager is where it says, and its list is in order. -/
structure LmmOk (id : Nat) (mm : Lmm) : Prop where
  self : mm.self = id
  ready : mm.listReady = true
  areas : AreasOk id mm.vmaList

theorem insertVma_ready (mm : Lmm) (v : VmArea) : (insertVma mm v).1.listReady = mm.listReady := by
  unfold insertVma
  split
  · cases insertLoop { v with vmMm := mm.self } mm.vmaList <;> rfl
  · rfl

theorem doMmap_ready (env : VmaEnv σ) (mm : Lmm) (a : MmapArgs) (r : σ) :
    (doMmap env mm a r).1.listReady = mm.listReady := by
  unfold doMmap
  cases mmapCheck a with
  | error e => rfl
  | ok len =>
      dsimp only
      split
      · rfl
      · split
        · rfl
        · rcases env.kmalloc r with ⟨r₁, _ | p⟩
          · rfl
          · have := insertVma_ready mm (mmapArea mm a p (getUnmappedArea mm a.addr len a.flags) len)
            dsimp only
            split <;> rename_i he <;> rw [he] at this <;> exact this

theorem doMunmap_ready (env : VmaEnv σ) (mm : Lmm) (addr len : Nat) (r : σ) :
    (doMunmap env mm addr len r).1.listReady = mm.listReady := by
  unfold doMunmap
  cases munmapCheck mm addr len <;> rfl

theorem cloneLoop_ready (env : VmaEnv σ) : ∀ (l : List VmArea) (dst : Lmm) (r : σ),
    (cloneLoop env l dst r).1.listReady = dst.listReady := by
  intro l
  induction l with
  | nil => exact fun dst r => rfl
  | cons v rest ih =>
      intro dst r
      rw [cloneLoop]
      rcases env.kmalloc r with ⟨r₁, _ | p⟩
      · dsimp only [vmaDestroyAll]
        split <;> rfl
      · exact ih _ r₁

/-- Replacing one manager by one that is in order. -/
theorem set_ok (h : ∀ id mm, s.lmm id = some mm → LmmOk id mm) {id : Nat} {mm : Lmm} (rest : σ)
    (hmm : LmmOk id mm) : ∀ j mm', (s.set id mm rest).lmm j = some mm' → LmmOk j mm' := by
  intro j mm' hj
  by_cases hji : j = id
  · subst hji
    rw [VmaState.set_lmm_self] at hj
    obtain rfl := Option.some.inj hj
    exact hmm
  · rw [VmaState.set_lmm_ne s hji] at hj
    exact h j mm' hj

theorem vmaStep_ok (h : ∀ id mm, s.lmm id = some mm → LmmOk id mm) (hs : VmaStep env s s') :
    ∀ id mm, s'.lmm id = some mm → LmmOk id mm := by
  cases hs with
  | init mm _ => exact set_ok h s.rest ⟨rfl, rfl, areasOk_nil _⟩
  | @mmap id mm hid a =>
      obtain ⟨rfl, hr, ha⟩ := h id mm hid
      obtain ⟨h1, h2⟩ := doMmap_ok env ha a s.rest
      exact set_ok h _ ⟨h2, by rw [doMmap_ready]; exact hr, h2 ▸ h1⟩
  | @munmap id mm hid addr len =>
      obtain ⟨rfl, hr, ha⟩ := h id mm hid
      obtain ⟨h1, h2⟩ := doMunmap_ok env ha addr len s.rest
      exact set_ok h _ ⟨h2, by rw [doMunmap_ready]; exact hr, h2 ▸ h1⟩
  | @insert id mm hid v hv =>
      obtain ⟨rfl, hr, ha⟩ := h id mm hid
      obtain ⟨h1, h2⟩ := insertVma_ok ha v
      exact set_ok h _ ⟨h2, by rw [insertVma_ready]; exact hr, h2 ▸ h1⟩
  | @clone i j src dst hi hj hfresh =>
      obtain ⟨rfl, hr, ha⟩ := h i src hi
      obtain ⟨rfl, hr', ha'⟩ := h j dst hj
      have hclone : (s.clone env src.self dst.self).1 = s.set dst.self
          (vmaCloneAll env src dst s.rest).1 (vmaCloneAll env src dst s.rest).2.1 := by
        unfold VmaState.clone
        rw [hi, hj]
      rw [hclone]
      refine set_ok h _ ?_
      by_cases hne : src.self = dst.self
      · unfold vmaCloneAll
        rw [if_pos (Or.inl hne)]
        exact ⟨rfl, hr', ha'⟩
      · obtain ⟨h1, h2⟩ := vmaCloneAll_spec env s.rest hr hfresh hne
        refine ⟨h1, ?_, ?_⟩
        · unfold vmaCloneAll
          split
          · exact hr'
          · rw [cloneLoop_ready]; exact hr'
        · rcases h2 with ⟨-, hf, hm⟩ | ⟨-, he⟩
          · exact areasOk_of_fields ha hf hm
          · rw [he]; exact areasOk_nil _
  | other rest => exact h

theorem VmaReachable.ok (h : VmaReachable env s) : ∀ id mm, s.lmm id = some mm → LmmOk id mm := by
  induction h with
  | start rest => exact fun id mm hid => absurd hid (by simp)
  | step _ hs ih => exact vmaStep_ok ih hs

end

/-- **The lists of areas.** In every state a run reaches, each manager's list is strictly sorted
and disjoint, and its areas are aligned, in user space and the manager's own; and a clone into a
fresh manager lists what the source lists or fails and leaves nothing, the source being unchanged
either way. -/
theorem vma_lists_ok {σ : Type} {env : VmaEnv σ} {s : VmaState σ} (h : VmaReachable env s) :
    (∀ id mm, s.lmm id = some mm →
      mm.vmaList.Pairwise (fun a b => a.start < b.start) ∧
      mm.vmaList.Pairwise (fun a b => a.stop ≤ b.start) ∧
      ∀ v ∈ mm.vmaList, PAGE_4K_SIZE ∣ v.start ∧ PAGE_4K_SIZE ∣ v.stop ∧
        PAGE_4K_SIZE ≤ v.start ∧ v.start < v.stop ∧ v.stop ≤ USER_LIMIT ∧ v.vmMm = id) ∧
    (∀ i j src dst, s.lmm i = some src → s.lmm j = some dst → i ≠ j → lmmInit dst = dst →
      (s.clone env i j).1.lmm i = some src ∧
      ∃ dst', (s.clone env i j).1.lmm j = some dst' ∧
        (((s.clone env i j).2 = 0 ∧
            dst'.vmaList.map VmArea.fields = src.vmaList.map VmArea.fields) ∨
          ((s.clone env i j).2 = -(ENOMEM : Int) ∧ dst'.vmaList = []))) := by
  have hok := h.ok
  refine ⟨fun id mm hid => ?_, fun i j src dst hi hj hij hfresh => ?_⟩
  · obtain ⟨-, -, ha⟩ := hok id mm hid
    refine ⟨ha.ordered.imp_of_mem (fun hv _ hle => (ha.areas _ hv).lt.trans_le hle), ha.ordered,
      fun v hv => ?_⟩
    have := ha.areas v hv
    exact ⟨this.startAligned, this.stopAligned, this.lower, this.lt, this.upper, this.mm⟩
  · obtain ⟨hsi, hr, -⟩ := hok i src hi
    obtain ⟨hsj, -, -⟩ := hok j dst hj
    have hclone : s.clone env i j = (s.set j (vmaCloneAll env src dst s.rest).1
        (vmaCloneAll env src dst s.rest).2.1, (vmaCloneAll env src dst s.rest).2.2) := by
      unfold VmaState.clone
      rw [hi, hj]
    rw [hclone]
    refine ⟨?_, (vmaCloneAll env src dst s.rest).1, VmaState.set_lmm_self .., ?_⟩
    · rw [VmaState.set_lmm_ne s hij, hi]
    · obtain ⟨-, h2⟩ := vmaCloneAll_spec env s.rest hr hfresh (by rw [hsi, hsj]; exact hij)
      exact h2.imp (fun h => ⟨h.1, h.2.1⟩) id

/-- An environment in which `kmalloc` returns the addresses 128, 256 and so on. -/
def exampleEnv : VmaEnv Nat where
  kmalloc s := (s + 128, some (s + 128))
  kfree s _ := s
  unmapAnonymousPages s _ _ _ := s

theorem vma_lists_ok_example :
    ∃ s : VmaState Nat, VmaReachable exampleEnv s ∧
      (∃ mm, s.lmm 64 = some mm ∧ mm.vmaList.map VmArea.start = [0x2000, 0x5000]) ∧
      ∀ id mm, s.lmm id = some mm → mm.vmaList.Pairwise (fun a b => a.stop ≤ b.start) := by
  -- map `[0x2000, 0x6000)` and unmap the middle
  let mm : Lmm := ⟨64, 0x1000, 0, false, []⟩
  let s₀ : VmaState Nat := ⟨fun _ => none, 0⟩
  let a : MmapArgs := ⟨none, 0x2000, 0x4000, 3, 0x22, 0, 0⟩
  let s₁ := s₀.set 64 (lmmInit mm) 0
  let r₁ := doMmap exampleEnv (lmmInit mm) a 0
  let s₂ := s₁.set 64 r₁.1 r₁.2.1
  let r₂ := doMunmap exampleEnv r₁.1 0x3000 0x2000 r₁.2.1
  have h₁ : VmaReachable exampleEnv s₁ := (VmaReachable.start 0).step (VmaStep.init mm rfl)
  have h₂ : VmaReachable exampleEnv s₂ := h₁.step (VmaStep.mmap (s₀.set_lmm_self ..) a)
  have h₃ : VmaReachable exampleEnv (s₂.set 64 r₂.1 r₂.2.1) :=
    h₂.step (VmaStep.munmap (s₁.set_lmm_self ..) 0x3000 0x2000)
  refine ⟨_, h₃, ⟨r₂.1, s₂.set_lmm_self .., by decide +kernel⟩, fun id mm hid => ?_⟩
  exact ((vma_lists_ok h₃).1 id mm hid).2.1

end Talios
