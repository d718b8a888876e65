import Talios.Mm.FreeTablesTree

set_option autoImplicit false

/-! # Freeing a well-formed user half

Where no bitmap of the heap lies on the tables, `FreeUserPageTables` gives back every frame, every block
of 2 MiB and every table of the user half once, and nothing else. Where one does, a `kfree` may change an
entry that has not been visited yet, and the frame it named is lost.
-/

namespace Talios

open Word Bitmap Dyadic Radix

/-! ## The user half -/

/-- A well-formed user half: the frames and blocks its leaves name are handed out, each to one leaf, and
its tables are different objects of `kmalloc`, none of them the first table. -/
structure UserHalf (m₀ : MMS) (s : KMem) (live : List Obj) (out : Nat → Nat) (pgd : Nat) : Prop where
  aligned : PAGE_4K_SIZE ∣ pgd
  entries : UserEntries s.word pgd
  ok : ∀ r ∈ userLog s.word pgd, r.Ok m₀
  once : ∀ x, framesOf (userLog s.word pgd) x ≤ out x
  objects : ∀ p ∈ tablesOf (userLog s.word pgd), (⟨p, PAGE_4K_SIZE⟩ : Obj) ∈ live
  distinct : (phyToVirt pgd :: tablesOf (userLog s.word pgd)).Nodup

/-- No bitmap of the heap lies on the first table or on one of the user half. -/
def TablesOffMaps (s : KMem) (pgd : Nat) : Prop :=
  ∀ a, (userRoot pgd ≤ a ∧ a < userRoot pgd + 512) ∨ InTables (userLog s.word pgd) a → ¬ s.MapWord a

/-- **The user half is freed.** `r` is the state after the call, with the calls it made. -/
structure UserHalfFreed (m₀ : MMS) (pool : Nat → Slab) (s : KMem) (live : List Obj) (out : Nat → Nat)
    (pgd : Nat) (r : TableFreeing) : Prop where
  unmapped : ∀ v < USER_LIMIT, translate r.mem.word pgd v = none
  frames : ∀ v < USER_LIMIT, ∀ tr, translate s.word pgd v = some tr → framesOf r.log tr.frame = 1
  mapped : ∀ x, framesOf r.log x ≠ 0 → ∃ v < USER_LIMIT, ∃ tr, translate s.word pgd v = some tr ∧
    tr.frame = x
  tables : ∀ l k t, 1 ≤ l → l ≤ 3 → userTables.node s.word (userRoot pgd) l k = some t →
    (tablesOf r.log).count (8 * t) = 1
  nodes : ∀ p ∈ tablesOf r.log, ∃ l k, 1 ≤ l ∧ l ≤ 3 ∧
    userTables.node s.word (userRoot pgd) l k = some (p / 8)
  kernel : ∀ i, 256 ≤ i → i < 512 → r.mem.word (userRoot pgd + i) = s.word (userRoot pgd + i)
  heap : ∃ live', live.Perm (tableObjs r.log ++ live') ∧ phyToVirt pgd ∉ tablesOf r.log ∧
    Holds m₀ pool r.mem live' (fun x => out x - framesOf r.log x)

section

variable {m₀ : MMS} {pool : Nat → Slab} {s : KMem} {live : List Obj} {out : Nat → Nat} {pgd : Nat}
  {log : List TableRelease}

/-! ## Logs and frames -/

theorem framesOf_ne_zero {x : Nat} : framesOf log x ≠ 0 ↔ ∃ r ∈ log, r.covers x ≠ 0 := by
  induction log with
  | nil => simp [framesOf]
  | cons r log ih =>
      have hcons : framesOf (r :: log) x = r.covers x + framesOf log x := by simp [framesOf]
      rw [hcons, List.exists_mem_cons_iff, ← ih]
      omega

/-- A frame that is given back belongs to a zone. -/
theorem TableRelease.Ok.zone {r : TableRelease} (h : r.Ok m₀) {x : Nat} (hx : r.covers x ≠ 0) :
    ∃ zi < m₀.zonesCount, (m₀.zone zi).Has x := by
  cases r with
  | frame p =>
      obtain ⟨zi, hz, hin⟩ := BlockOk.zone h
      obtain rfl := covers_frame.mp hx
      exact ⟨zi, hz, hin _ (mem_self _ 0)⟩
  | block p =>
      obtain ⟨zi, hz, hin⟩ := BlockOk.zone h
      exact ⟨zi, hz, hin _ (covers_block.mp hx)⟩
  | table p => exact absurd rfl hx

/-- A frame is handed out once. -/
theorem Holds.out_le_one (h : Holds m₀ pool s live out) {x : Nat}
    (hz : ∃ zi < m₀.zonesCount, (m₀.zone zi).Has x) : out x ≤ 1 := by
  obtain ⟨near, astray, -, hpart⟩ := h
  rcases Nat.eq_zero_or_pos (out x) with h0 | hpos
  · omega
  · have hheld := (hpart.heap.toHeapCore.held (x := x) ⟨hz, Nat.lt_of_lt_of_le hpos (Nat.le_add_right _ _)⟩).1
    omega

/-- A frame of a user half is given back once. -/
theorem UserHalf.framesOf_eq_one (h : Holds m₀ pool s live out) (hu : UserHalf m₀ s live out pgd) {x : Nat}
    (hx : framesOf (userLog s.word pgd) x ≠ 0) : framesOf (userLog s.word pgd) x = 1 := by
  obtain ⟨r, hr, hc⟩ := framesOf_ne_zero.mp hx
  have h1 := h.out_le_one ((hu.ok r hr).zone hc)
  have h2 := hu.once x
  omega

/-! ## The call -/

theorem UserHalf.root (hu : UserHalf m₀ s live out pgd) :
    phyToVirt (alignDown PAGE_4K_SIZE pgd) = 8 * userRoot pgd ∧ PAGE_4K_SIZE ∣ 8 * userRoot pgd := by
  have hal : alignDown PAGE_4K_SIZE pgd = pgd := Nat.div_mul_cancel hu.aligned
  obtain ⟨q, hq⟩ := hu.aligned
  rw [hal, userRoot]
  unfold phyToVirt PAGE_OFFSET PAGE_4K_SIZE PAGE_4K_SHIFT at *
  constructor
  · omega
  · omega

/-- The tables are among the objects. -/
theorem UserHalf.perm (hu : UserHalf m₀ s live out pgd) :
    ∃ live', live.Perm (tableObjs (userLog s.word pgd) ++ live') := by
  have hobjs : (tableObjs (userLog s.word pgd)).Nodup :=
    (List.nodup_cons.mp hu.distinct).2.map (fun p q he => congrArg Obj.ptr he)
  have hsub : tableObjs (userLog s.word pgd) ⊆ live := by
    intro b hb
    obtain ⟨p, hp, rfl⟩ := List.mem_map.mp hb
    exact hu.objects p hp
  exact ⟨_, (List.subperm_append_diff_self_of_count_le
    (List.subperm_ext_iff.mp (hobjs.subperm hsub))).symm⟩

/-- The heap owns the user half. -/
theorem UserHalf.owned (h : Holds m₀ pool s live out) (hu : UserHalf m₀ s live out pgd)
    (hmap : TablesOffMaps s pgd) : ∃ live', live.Perm (tableObjs (userLog s.word pgd) ++ live') ∧
      Owned m₀ pool s (userLog s.word pgd) live'
        (fun x => out x - framesOf (userLog s.word pgd) x) := by
  have hnd := (List.nodup_cons.mp hu.distinct).2
  obtain ⟨live', hperm⟩ := hu.perm
  refine ⟨_, hperm, ?_, hu.ok, hnd, fun a ha => hmap a (Or.inr ha)⟩
  have hout : (fun x => framesOf (userLog s.word pgd) x + (out x - framesOf (userLog s.word pgd) x))
      = out := by
    funext x
    exact Nat.add_sub_cancel' (hu.once x)
  rw [hout]
  exact h.perm hperm

/-- The first table is none of those below it. -/
theorem UserHalf.root_apart (hu : UserHalf m₀ s live out pgd) {i : Nat} (hi : i < 512) :
    ¬ InTables (userLog s.word pgd) (userRoot pgd + i) := by
  rintro ⟨p, hp, h1⟩
  obtain ⟨hr, hal⟩ := hu.root
  have hpal : PAGE_4K_SIZE ∣ p := by
    obtain ⟨r, hr, he⟩ := List.mem_filterMap.mp hp
    cases r with
    | frame _ => exact absurd he (by simp [TableRelease.ptr?])
    | block _ => exact absurd he (by simp [TableRelease.ptr?])
    | table q =>
        obtain rfl := Option.some.inj he
        exact hu.ok _ hr
  have he : 8 * userRoot pgd = p :=
    eq_of_word hal hpal (a := userRoot pgd + i) ⟨by omega, by omega⟩ h1
  refine (List.nodup_cons.mp hu.distinct).1 ?_
  have hv : phyToVirt pgd = 8 * userRoot pgd := by
    rw [← hr, show alignDown PAGE_4K_SIZE pgd = pgd from Nat.div_mul_cancel hu.aligned]
  rw [hv, he]
  exact hp

/-- **The loop over the first table.** -/
theorem UserHalf.loop (hd : DirectMap m₀ pool) (h : Holds m₀ pool s live out)
    (hu : UserHalf m₀ s live out pgd) (hmap : TablesOffMaps s pgd) :
    ∃ s' live', live.Perm (tableObjs (userLog s.word pgd) ++ live') ∧
      freeUserPageTables s pgd = some ⟨s', userLog s.word pgd⟩ ∧
      Holds m₀ pool s' live' (fun x => out x - framesOf (userLog s.word pgd) x) ∧
      (∀ i < 256, s'.word (userRoot pgd + i) = 0) ∧
      ∀ i, 256 ≤ i → i < 512 → s'.word (userRoot pgd + i) = s.word (userRoot pgd + i) := by
  obtain ⟨live', hperm, howned⟩ := hu.owned h hmap
  obtain ⟨hr, hal⟩ := hu.root
  have hdiv : 8 * userRoot pgd / 8 = userRoot pgd := Nat.mul_div_cancel_left _ (by decide)
  have hoff : ∀ i < 512, ¬ s.MapWord (userRoot pgd + i) :=
    fun i hi => hmap _ (Or.inl ⟨by omega, by omega⟩)
  have hloop := (freePml4e_spec hd).loop s.word hal live'
    (fun x => out x - framesOf (userLog s.word pgd) x) (List.range 256) List.nodup_range s []
  have hlog : (List.range 256).flatMap (fun i => pml4eLog s.word (s.word (userRoot pgd + i)))
      = userLog s.word pgd := by rw [userLog]
  rw [hdiv, hlog, List.nil_append] at hloop
  have hin : ∀ i ∈ List.range 256, i < 256 := fun i hi => List.mem_range.mp hi
  obtain ⟨s', h1, hrel, hgone⟩ := hloop howned (fun _ _ => rfl) (fun _ _ => rfl)
    (fun i hi => hoff i (by have := hin i hi; omega))
    (fun i hi => hu.root_apart (by have := hin i hi; omega))
  refine ⟨s', live', hperm, ?_, hrel.holds, fun i hi => ?_, fun i h256 h512 => ?_⟩
  · rw [freeUserPageTables, hr]
    exact h1
  · -- an entry that was passed over was zero
    rcases hgone i (List.mem_range.mpr hi) with h0 | ⟨hlog, hsame⟩
    · exact h0
    · rw [hsame]
      have hroot : userTables.node s.word (userRoot pgd) 0 0 = some (userRoot pgd) := rfl
      cases hu.entries.kind (l := 0) (d := 2) rfl hroot hi with
      | empty hz _ => exact hz
      | block hd2 => exact absurd hd2 (by decide)
      | table _ _ _ hlog' =>
          have hx : tableLog (levelLog 2) s.word (8 * childWord (s.word (userRoot pgd + i))) = [] :=
            hlog'.symm.trans hlog
          exact absurd hx (by simp [tableLog])
  · refine hrel.word _ (hoff i h512) ?_
    rintro (⟨j, hj, he⟩ | ha)
    · have := hin j hj
      omega
    · exact hu.root_apart h512 ha

/-- A first entry that is zero translates nothing. -/
theorem translate_of_zero {w : Memory} (hr : phyToVirt (alignDown PAGE_4K_SIZE pgd) = 8 * userRoot pgd)
    {v : Nat} (hz : w (userRoot pgd + getBits v PAGE_GDT_SHIFT 9) = 0) : translate w pgd v = none := by
  rw [translate, hr, translateFrom, entry_word, hz]
  rfl

/-- **The frames of the user half** are those that the processor finds for some address. -/
theorem UserEntries.framesOf_iff {w : Memory} (h : UserEntries w pgd)
    (hr : phyToVirt (alignDown PAGE_4K_SIZE pgd) = 8 * userRoot pgd) {x : Nat} :
    framesOf (userLog w pgd) x ≠ 0 ↔
      ∃ v < USER_LIMIT, ∃ tr, translate w pgd v = some tr ∧ tr.frame = x := by
  have hroot : userTables.node w (userRoot pgd) 0 0 = some (userRoot pgd) := rfl
  constructor
  · intro hx
    obtain ⟨r, hmem, hc⟩ := framesOf_ne_zero.mp hx
    rw [userLog] at hmem
    obtain ⟨i, hi, hmem⟩ := List.mem_flatMap.mp hmem
    have hi' : i < 256 := List.mem_range.mp hi
    obtain ⟨v, hv, htr⟩ := h.log_translate 3 0 0 _ i rfl hroot hi' r hmem x hc
    have hlt : v < USER_LIMIT := by
      unfold USER_LIMIT
      omega
    obtain ⟨tr, htr, hf⟩ := htr true true
    refine ⟨v, hlt, tr, ?_, hf⟩
    rw [translate, hr]
    exact htr
  · rintro ⟨v, hv, tr, htr, rfl⟩
    have hnum : nodeNumber v 3 = 0 := by
      unfold nodeNumber USER_LIMIT at *
      omega
    rw [translate, hr] at htr
    obtain ⟨r, hmem, hc⟩ := h.translate_log hv 3 0 _ rfl (by rw [hnum]; exact hroot) _ _ tr htr
    refine framesOf_ne_zero.mpr ⟨r, ?_, hc⟩
    rw [userLog]
    exact List.mem_flatMap.mpr ⟨_, List.mem_range.mpr (index_lt_width (l := 0) (d := 2) hv rfl), hmem⟩

/-- **`FreeUserPageTables`** on a well-formed user half off the bitmaps. -/
theorem Holds.freeUserPageTables (hd : DirectMap m₀ pool) (h : Holds m₀ pool s live out)
    (hu : UserHalf m₀ s live out pgd) (hmap : TablesOffMaps s pgd) :
    ∃ r, Talios.freeUserPageTables s pgd = some r ∧ UserHalfFreed m₀ pool s live out pgd r := by
  obtain ⟨s', live', hperm, he, hholds, hzero, hkernel⟩ := hu.loop hd h hmap
  obtain ⟨hr, hal⟩ := hu.root
  obtain ⟨hnot, hnd⟩ := List.nodup_cons.mp hu.distinct
  have hframes := fun x => @UserEntries.framesOf_iff pgd s.word hu.entries hr x
  refine ⟨_, he, ⟨fun v hv => ?_, fun v hv tr htr => ?_, fun x hx => (hframes x).mp hx,
    fun l k t h1 h3 ht => List.count_eq_one_of_mem hnd (hu.entries.node_mem h1 h3 ht),
    fun p hp => hu.entries.userLog_node hp, hkernel, live', hperm, hnot, hholds⟩⟩
  · exact translate_of_zero hr (hzero _ (index_lt_width (l := 0) (d := 2) hv rfl))
  · exact hu.framesOf_eq_one h ((hframes _).mpr ⟨v, hv, tr, htr, rfl⟩)

end

end Talios
