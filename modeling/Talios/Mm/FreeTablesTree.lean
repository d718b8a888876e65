import Talios.Mm.FreeTablesStep

set_option autoImplicit false

/-! # What the user half of the tables holds

`userLog` against the tree: the tables in it are the nodes below the first table, the frames in it are
those that the processor finds for some address of user space.
-/

namespace Talios

open Word Bitmap Dyadic Radix

/-! ## Entries above the last table -/

/-- An entry at level `l`: zero, the address of a table, or a block of 2 MiB in a page directory. -/
def UserEntry (l : Nat) (e : BitVec 64) : Prop :=
  e = 0 ∨ entryHas e PEA_PRESENT = true ∧ (entryHas e PEA_PAGE_SIZE = true → l = 2)

/-- What an entry with `d` tables below it on the way to a leaf holds. -/
def levelLog : Nat → Memory → BitVec 64 → List TableRelease
  | 0 => pteLog
  | 1 => pdeLog
  | 2 => pdpteLog
  | _ => pml4eLog

section

variable {w : Memory} {pgd l d k t i : Nat} {e : BitVec 64}

theorem levelLog_zero (w : Memory) (d : Nat) : levelLog d w 0 = [] := by
  match d with
  | 0 => rfl
  | 1 => exact (if_pos rfl : pdeLog w 0 = [])
  | 2 => exact (if_pos (Or.inl rfl) : pdpteLog w 0 = [])
  | _ + 3 => exact (if_pos (Or.inl rfl) : pml4eLog w 0 = [])

/-- The first word of the table an entry names. -/
def childWord (e : BitVec 64) : Nat := tableFromEntry e / 8

theorem childWord_eq (e : BitVec 64) : 8 * childWord e = tableFromEntry e :=
  Nat.mul_div_cancel' (Dvd.dvd.trans (by decide) (tableFromEntry_aligned e))

theorem entryHas_eq_true {f : BitVec 64} : entryHas e f = true ↔ e &&& f ≠ 0 := by
  simp [entryHas]

/-- What an entry holds, by its kind. -/
inductive EntryKind (w : Memory) (d : Nat) (e : BitVec 64) : Prop
  | empty (hz : e = 0) (hlog : levelLog (d + 1) w e = [])
  | block (hd : d = 0) (hpr : entryHas e PEA_PRESENT = true) (hps : entryHas e PEA_PAGE_SIZE = true)
      (hlog : levelLog (d + 1) w e = [.block (blockOf e)])
  | table (hpr : entryHas e PEA_PRESENT = true) (hps : entryHas e PEA_PAGE_SIZE = false)
      (hchild : userTables.child e = some (childWord e))
      (hlog : levelLog (d + 1) w e = tableLog (levelLog d) w (8 * childWord e))

theorem UserEntry.kind (h : UserEntry l e) (hl : l + (d + 1) = 3) (w : Memory) : EntryKind w d e := by
  rcases h with rfl | ⟨hpr, hlarge⟩
  · exact .empty rfl (levelLog_zero w _)
  have hz : e ≠ 0 := ne_zero_of_entryHas hpr
  by_cases hps : entryHas e PEA_PAGE_SIZE = true
  · obtain rfl : d = 0 := by
      have := hlarge hps
      omega
    refine .block rfl hpr hps ?_
    show pdeLog w e = _
    rw [pdeLog, if_neg hz, if_pos (entryHas_eq_true.mp hps)]
  · have hps' : entryHas e PEA_PAGE_SIZE = false := Bool.eq_false_iff.mpr hps
    have hgo : ¬ (e = 0 ∨ e &&& PEA_PAGE_SIZE ≠ 0) := by
      rintro (h0 | h0)
      · exact hz h0
      · exact hps (entryHas_eq_true.mpr h0)
    refine .table hpr hps' (if_neg hgo) ?_
    rw [childWord_eq]
    obtain rfl | rfl | rfl : d = 0 ∨ d = 1 ∨ d = 2 := by omega
    · show pdeLog w e = _
      rw [pdeLog, if_neg hz, if_neg (not_not.mpr (entryHas_eq_false.mp hps'))]
      rfl
    · exact if_neg hgo
    · exact if_neg hgo

/-- The entries above the last tables. -/
def UserEntries (w : Memory) (pgd : Nat) : Prop :=
  ∀ l < 3, ∀ k t, userTables.node w (userRoot pgd) l k = some t → ∀ i < userTables.width l,
    UserEntry l (w (t + i))

theorem UserEntries.kind (h : UserEntries w pgd) (hl : l + (d + 1) = 3)
    (ht : userTables.node w (userRoot pgd) l k = some t) (hi : i < userTables.width l) :
    EntryKind w d (w (t + i)) :=
  (h l (by omega) k t ht i hi).kind hl w

/-! ## Tables -/

theorem tablesOf_flatMap {α : Type} (f : α → List TableRelease) (is : List α) :
    tablesOf (is.flatMap f) = is.flatMap (fun i => tablesOf (f i)) := by
  simp [tablesOf, List.filterMap_flatMap]

theorem mem_tablesOf_tableLog {L : Memory → BitVec 64 → List TableRelease} {p : Nat} :
    p ∈ tablesOf (tableLog L w (8 * t)) ↔
      p = 8 * t ∨ ∃ i < 512, p ∈ tablesOf (L w (w (t + i))) := by
  rw [tableLog, tablesOf_append, tablesOf_flatMap, tablesOf_table, List.mem_append, List.mem_flatMap,
    List.mem_singleton, Nat.mul_div_cancel_left _ (by decide : 0 < 8), or_comm]
  simp only [List.mem_range]

theorem tablesOf_pteLog (w : Memory) (e : BitVec 64) : tablesOf (pteLog w e) = [] := by
  rw [pteLog]
  split
  · rfl
  · rfl

/-- **The tables below a node** are nodes. -/
theorem UserEntries.log_node (h : UserEntries w pgd) : ∀ d l k t, l + d = 3 → 1 ≤ l →
    userTables.node w (userRoot pgd) l k = some t →
    ∀ p ∈ tablesOf (tableLog (levelLog d) w (8 * t)), ∃ l' k', 1 ≤ l' ∧ l' ≤ 3 ∧
      userTables.node w (userRoot pgd) l' k' = some (p / 8) := by
  intro d
  induction d with
  | zero =>
      intro l k t hl h1 ht p hp
      rcases mem_tablesOf_tableLog.mp hp with rfl | ⟨i, -, hi⟩
      · refine ⟨l, k, h1, by omega, ?_⟩
        rw [Nat.mul_div_cancel_left _ (by decide : 0 < 8)]
        exact ht
      · rw [show levelLog 0 = pteLog from rfl, tablesOf_pteLog] at hi
        exact absurd hi (by simp)
  | succ d ih =>
      intro l k t hl h1 ht p hp
      rcases mem_tablesOf_tableLog.mp hp with rfl | ⟨i, hi, hmem⟩
      · refine ⟨l, k, h1, by omega, ?_⟩
        rw [Nat.mul_div_cancel_left _ (by decide : 0 < 8)]
        exact ht
      · have hwidth : i < userTables.width l := by
          rw [Tree.width, if_neg (by omega)]
          exact hi
        cases h.kind hl ht hwidth with
        | empty _ hlog =>
            rw [hlog] at hmem
            exact absurd hmem (by simp [tablesOf])
        | block _ _ _ hlog =>
            rw [hlog] at hmem
            exact absurd hmem (by simp [tablesOf, TableRelease.ptr?])
        | table _ _ hchild hlog =>
            rw [hlog] at hmem
            exact ih (l + 1) _ _ (by omega) (by omega)
              ((Tree.node_child (T := userTables) ht hwidth).trans hchild) p hmem

theorem UserEntries.userLog_node (h : UserEntries w pgd) {p : Nat} (hp : p ∈ tablesOf (userLog w pgd)) :
    ∃ l k, 1 ≤ l ∧ l ≤ 3 ∧ userTables.node w (userRoot pgd) l k = some (p / 8) := by
  have hroot : userTables.node w (userRoot pgd) 0 0 = some (userRoot pgd) := rfl
  rw [userLog, tablesOf_flatMap] at hp
  obtain ⟨i, hi, hmem⟩ := List.mem_flatMap.mp hp
  have hwidth : i < userTables.width 0 := List.mem_range.mp hi
  have hlevel : pml4eLog = levelLog 3 := rfl
  rw [hlevel] at hmem
  cases h.kind (l := 0) (d := 2) rfl hroot hwidth with
  | empty _ hlog =>
      rw [hlog] at hmem
      exact absurd hmem (by simp [tablesOf])
  | block hd => exact absurd hd (by decide)
  | table _ _ hchild hlog =>
      rw [hlog] at hmem
      exact h.log_node 2 1 _ _ rfl le_rfl
        ((Tree.node_child (T := userTables) hroot hwidth).trans hchild) p hmem

/-- The entry that names a node holds what the node holds. -/
theorem UserEntries.parent (h : UserEntries w pgd) (hl : l + (d + 1) = 3)
    (ht : userTables.node w (userRoot pgd) (l + 1) k = some t) : ∃ u, ∃ i < userTables.width l,
      userTables.node w (userRoot pgd) l (k / 512) = some u ∧
      levelLog (d + 1) w (w (u + i)) = tableLog (levelLog d) w (8 * t) := by
  obtain ⟨hi, u, hu, hc⟩ := Tree.node_parent ht
  refine ⟨u, k % userTables.fanout, hi, hu, ?_⟩
  cases h.kind hl hu hi with
  | empty hz _ =>
      rw [hz, userTables.child_zero] at hc
      exact absurd hc (by simp)
  | block _ _ hps _ =>
      have hnone : userTables.child (w (u + k % userTables.fanout)) = none :=
        if_pos (Or.inr (entryHas_eq_true.mp hps))
      rw [hnone] at hc
      exact absurd hc (by simp)
  | table _ _ hchild hlog =>
      obtain rfl := Option.some.inj (hc.symm.trans hchild)
      exact hlog

/-- **What a node holds** is part of what the user half holds. -/
theorem UserEntries.sublist (h : UserEntries w pgd) : ∀ l d k t, l + 1 + d = 3 →
    userTables.node w (userRoot pgd) (l + 1) k = some t →
    (tableLog (levelLog d) w (8 * t)).Sublist (userLog w pgd) := by
  intro l
  induction l with
  | zero =>
      intro d k t hl ht
      obtain rfl : d = 2 := by omega
      obtain ⟨u, i, hi, hu, hlog⟩ := @UserEntries.parent w pgd 0 2 k t h rfl ht
      obtain rfl : u = userRoot pgd := by
        change (if k / 512 = 0 then some (userRoot pgd) else none) = some u at hu
        split at hu
        · exact (Option.some.inj hu).symm
        · exact absurd hu (by simp)
      rw [← hlog, userLog, List.flatMap]
      apply List.sublist_flatten_of_mem
      exact List.mem_map.mpr ⟨i, List.mem_range.mpr hi, rfl⟩
  | succ l ih =>
      intro d k t hl ht
      obtain ⟨u, i, hi, hu, hlog⟩ := @UserEntries.parent w pgd (l + 1) d k t h (by omega) ht
      refine List.Sublist.trans ?_ (ih (d + 1) _ u (by omega) hu)
      rw [← hlog]
      conv_rhs => rw [tableLog, Nat.mul_div_cancel_left _ (by decide : 0 < 8)]
      refine List.Sublist.trans ?_ (List.sublist_append_left _ _)
      rw [List.flatMap]
      apply List.sublist_flatten_of_mem
      exact List.mem_map.mpr ⟨i, List.mem_range.mpr (hi.trans_le (Tree.width_le (l + 1))), rfl⟩

/-- **Every node below the first table** is among the tables. -/
theorem UserEntries.node_mem (h : UserEntries w pgd) (h1 : 1 ≤ l) (h3 : l ≤ 3)
    (ht : userTables.node w (userRoot pgd) l k = some t) : 8 * t ∈ tablesOf (userLog w pgd) := by
  obtain ⟨l, rfl⟩ : ∃ l', l = l' + 1 := ⟨l - 1, by omega⟩
  have hsub := h.sublist l (2 - l) k t (by omega) ht
  have hmem : 8 * t ∈ tablesOf (tableLog (levelLog (2 - l)) w (8 * t)) :=
    mem_tablesOf_tableLog.mpr (Or.inl rfl)
  exact (hsub.filterMap TableRelease.ptr?).mem hmem

/-! ## Frames -/

/-- The address in an entry of 2 MiB. -/
theorem alignDown_entryAddr (e : BitVec 64) :
    alignDown (2 ^ PAGE_2M_SHIFT) (entryAddr e) = (e &&& PAGE_2M_MASK).toNat := by
  have hmask : ∀ i < 64, PAGE_2M_MASK.getLsbD i = decide (21 ≤ i) := by decide
  refine Nat.eq_of_testBit_eq (fun i => ?_)
  rw [alignDown, PAGE_2M_SHIFT, Nat.testBit_mul_two_pow, Nat.testBit_div_two_pow]
  show _ = (e &&& PAGE_2M_MASK).getLsbD i
  by_cases hi : i < 64
  · rw [BitVec.getLsbD_and, hmask i hi]
    by_cases h21 : 21 ≤ i
    · rw [Nat.sub_add_cancel h21]
      show (_ && (e &&& PAGE_4K_MASK).getLsbD i) = _
      rw [BitVec.getLsbD_and, getLsbD_mask hi]
      simp [h21, show 12 ≤ i by omega]
    · simp [h21]
  · have h64 : 64 ≤ i := Nat.le_of_not_lt hi
    rw [BitVec.getLsbD_of_ge _ i h64, Nat.sub_add_cancel (by omega)]
    show (_ && (e &&& PAGE_4K_MASK).getLsbD i) = _
    rw [BitVec.getLsbD_of_ge _ i h64, Bool.and_false]

/-- The frame an address in a block of 2 MiB is translated to. -/
theorem blockOf_frame (e : BitVec 64) (offset : Nat) :
    page4KIndex (alignDown (2 ^ PAGE_2M_SHIFT) (entryAddr e) + offset)
      = blockOf e + offset / PAGE_4K_SIZE := by
  have hq : (e &&& PAGE_2M_MASK).toNat = alignDown (2 ^ PAGE_2M_SHIFT) (entryAddr e) :=
    (alignDown_entryAddr e).symm
  rw [blockOf, hq]
  unfold page4KIndex alignDown PAGE_2M_SHIFT PAGE_4K_SIZE PAGE_4K_SHIFT
  omega

theorem covers_frame {p x : Nat} : (TableRelease.frame p).covers x ≠ 0 ↔ x = p := by
  rw [TableRelease.covers, ind_zero]
  split
  · simp [*]
  · simp [*]

theorem covers_block {p x : Nat} : (TableRelease.block p).covers x ≠ 0 ↔ Mem p 9 x := by
  rw [TableRelease.covers, ind]
  split
  · simp [*]
  · simp [*]

theorem mem_tableLog {L : Memory → BitVec 64 → List TableRelease} {r : TableRelease} :
    r ∈ tableLog L w (8 * t) ↔ (∃ i < 512, r ∈ L w (w (t + i))) ∨ r = .table (8 * t) := by
  rw [tableLog, List.mem_append, List.mem_flatMap, List.mem_singleton,
    Nat.mul_div_cancel_left _ (by decide : 0 < 8)]
  simp only [List.mem_range]

/-- **A frame that the processor finds** is in what the entry on the way there holds. -/
theorem UserEntries.translate_log (h : UserEntries w pgd) {v : Nat} (hv : v < USER_LIMIT) :
    ∀ d l t, l + d = 3 → userTables.node w (userRoot pgd) l (nodeNumber v d) = some t →
      ∀ user writable tr, translateFrom w v (lastShifts d) (8 * t) user writable = some tr →
      ∃ r ∈ levelLog d w (w (t + getBits v (12 + 9 * d) 9)), r.covers tr.frame ≠ 0 := by
  intro d
  induction d with
  | zero =>
      intro l t hl _ user writable tr he
      rw [lastShifts, translateFrom, entry_word] at he
      split at he
      · rename_i hpr
        obtain rfl := Option.some.inj he
        refine ⟨.frame (page4KIndex (entryAddr (w (t + getBits v (12 + 9 * 0) 9)))), ?_,
          covers_frame.mpr rfl⟩
        have hpr' : w (t + getBits v (12 + 9 * 0) 9) &&& PEA_PRESENT ≠ 0 := entryHas_eq_true.mp hpr
        show _ ∈ pteLog w _
        rw [pteLog, if_pos hpr']
        exact List.mem_singleton_self _
      · exact absurd he (by simp)
  | succ d ih =>
      intro l t hl ht user writable tr he
      have hi := index_lt_width hv hl
      rw [lastShifts, translateFrom, entry_word] at he
      cases h.kind hl ht hi with
      | empty hz _ =>
          rw [hz] at he
          exact absurd he (by simp [entryHas])
      | block hd hpr hps hlog =>
          rw [hpr, hps, if_pos rfl, if_pos rfl] at he
          obtain rfl := Option.some.inj he
          rw [hlog]
          refine ⟨_, List.mem_singleton_self _, covers_block.mpr ?_⟩
          subst hd
          show Mem _ 9 (page4KIndex (alignDown (2 ^ PAGE_2M_SHIFT) _ + v % 2 ^ PAGE_2M_SHIFT))
          rw [blockOf_frame]
          unfold Mem PAGE_2M_SHIFT PAGE_4K_SIZE PAGE_4K_SHIFT
          omega
      | table hpr hps hchild hlog =>
          rw [hpr, hps, if_pos rfl, if_neg (by decide), ← childWord_eq] at he
          have hnode := (Tree.node_child (T := userTables) ht hi).trans hchild
          have hnum : nodeNumber v (d + 1) * userTables.fanout + getBits v (12 + 9 * (d + 1)) 9
              = nodeNumber v d := nodeNumber_child v d
          rw [hnum] at hnode
          obtain ⟨r, hr, hc⟩ := ih (l + 1) _ (by omega) hnode _ _ tr he
          refine ⟨r, ?_, hc⟩
          rw [hlog]
          exact mem_tableLog.mpr (Or.inl ⟨_, getBits_lt _ _, hr⟩)

/-- **A frame in what an entry holds** is found by the processor for an address below the entry. -/
theorem UserEntries.log_translate (h : UserEntries w pgd) : ∀ d l k t i, l + d = 3 →
    userTables.node w (userRoot pgd) l k = some t → i < userTables.width l →
    ∀ r ∈ levelLog d w (w (t + i)), ∀ x, r.covers x ≠ 0 → ∃ v, v / 2 ^ (12 + 9 * d) = k * 512 + i ∧
      ∀ user writable, ∃ tr, translateFrom w v (lastShifts d) (8 * t) user writable = some tr ∧
        tr.frame = x := by
  intro d
  induction d with
  | zero =>
      intro l k t i hl _ hi r hr x hx
      have hi' : i < 512 := hi.trans_le (Tree.width_le l)
      change r ∈ pteLog w (w (t + i)) at hr
      rw [pteLog] at hr
      split at hr
      · rename_i hpr
        obtain rfl := List.mem_singleton.mp hr
        obtain rfl := covers_frame.mp hx
        refine ⟨(k * 512 + i) * 2 ^ 12, by omega, fun user writable => ?_⟩
        have hbits : getBits ((k * 512 + i) * 2 ^ 12) PAGE_4K_SHIFT 9 = i := by
          unfold getBits PAGE_4K_SHIFT
          omega
        rw [lastShifts, translateFrom, entry_word, hbits]
        rw [if_pos (entryHas_eq_true.mpr hpr)]
        exact ⟨_, rfl, rfl⟩
      · exact absurd hr (by simp)
  | succ d ih =>
      intro l k t i hl ht hi r hr x hx
      have hi' : i < 512 := hi.trans_le (Tree.width_le l)
      cases h.kind hl ht hi with
      | empty _ hlog =>
          rw [hlog] at hr
          exact absurd hr (by simp)
      | block hd hpr hps hlog =>
          rw [hlog] at hr
          obtain rfl := List.mem_singleton.mp hr
          obtain ⟨h1, h2⟩ := covers_block.mp hx
          subst hd
          refine ⟨(k * 512 + i) * 2 ^ 21 + (x - blockOf (w (t + i))) * 2 ^ 12, by omega,
            fun user writable => ?_⟩
          have hbits : getBits ((k * 512 + i) * 2 ^ 21 + (x - blockOf (w (t + i))) * 2 ^ 12)
              (12 + 9 * (0 + 1)) 9 = i := by
            unfold getBits
            omega
          rw [lastShifts, translateFrom, entry_word, hbits]
          rw [hpr, hps, if_pos rfl, if_pos rfl]
          refine ⟨_, rfl, ?_⟩
          show page4KIndex (alignDown (2 ^ PAGE_2M_SHIFT) _ + _ % 2 ^ PAGE_2M_SHIFT) = x
          rw [blockOf_frame]
          unfold PAGE_2M_SHIFT PAGE_4K_SIZE PAGE_4K_SHIFT
          omega
      | table hpr hps hchild hlog =>
          rw [hlog] at hr
          rcases mem_tableLog.mp hr with ⟨j, hj, hr'⟩ | rfl
          · have hnode := (Tree.node_child (T := userTables) ht hi).trans hchild
            have hwidth : j < userTables.width (l + 1) := by
              rw [Tree.width, if_neg (by omega)]
              exact hj
            obtain ⟨v, hv, htr⟩ := ih (l + 1) _ _ j (by omega) hnode hwidth r hr' x hx
            have hv' : v / 2 ^ (12 + 9 * d) = (k * 512 + i) * 512 + j := hv
            have hpow : v / 2 ^ (12 + 9 * (d + 1)) = k * 512 + i := by
              rw [show 12 + 9 * (d + 1) = 12 + 9 * d + 9 by omega, Nat.pow_add,
                ← Nat.div_div_eq_div_mul, hv']
              omega
            refine ⟨v, hpow, fun user writable => ?_⟩
            have hbits : getBits v (12 + 9 * (d + 1)) 9 = i := by
              rw [getBits, hpow]
              omega
            rw [lastShifts, translateFrom, entry_word, hbits]
            rw [hpr, hps, if_pos rfl, if_neg (by decide), ← childWord_eq]
            exact htr _ _
          · exact absurd rfl hx

end

end Talios
