import Talios.Memory.MemoryRun
import Talios.Mm.PageTree

set_option autoImplicit false

/-! # Freeing the user half

`FreeUserPageTables` of `memory.c`: four loops that give back the pages of the user half of an address
space, children before parents, and clear the entries as they go. The calls it makes are kept in a log,
and `userLog` is what the tables say they should be.

A loop is followed entry by entry. What the tables below the entries left have in them is what they had
in the memory the call started with, since the tables are separate and no bitmap of the heap lies on one.
-/

namespace Talios

open Word Bitmap Dyadic

def PAGE_2M_MASK : BitVec 64 := ~~~ 0x1fffff

/-! ## The code -/

/-- A call that gives something back: `FreePage4K` and `FreePage` of a page frame number, `kfree`. -/
inductive TableRelease
  | frame (page : Nat)
  | block (page : Nat)
  | table (ptr : Nat)
deriving DecidableEq

structure TableFreeing where
  mem : KMem
  log : List TableRelease

/-- The loop over a page table. -/
def freePte (pt : Nat) (s : TableFreeing) (i : Nat) : Option TableFreeing :=
  let pte := s.mem.word ((pt + i * 8) / 8)
  if pte &&& PEA_PRESENT ≠ 0 then
    let page := page4KIndex (entryAddr pte)
    if page < s.mem.mms.pagesCount then
      (s.mem.freePage4K page).map
        (fun mem => ⟨mem.write (pt + i * 8) 0, s.log ++ [.frame page]⟩)
    else some ⟨s.mem.write (pt + i * 8) 0, s.log⟩
  else some s

/-- `kfree(table)`, and the entry at `entry` is cleared. -/
def freeTable (table entry : Nat) (s : TableFreeing) : Option TableFreeing :=
  (kfree s.mem table).map (fun r => ⟨r.1.write entry 0, s.log ++ [.table table]⟩)

/-- The page frame number in an entry of 2 MiB. -/
def blockOf (pde : BitVec 64) : Nat := page4KIndex (pde &&& PAGE_2M_MASK).toNat

/-- The loop over a page directory. -/
def freePde (pd : Nat) (s : TableFreeing) (i : Nat) : Option TableFreeing :=
  let pde := s.mem.word ((pd + i * 8) / 8)
  if pde = 0 then some s
  else if pde &&& PEA_PAGE_SIZE ≠ 0 then
    (freePage s.mem.mms (blockOf pde) 1).map (fun r =>
      ⟨{ s.mem with mms := r.1 }.write (pd + i * 8) 0, s.log ++ [.block (blockOf pde)]⟩)
  else
    let pt := tableFromEntry pde
    ((List.range 512).foldlM (freePte pt) s).bind (freeTable pt (pd + i * 8))

/-- The loop over a page directory pointer table. -/
def freePdpte (pdpt : Nat) (s : TableFreeing) (i : Nat) : Option TableFreeing :=
  let pdpte := s.mem.word ((pdpt + i * 8) / 8)
  if pdpte = 0 ∨ pdpte &&& PEA_PAGE_SIZE ≠ 0 then some s
  else
    let pd := tableFromEntry pdpte
    ((List.range 512).foldlM (freePde pd) s).bind (freeTable pd (pdpt + i * 8))

/-- The loop over the first table. -/
def freePml4e (pml4 : Nat) (s : TableFreeing) (i : Nat) : Option TableFreeing :=
  let pml4e := s.mem.word ((pml4 + i * 8) / 8)
  if pml4e = 0 ∨ pml4e &&& PEA_PAGE_SIZE ≠ 0 then some s
  else
    let pdpt := tableFromEntry pml4e
    ((List.range 512).foldlM (freePdpte pdpt) s).bind (freeTable pdpt (pml4 + i * 8))

/-- `FreeUserPageTables`, with the calls it makes. -/
def freeUserPageTables (s : KMem) (pgd : Nat) : Option TableFreeing :=
  (List.range 256).foldlM (freePml4e (phyToVirt (alignDown PAGE_4K_SIZE pgd))) ⟨s, []⟩

/-! ## What the tables hold -/

def pteLog (_ : Memory) (e : BitVec 64) : List TableRelease :=
  if e &&& PEA_PRESENT ≠ 0 then [.frame (page4KIndex (entryAddr e))] else []

/-- The pages of a table and what its entries hold, which is what `entryLog` says. -/
def tableLog (entryLog : Memory → BitVec 64 → List TableRelease) (w : Memory) (t : Nat) :
    List TableRelease :=
  (List.range 512).flatMap (fun i => entryLog w (w (t / 8 + i))) ++ [.table t]

def pdeLog (w : Memory) (e : BitVec 64) : List TableRelease :=
  if e = 0 then [] else if e &&& PEA_PAGE_SIZE ≠ 0 then [.block (blockOf e)]
  else tableLog pteLog w (tableFromEntry e)

def pdpteLog (w : Memory) (e : BitVec 64) : List TableRelease :=
  if e = 0 ∨ e &&& PEA_PAGE_SIZE ≠ 0 then [] else tableLog pdeLog w (tableFromEntry e)

def pml4eLog (w : Memory) (e : BitVec 64) : List TableRelease :=
  if e = 0 ∨ e &&& PEA_PAGE_SIZE ≠ 0 then [] else tableLog pdpteLog w (tableFromEntry e)

/-- What the user half holds: frames, blocks of 2 MiB and tables, a table behind all below it. -/
def userLog (w : Memory) (pgd : Nat) : List TableRelease :=
  (List.range 256).flatMap (fun i => pml4eLog w (w (userRoot pgd + i)))

/-! ## Logs -/

/-- How often the frame `x` is given back. -/
def TableRelease.covers : TableRelease → Nat → Nat
  | .frame p, x => ind p 0 x
  | .block p, x => ind p 9 x
  | .table _, _ => 0

def framesOf (log : List TableRelease) (x : Nat) : Nat := (log.map (fun r => r.covers x)).sum

def TableRelease.ptr? : TableRelease → Option Nat
  | .table p => some p
  | _ => none

/-- The tables given back. -/
def tablesOf (log : List TableRelease) : List Nat := log.filterMap TableRelease.ptr?

/-- The tables given back, as objects of `kmalloc`. -/
def tableObjs (log : List TableRelease) : List Obj :=
  (tablesOf log).map (fun p => ⟨p, PAGE_4K_SIZE⟩)

/-- The word `a` belongs to one of the tables. -/
def InTables (log : List TableRelease) (a : Nat) : Prop :=
  ∃ p ∈ tablesOf log, p / 8 ≤ a ∧ a < p / 8 + 512

/-- What is given back is a page frame, or a block of 2 MiB, of a zone. -/
def TableRelease.Ok (m₀ : MMS) : TableRelease → Prop
  | .frame p => BlockOk m₀ (p, 0)
  | .block p => BlockOk m₀ (p, 9)
  | .table p => PAGE_4K_SIZE ∣ p

section

variable {l l' : List TableRelease} {a : Nat}

@[simp] theorem framesOf_append (x : Nat) : framesOf (l ++ l') x = framesOf l x + framesOf l' x := by
  simp [framesOf]

@[simp] theorem tablesOf_append : tablesOf (l ++ l') = tablesOf l ++ tablesOf l' :=
  List.filterMap_append

@[simp] theorem tablesOf_table (p : Nat) : tablesOf [.table p] = [p] := rfl

@[simp] theorem framesOf_table (p x : Nat) : framesOf [.table p] x = 0 := rfl

@[simp] theorem tableObjs_append : tableObjs (l ++ l') = tableObjs l ++ tableObjs l' := by
  simp [tableObjs]

theorem inTables_append : InTables (l ++ l') a ↔ InTables l a ∨ InTables l' a := by
  simp [InTables, or_and_right, exists_or]

theorem inTables_table (p : Nat) : InTables [.table p] a ↔ p / 8 ≤ a ∧ a < p / 8 + 512 := by
  simp [InTables]

/-- Aligned tables that are not the same have no word in common. -/
theorem eq_of_word {p q : Nat} (hp : PAGE_4K_SIZE ∣ p) (hq : PAGE_4K_SIZE ∣ q)
    (h1 : p / 8 ≤ a ∧ a < p / 8 + 512) (h2 : q / 8 ≤ a ∧ a < q / 8 + 512) : p = q := by
  unfold PAGE_4K_SIZE PAGE_4K_SHIFT at hp hq
  omega

theorem inTables_disjoint {m₀ : MMS} (hok : ∀ r ∈ l ++ l', r.Ok m₀)
    (hnd : (tablesOf (l ++ l')).Nodup) (h : InTables l a) : ¬ InTables l' a := by
  have hal : ∀ p ∈ tablesOf (l ++ l'), PAGE_4K_SIZE ∣ p := by
    intro p hp
    obtain ⟨r, hr, he⟩ := List.mem_filterMap.mp hp
    cases r with
    | frame _ => exact absurd he (by simp [TableRelease.ptr?])
    | block _ => exact absurd he (by simp [TableRelease.ptr?])
    | table q =>
        obtain rfl := Option.some.inj he
        exact hok _ hr
  rintro ⟨q, hq, h2⟩
  obtain ⟨p, hp, h1⟩ := h
  rw [tablesOf_append, List.nodup_append] at hnd
  rw [tablesOf_append] at hal
  have he := eq_of_word (hal p (List.mem_append_left _ hp)) (hal q (List.mem_append_right _ hq)) h1 h2
  exact hnd.2.2 p hp q hq he

end

/-- The table an entry names is aligned, whatever the entry. -/
theorem tableFromEntry_aligned (e : BitVec 64) : PAGE_4K_SIZE ∣ tableFromEntry e := by
  have haddr : PAGE_4K_SIZE ∣ entryAddr e := by
    refine Nat.dvd_of_mod_eq_zero ?_
    rw [PAGE_4K_SIZE, PAGE_4K_SHIFT, ← Nat.and_two_pow_sub_one_eq_mod]
    refine Nat.eq_of_testBit_eq (fun i => ?_)
    rw [Nat.testBit_and, Nat.testBit_two_pow_sub_one, Nat.zero_testBit]
    by_cases hi : i < 12
    · have : (entryAddr e).testBit i = false := by
        show (e &&& PAGE_4K_MASK).getLsbD i = false
        rw [BitVec.getLsbD_and, getLsbD_mask (by omega)]
        simp [Nat.not_le.mpr hi]
      rw [this, Bool.false_and]
    · simp [hi]
  exact Nat.dvd_add haddr (by decide)

end Talios
