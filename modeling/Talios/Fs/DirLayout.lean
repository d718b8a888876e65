import Talios.Fs.DirStores
import Mathlib.Data.List.DropRight
import Mathlib.Data.List.TakeWhile

set_option autoImplicit false

/-! # What a directory holds

The slots of a directory as the format means them: deleted slots and entries, each behind the
long-name slots that belong to it, up to the first slot that begins with zero. The last part of a long
name comes first, and its parts are numbered from 1 on.
-/

namespace Talios

open Bytes Word

/-! ## Long names -/

/-- The thirteen characters of a long-name slot. -/
def slotUnits (l : Buffer) : List Nat :=
  (List.range 5).map (fun k => getLE l (1 + 2 * k) 2)
    ++ (List.range 6).map (fun k => getLE l (14 + 2 * k) 2)
    ++ (List.range 2).map (fun k => getLE l (28 + 2 * k) 2)

/-- Long-name slots with the numbers `k` down to 1. -/
inductive LongRun : Nat → List Buffer → Prop
  | nil : LongRun 0 []
  | cons {k : Nat} {l : Buffer} {ls : List Buffer} (hlong : slotLongName l = true)
      (hnum : (l 0).toNat = k + 1) (hrun : LongRun k ls) : LongRun (k + 1) (l :: ls)

/-- The characters of long-name slots, in the order of the name. -/
def groupUnits (group : List Buffer) : List Nat := group.reverse.flatMap slotUnits

/-- The name that they spell, up to its zero. -/
def longUnits (group : List Buffer) : List Nat := (groupUnits group).takeWhile (· ≠ 0)

/-- The long-name slots of an entry: bit 6 marks the first of them, which holds the end of the
name. -/
structure LongGroup (l : Buffer) (ls : List Buffer) : Prop where
  long : slotLongName l = true
  number : (l 0).toNat = 64 + (ls.length + 1)
  run : LongRun ls.length ls
  few : ls.length < 20
  name : 13 * ls.length < (longUnits (l :: ls)).length

/-! ## Short names -/

/-- The letters of a part of a short name, without the blanks at its end. -/
def trimmed (s : List UInt8) : List UInt8 := s.rdropWhile (· == 32)

/-- The first eight letters of a slot; 0x05 stands for 0xE5. -/
def shortBase (e : Buffer) : List UInt8 :=
  (if e 0 = 0x05 then 0xe5 else e 0) :: (List.range' 1 7).map e

/-- The three letters of the extension. -/
def shortExt (e : Buffer) : List UInt8 := (List.range' 8 3).map e

/-- A base and an extension with a dot between them. -/
def withDot (base ext : List UInt8) : List UInt8 := if ext = [] then base else base ++ 46 :: ext

/-- The short name of an entry. -/
def shortSpec (e : Buffer) : List UInt8 := withDot (trimmed (shortBase e)) (trimmed (shortExt e))

/-- The short name in small letters where the bits of `dir_ntres` ask for them. -/
def shortShown (e : Buffer) : List UInt8 :=
  withDot
    (if (e 12).toNat / 8 % 2 = 1 then (trimmed (shortBase e)).map lowerCase
      else trimmed (shortBase e))
    (if (e 12).toNat / 16 % 2 = 1 then (trimmed (shortExt e)).map lowerCase
      else trimmed (shortExt e))

/-! ## Entries -/

/-- A deleted slot, or an entry with its long-name slots. -/
inductive DirItem
  | deleted (e : Buffer)
  | entry (group : List Buffer) (e : Buffer)

def DirItem.slots : DirItem → List Buffer
  | .deleted e => [e]
  | .entry group e => group ++ [e]

/-- What the format asks of an item. -/
def DirItem.WellFormed : DirItem → Prop
  | .deleted e => e 0 = 0xe5
  | .entry group e => e 0 ≠ 0xe5 ∧ e 0 ≠ 0 ∧ slotLongName e = false ∧
      (group = [] ∨ ∃ l ls, group = l :: ls ∧ LongGroup l ls)

/-- The slots of a directory: its items, and what lies behind its end. -/
structure DirLayout (es : List Buffer) where
  items : List DirItem
  tail : List Buffer
  slots_eq : es = items.flatMap DirItem.slots ++ tail
  wellFormed : ∀ item ∈ items, item.WellFormed
  tail_end : ∀ e ∈ tail.head?, e 0 = 0

/-- The name of an entry, as it is shown: its long name, or its short name. -/
def shownName (group : List Buffer) (e : Buffer) : List Nat :=
  if group = [] then (shortShown e).map UInt8.toNat else longUnits group

/-! ## The parts of a long name -/

section

variable {l : Buffer} {ls : List Buffer}

@[simp] theorem slotUnits_length (l : Buffer) : (slotUnits l).length = 13 := by
  simp [slotUnits]

theorem groupUnits_cons (l : Buffer) (ls : List Buffer) :
    groupUnits (l :: ls) = groupUnits ls ++ slotUnits l := by
  unfold groupUnits
  rw [List.reverse_cons, List.flatMap_append, List.flatMap_singleton]

theorem groupUnits_length : ∀ ls : List Buffer, (groupUnits ls).length = 13 * ls.length
  | [] => rfl
  | l :: ls => by
      rw [groupUnits_cons, List.length_append, groupUnits_length ls, slotUnits_length,
        List.length_cons]
      ring

/-- The low byte of a character on the disk. -/
theorem ofNat_getLE (l : Buffer) (i : Nat) : UInt8.ofNat (getLE l i 2) = l i := by
  have h := getLE_byte (f := l) 2 i (j := 0) (by decide)
  rw [Nat.add_zero, Nat.pow_zero, Nat.div_one] at h
  apply UInt8.toNat_inj.mp
  rw [UInt8.toNat_ofNat', h]

theorem LongRun.length {k : Nat} (h : LongRun k ls) : ls.length = k := by
  induction h with
  | nil => rfl
  | cons hlong hnum hrun ih => rw [List.length_cons, ih]

theorem LongRun.number_fits {k : Nat} (h : LongRun k ls) (hk : k ≤ 19) :
    ∀ l ∈ ls, slotLongName l = true ∧ NumberFits l := by
  induction h with
  | nil => exact fun l hl => absurd hl List.not_mem_nil
  | cons hlong hnum hrun ih =>
      intro l' hl'
      rcases List.mem_cons.mp hl' with rfl | hl'
      · refine ⟨hlong, ?_⟩
        unfold NumberFits longNumber
        omega
      · exact ih (by omega) l' hl'

/-- The characters of a slot, one by one. -/
theorem slotUnits_getD (l : Buffer) {j : Nat} (hj : j < 13) :
    UInt8.ofNat ((slotUnits l).getD j 0) = if j < 5 then l (1 + 2 * j)
      else if j < 11 then l (14 + 2 * (j - 5)) else l (28 + 2 * (j - 11)) := by
  have h : (slotUnits l).getD j 0 = if j < 5 then getLE l (1 + 2 * j) 2
      else if j < 11 then getLE l (14 + 2 * (j - 5)) 2 else getLE l (28 + 2 * (j - 11)) 2 := by
    interval_cases j <;> rfl
  rw [h]
  split
  · exact ofNat_getLE l _
  split
  · exact ofNat_getLE l _
  · exact ofNat_getLE l _

/-- What a slot puts into the buffer: its letters, and a zero behind them in the last part. -/
theorem putLongName_byte {k : Nat} (hnum : longNumber l = k + 1) (b : Buffer) (i : Nat) :
    putLongName l b i =
      if 13 * k ≤ i ∧ i < 13 * k + 13 then UInt8.ofNat ((slotUnits l).getD (i - 13 * k) 0)
      else if i = 13 * k + 13 ∧ (l 0).toNat / 64 % 2 = 1 then 0 else b i := by
  have hbase : (longNumber l - 1) * 13 = 13 * k := by omega
  rw [putLongName_eq (by omega), hbase]
  dsimp only
  have hletters : overlay (overlay (overlay b (13 * k) 5 (fun k => l (1 + 2 * k)))
      (13 * k + 5) 6 (fun k => l (14 + 2 * k))) (13 * k + 11) 2 (fun k => l (28 + 2 * k)) i
      = if 13 * k ≤ i ∧ i < 13 * k + 13 then UInt8.ofNat ((slotUnits l).getD (i - 13 * k) 0)
        else b i := by
    split
    · rename_i hi
      rw [slotUnits_getD l (by omega)]
      by_cases h5 : i - 13 * k < 5
      · rw [if_pos h5, overlay_of_lt (by omega), overlay_of_lt (by omega),
          overlay_of_mem (by omega) (by omega)]
      by_cases h11 : i - 13 * k < 11
      · rw [if_neg h5, if_pos h11, overlay_of_lt (by omega),
          overlay_of_mem (by omega) (by omega), Nat.sub_add_eq]
      · rw [if_neg h5, if_neg h11, overlay_of_mem (by omega) (by omega), Nat.sub_add_eq]
    · rename_i hi
      rw [overlay_of_not_mem (by omega), overlay_of_not_mem (by omega),
        overlay_of_not_mem (by omega)]
  by_cases hlast : (l 0).toNat / 64 % 2 = 1
  · rw [if_pos hlast]
    by_cases hi : i = 13 * k + 13
    · rw [hi, overlay_of_mem le_rfl (by omega), if_neg (by omega), if_pos ⟨rfl, hlast⟩]
    · rw [overlay_of_not_mem (by omega), hletters, if_neg (c := i = 13 * k + 13 ∧ _) (by tauto)]
  · rw [if_neg hlast, hletters, if_neg (c := i = 13 * k + 13 ∧ _) (by tauto)]

/-- The buffer behind some long-name slots. -/
def assemble (ls : List Buffer) (b : Buffer) : Buffer := ls.foldl (fun b l => putLongName l b) b

theorem assemble_nil (nameBuf : Buffer) : assemble [] nameBuf = nameBuf := rfl

theorem assemble_cons (l : Buffer) (ls : List Buffer) (nameBuf : Buffer) :
    assemble (l :: ls) nameBuf = assemble ls (putLongName l nameBuf) := rfl

/-- The parts from 1 to `k` put their letters where they belong, and nothing elsewhere. -/
theorem LongRun.assemble_byte {k : Nat} (h : LongRun k ls) (hk : k ≤ 19) :
    ∀ (b : Buffer) (i : Nat), assemble ls b i =
      if i < 13 * k then UInt8.ofNat ((groupUnits ls).getD i 0) else b i := by
  induction h with
  | nil => exact fun b i => (if_neg (by omega)).symm
  | @cons k l ls hlong hnum hrun ih =>
      intro b i
      have hlen : (groupUnits ls).length = 13 * k := by rw [groupUnits_length, hrun.length]
      have hnumber : longNumber l = k + 1 := by
        unfold longNumber
        omega
      have hflag : ¬ (i = 13 * k + 13 ∧ (l 0).toNat / 64 % 2 = 1) := by omega
      show assemble ls (putLongName l b) i = _
      rw [ih (by omega), groupUnits_cons]
      by_cases h1 : i < 13 * k
      · rw [if_pos h1, if_pos (by omega), List.getD_append _ _ _ _ (by omega)]
      · rw [if_neg h1, putLongName_byte hnumber, if_neg hflag]
        by_cases h2 : i < 13 * (k + 1)
        · rw [if_pos ⟨by omega, by omega⟩, if_pos h2, List.getD_append_right _ _ _ _ (by omega),
            hlen]
        · rw [if_neg (by omega), if_neg h2]

/-- The whole name: its letters and the zero behind them. -/
theorem LongGroup.assemble_byte (h : LongGroup l ls) (b : Buffer) (i : Nat) :
    assemble (l :: ls) b i =
      if i < 13 * (l :: ls).length then UInt8.ofNat ((groupUnits (l :: ls)).getD i 0)
      else if i = 13 * (l :: ls).length then 0 else b i := by
  have hfew := h.few
  have hnum := h.number
  have hlen := groupUnits_length ls
  have hnumber : longNumber l = ls.length + 1 := by
    unfold longNumber
    omega
  have hflag : (l 0).toNat / 64 % 2 = 1 := by omega
  show assemble ls (putLongName l b) i = _
  rw [h.run.assemble_byte (by omega), groupUnits_cons, List.length_cons]
  by_cases h1 : i < 13 * ls.length
  · rw [if_pos h1, if_pos (by omega), List.getD_append _ _ _ _ (by omega)]
  · rw [if_neg h1, putLongName_byte hnumber]
    by_cases h2 : i < 13 * (ls.length + 1)
    · rw [if_pos ⟨by omega, by omega⟩, if_pos h2, List.getD_append_right _ _ _ _ (by omega), hlen]
    · rw [if_neg (by omega), if_neg h2]
      by_cases h3 : i = 13 * (ls.length + 1)
      · rw [if_pos h3, if_pos ⟨by omega, hflag⟩]
      · rw [if_neg h3, if_neg (by omega)]

/-! ## Names in a buffer -/

theorem stringLen_le_of_zero {nameBuf : Buffer} {i : Nat} (h : nameBuf i = 0) :
    stringLen nameBuf ≤ i := by
  by_contra hlt
  have hnot := List.not_of_lt_findIdx (Nat.not_le.mp hlt)
  rw [List.getElem_range, h] at hnot
  exact absurd hnot (by decide)

/-- The string in a name buffer, up to its first zero. -/
theorem cString_eq (buf : Buffer) :
    cString buf = ((List.range 1024).map buf).takeWhile (· ≠ 0) := by
  have hfind : stringLen buf = ((List.range 1024).map buf).findIdx (fun c => !decide (c ≠ 0)) := by
    unfold stringLen
    rw [List.findIdx_map]
    congr 1
    funext i
    by_cases hi : buf i = 0 <;> simp [hi]
  rw [List.takeWhile_eq_take_findIdx_not, ← hfind]
  unfold cString
  rw [← List.map_take, List.take_range, Nat.min_eq_left (stringLen_le buf)]

theorem cString_letters {buf : Buffer} {s : List UInt8} (hbytes : ∀ i < s.length, buf i = s.getD i 0)
    (hzero : buf s.length = 0) (hn : s.length < 1024) : cString buf = s.takeWhile (· ≠ 0) := by
  rw [cString_eq]
  exact takeWhile_range hbytes hzero hn

/-- The low bytes of the characters of a name. -/
def groupLetters (group : List Buffer) : List UInt8 := (groupUnits group).map UInt8.ofNat

/-- A long name as it is put together: the low bytes of its characters. -/
theorem LongGroup.cString (h : LongGroup l ls) :
    cString (assemble (l :: ls) newBuffer) = (groupLetters (l :: ls)).takeWhile (· ≠ 0) := by
  have hfew := h.few
  have hlen : (groupLetters (l :: ls)).length = 13 * (l :: ls).length := by
    unfold groupLetters
    rw [List.length_map, groupUnits_length]
  have hcons : (l :: ls).length = ls.length + 1 := rfl
  apply cString_letters
  · intro i hi
    rw [h.assemble_byte, if_pos (by omega)]
    exact (List.getD_map _ 0 UInt8.ofNat).symm
  · rw [hlen, h.assemble_byte, if_neg (by omega), if_pos rfl]
  · omega

/-- Where all characters are single bytes, these are the letters of the name. -/
theorem letters_of_units {units : List Nat} (h : ∀ u ∈ units.takeWhile (· ≠ 0), u < 256) :
    ((units.map UInt8.ofNat).takeWhile (· ≠ 0)).map UInt8.toNat = units.takeWhile (· ≠ 0) := by
  induction units with
  | nil => rfl
  | cons u units ih =>
      rw [List.map_cons]
      by_cases hu : u = 0
      · rw [hu]
        rfl
      · rw [List.takeWhile_cons_of_pos (by simpa using hu), List.forall_mem_cons] at h
        have hbyte : (UInt8.ofNat u).toNat = u := by
          rw [UInt8.toNat_ofNat', Nat.mod_eq_of_lt h.1]
        have hne : UInt8.ofNat u ≠ 0 := by
          intro h0
          rw [h0] at hbyte
          exact hu hbyte.symm
        rw [List.takeWhile_cons_of_pos (by simpa using hne),
          List.takeWhile_cons_of_pos (by simpa using hu), List.map_cons, hbyte, ih h.2]

end

end Talios
