import Talios.Console.Number
import Talios.Lib.Split

set_option autoImplicit false

/-! # Formatted output

`VsPrintfk`, and `vsprintf` of the user library, which differs in the size of its buffer. The
conversions of a number, a pointer or a string compare the length they add with the size of the
buffer, and are left out when it does not fit. Literals, `%%`, `%c` and unknown conversions are stored
without a check.

What is stored stays in the buffer, and is a string of the length returned, if and only if each piece
fits (`format_in_buffer`).
-/

namespace Talios

open Bytes Word

/-! ## The code -/

/-- A string in memory, up to its end. -/
structure CString where
  bytes : List UInt8
  ends : 0 ∉ bytes

/-- The arguments: the words that `va_arg` takes one after the other, and the strings that those which
are taken for pointers point to. -/
structure VaList where
  word : Nat → BitVec 64
  string : BitVec 64 → CString

/-- What the code has done: `BufferIndex`, the stores in the buffer, and the number of arguments
taken. -/
structure Formatted where
  bufferIndex : Int
  stores : List (Int × UInt8)
  taken : Nat

/-- What one piece of the format asks for: a character, or a text with the length that is compared. -/
inductive Output where
  | character (c : UInt8)
  | text (t : List UInt8) (indexIncre : Int)

/-- What `StringCopy` copies of `TempBuffer`, which has 40 bytes. -/
def untilZero (f : Buffer) : Nat → Nat → List UInt8
  | 0, _ => []
  | fuel + 1, i => if f i = 0 then [] else f i :: untilZero f fuel (i + 1)

/-- A number by way of `TempBuffer`. -/
def numberOutput (tempBuffer : Buffer) (num : Int) (base : Nat) (upper : Bool) : Output :=
  match numToString tempBuffer num base upper with
  | some (f, length) => .text (untilZero f 40 0) length
  | none => .text [] 0

/-- `StringLen`, an `int`. -/
def stringLength (s : CString) : Int := int32 s.bytes.length

/-- The `switch` over a conversion: what it asks for, and whether it takes an argument. -/
def conversion (tempBuffer : Buffer) (args : VaList) (taken : Nat) (c : UInt8) : Output × Nat :=
  let arg := args.word taken
  if c = 37 then (.character 37, taken)
  else if c = 120 ∨ c = 88 then
    -- `%x` and `%d` take 32 bits, `%X` and `%D` all 64
    let upper := decide (c < 97)
    (numberOutput tempBuffer (if upper then arg.toInt else (arg.setWidth 32).toNat) 16 upper,
      taken + 1)
  else if c = 100 ∨ c = 68 then
    (numberOutput tempBuffer (if c = 68 then arg.toInt else (arg.setWidth 32).toInt) 10 false,
      taken + 1)
  else if c = 115 then
    (.text (args.string arg).bytes (stringLength (args.string arg)), taken + 1)
  else if c = 99 then (.character (UInt8.ofBitVec (arg.setWidth 8)), taken + 1)
  else if c = 112 then (numberOutput tempBuffer arg.toInt 16 false, taken + 1)
  -- unknown conversions print a question mark and take no argument
  else (.character 63, taken)

/-- `StringCopy(t, buffer + BufferIndex)`: the stores, the end of the string included. -/
def copyStores : Int → List UInt8 → List (Int × UInt8)
  | dst, [] => [(dst, 0)]
  | dst, c :: t => (dst, c) :: copyStores (dst + 1) t

/-- The store of what a piece asks for, in a buffer of `maxBufferLen` bytes. -/
def Formatted.put (maxBufferLen : Int) (s : Formatted) : Output → Formatted
  -- neither the index nor the buffer's size is looked at
  | .character c =>
      { s with
        bufferIndex := int32 (s.bufferIndex + 1)
        stores := s.stores ++ [(s.bufferIndex, c)] }
  | .text t indexIncre =>
      if maxBufferLen ≤ int32 (indexIncre + s.bufferIndex) then s
      else
        { s with
          bufferIndex := int32 (s.bufferIndex + indexIncre)
          stores := s.stores ++ copyStores s.bufferIndex t }

/-- The loop over the format. It ends with the format, or with a `%` at its end. -/
def formatLoop (maxBufferLen : Int) (tempBuffer : Buffer) (args : VaList) :
    List UInt8 → Formatted → Formatted
  | [], s => s
  | currentChar :: fmt, s =>
      if currentChar = 37 then
        match fmt with
        | [] => s
        | c :: fmt =>
            let r := conversion tempBuffer args s.taken c
            formatLoop maxBufferLen tempBuffer args fmt
              ({ s with taken := r.2 }.put maxBufferLen r.1)
      else formatLoop maxBufferLen tempBuffer args fmt (s.put maxBufferLen (.character currentChar))

/-- The stores in the buffer, the last of which ends the string, and the length that is returned. -/
def format (maxBufferLen : Int) (tempBuffer : Buffer) (fmt : CString) (args : VaList) :
    List (Int × UInt8) × Int :=
  let s := formatLoop maxBufferLen tempBuffer args fmt.bytes ⟨0, [], 0⟩
  (s.stores ++ [(s.bufferIndex, 0)], s.bufferIndex)

/-- `VsPrintfk`. -/
def vsPrintfk : Buffer → CString → VaList → List (Int × UInt8) × Int := format 4096

/-- `vsprintf`, as `printf` calls it. -/
def vsprintf : Buffer → CString → VaList → List (Int × UInt8) × Int := format 1024

/-! ## The buffer -/

/-- The buffer after some stores. -/
def applyStores (before : Int → UInt8) (stores : List (Int × UInt8)) : Int → UInt8 :=
  stores.foldl (fun f st => Function.update f st.1 st.2) before

/-- All stores are within the buffer, and what they leave there is a string of the length
returned. -/
structure InBuffer (maxBufferLen : Int) (r : List (Int × UInt8) × Int) : Prop where
  within : ∀ st ∈ r.1, 0 ≤ st.1 ∧ st.1 < maxBufferLen
  letters : ∀ before i, 0 ≤ i → i < r.2 → applyStores before r.1 i ≠ 0
  stop : 0 ≤ r.2 ∧ ∀ before, applyStores before r.1 r.2 = 0

/-! ## Pieces -/

/-- A piece of a format: a character that stands for itself, or a conversion. -/
inductive Piece where
  | literal (c : UInt8)
  | convert (c : UInt8)

/-- The pieces of a format. -/
def pieces : List UInt8 → List Piece
  | [] => []
  | currentChar :: fmt =>
      if currentChar = 37 then
        match fmt with
        | [] => []
        | c :: fmt => .convert c :: pieces fmt
      else .literal currentChar :: pieces fmt

/-- What a piece asks for. -/
def Piece.output (tempBuffer : Buffer) (args : VaList) (taken : Nat) : Piece → Output × Nat
  | .literal c => (.character c, taken)
  | .convert c => conversion tempBuffer args taken c

/-- One piece. -/
def putPiece (maxBufferLen : Int) (tempBuffer : Buffer) (args : VaList) (s : Formatted) (p : Piece) :
    Formatted :=
  let r := p.output tempBuffer args s.taken
  { s with taken := r.2 }.put maxBufferLen r.1

/-- Some pieces, from the start on. -/
def putPieces (maxBufferLen : Int) (tempBuffer : Buffer) (args : VaList) (ps : List Piece) :
    Formatted := ps.foldl (putPiece maxBufferLen tempBuffer args) ⟨0, [], 0⟩

/-- A character that does not end the string and leaves room for its end, or a text that is left out
or leaves room for its end. -/
def Output.Fits (maxBufferLen bufferIndex : Int) : Output → Prop
  | .character c => c ≠ 0 ∧ bufferIndex + 1 < maxBufferLen
  | .text t indexIncre =>
      int32 (indexIncre + bufferIndex) < maxBufferLen → bufferIndex + t.length < maxBufferLen

/-! ## What the conversions ask for -/

/-- A text without a zero, with its length as an `int`. -/
def Output.WellFormed : Output → Prop
  | .character _ => True
  | .text t indexIncre => 0 ∉ t ∧ indexIncre = int32 t.length

/-- `StringCopy` copies the string that `NumToString` has written. -/
theorem untilZero_eq {before f : Buffer} {l : List UInt8} (h : HoldsText before f l) {fuel i : Nat}
    (hi : i ≤ l.length) (hf : l.length < fuel + i) : untilZero f fuel i = l.drop i := by
  induction fuel generalizing i with
  | zero => omega
  | succ fuel ih =>
    rw [untilZero]
    rcases Nat.lt_or_eq_of_le hi with hlt | rfl
    · have hbyte : f i = l[i] := (h.bytes i hlt).trans (List.getD_eq_getElem _ _ hlt)
      have hne : f i ≠ 0 := by
        intro h0
        exact h.letters (by rw [← h0, hbyte]; exact List.getElem_mem hlt)
      rw [if_neg hne, ih hlt (by omega), hbyte, List.getElem_cons_drop]
    · rw [if_pos h.stop, List.drop_length]

theorem writtenText_length {base : Nat} (hb : 10 ≤ base) (num : Int) (upper : Bool) :
    (writtenText num base upper).length < 40 := by
  have hlt : ulong num < 2 ^ 64 := by
    unfold ulong
    omega
  have hdigits : (Nat.digits base (ulong num)).length ≤ 20 := by
    rw [Nat.digits_length_le_iff (by omega)]
    calc ulong num < 2 ^ 64 := hlt
      _ ≤ 10 ^ 20 := by norm_num
      _ ≤ base ^ 20 := Nat.pow_le_pow_left hb 20
  simp only [writtenText, List.length_append, List.length_reverse, List.length_map]
  split_ifs <;> simp <;> omega

/-- A number asks for its text. -/
theorem numberOutput_wellFormed (tempBuffer : Buffer) (num : Int) {base : Nat} (hb : 10 ≤ base)
    (hb2 : base ≤ 16) (upper : Bool) : (numberOutput tempBuffer num base upper).WellFormed := by
  have hlen := writtenText_length hb num upper
  obtain ⟨f, hf, hheld⟩ := numToString_eq (by omega : 2 ≤ base) hb2 tempBuffer num upper
  rw [numberOutput, hf]
  show 0 ∉ untilZero f 40 0 ∧ _ = _
  rw [untilZero_eq hheld (Nat.zero_le _) (by omega), List.drop_zero]
  exact ⟨hheld.letters, (int32_eq (by omega) (by omega)).symm⟩

theorem conversion_wellFormed (tempBuffer : Buffer) (args : VaList) (taken : Nat) (c : UInt8) :
    (conversion tempBuffer args taken c).1.WellFormed := by
  unfold conversion
  split_ifs
  · trivial
  all_goals first
    | exact numberOutput_wellFormed _ _ (by norm_num) (by norm_num) _
    | exact ⟨(args.string _).ends, rfl⟩
    | trivial

theorem Piece.output_wellFormed (tempBuffer : Buffer) (args : VaList) (taken : Nat) (p : Piece) :
    (p.output tempBuffer args taken).1.WellFormed := by
  cases p with
  | literal c => trivial
  | convert c => exact conversion_wellFormed tempBuffer args taken c

/-! ## Stores -/

theorem applyStores_append (before : Int → UInt8) (l l' : List (Int × UInt8)) :
    applyStores before (l ++ l') = applyStores (applyStores before l) l' :=
  List.foldl_append ..

theorem applyStores_singleton (before : Int → UInt8) (i : Int) (c : UInt8) :
    applyStores before [(i, c)] = Function.update before i c := rfl

/-- `StringCopy` stores from its destination up to the end of the string. -/
theorem copyStores_within {i : Int} {t : List UInt8} {st : Int × UInt8} (h : st ∈ copyStores i t) :
    i ≤ st.1 ∧ st.1 ≤ i + t.length := by
  induction t generalizing i with
  | nil =>
    rw [copyStores, List.mem_singleton] at h
    simp [h]
  | cons c t ih =>
    rw [copyStores, List.mem_cons] at h
    rw [List.length_cons]
    rcases h with rfl | h
    · simp
      omega
    · have := ih h
      omega

theorem copyStores_first (i : Int) (t : List UInt8) : ∃ c, (i, c) ∈ copyStores i t := by
  cases t with
  | nil => exact ⟨0, List.mem_singleton_self _⟩
  | cons c t => exact ⟨c, List.mem_cons_self⟩

theorem copyStores_last (i : Int) (t : List UInt8) : (i + t.length, 0) ∈ copyStores i t := by
  induction t generalizing i with
  | nil => simp [copyStores]
  | cons c t ih =>
    rw [copyStores, List.length_cons, show i + ((t.length + 1 : Nat) : Int) = i + 1 + t.length by omega]
    exact List.mem_cons_of_mem _ (ih (i + 1))

theorem applyStores_copyStores_lt {before : Int → UInt8} {i j : Int} {t : List UInt8} (h : j < i) :
    applyStores before (copyStores i t) j = before j := by
  induction t generalizing i before with
  | nil => exact Function.update_of_ne (by omega) ..
  | cons c t ih =>
    rw [copyStores, applyStores, List.foldl_cons]
    exact (ih (by omega)).trans (Function.update_of_ne (by omega) ..)

theorem applyStores_copyStores_ne_zero {before : Int → UInt8} {i j : Int} {t : List UInt8}
    (ht : 0 ∉ t) (h1 : i ≤ j) (h2 : j < i + t.length) :
    applyStores before (copyStores i t) j ≠ 0 := by
  induction t generalizing i before with
  | nil =>
    rw [List.length_nil] at h2
    omega
  | cons c t ih =>
    rw [copyStores, applyStores, List.foldl_cons]
    rw [List.mem_cons, not_or] at ht
    rcases eq_or_lt_of_le h1 with rfl | hlt
    · have hkeep : applyStores (Function.update before i c) (copyStores (i + 1) t) i =
          Function.update before i c i := applyStores_copyStores_lt (lt_add_one i)
      rw [Function.update_self] at hkeep
      intro h0
      exact ht.1 (h0.symm.trans hkeep)
    · rw [List.length_cons] at h2
      exact ih ht.2 (by omega) (by omega)

/-! ## One piece -/

/-- What is stored so far is within the buffer, leaves room for the end, and holds no zero. -/
structure Formatted.Good (maxBufferLen : Int) (s : Formatted) : Prop where
  within : ∀ st ∈ s.stores, 0 ≤ st.1 ∧ st.1 < maxBufferLen
  -- `bufferIndex` is where the end will be stored, so that there is room for one byte more
  index : 0 ≤ s.bufferIndex ∧ s.bufferIndex < maxBufferLen
  letters : ∀ before i, 0 ≤ i → i < s.bufferIndex → applyStores before s.stores i ≠ 0

variable {maxBufferLen : Int}

/-- A character is stored well if and only if all was well before, and it fits. -/
theorem good_put_character (h2 : maxBufferLen ≤ 2 ^ 30) (s : Formatted) (c : UInt8) :
    (s.put maxBufferLen (.character c)).Good maxBufferLen ↔
      s.Good maxBufferLen ∧ (Output.character c).Fits maxBufferLen s.bufferIndex := by
  have hkeep (before : Int → UInt8) (i : Int) :
      applyStores before (s.stores ++ [(s.bufferIndex, c)]) i =
        Function.update (applyStores before s.stores) s.bufferIndex c i := by
    rw [applyStores_append, applyStores_singleton]
  constructor
  · intro h
    obtain ⟨hidx0, hidx⟩ : 0 ≤ s.bufferIndex ∧ s.bufferIndex < maxBufferLen :=
      h.within (s.bufferIndex, c) (List.mem_append_right _ (List.mem_singleton_self _))
    have hnext : int32 (s.bufferIndex + 1) = s.bufferIndex + 1 := int32_eq (by omega) (by omega)
    have hroom : int32 (s.bufferIndex + 1) < maxBufferLen := h.index.2
    have hletters (before : Int → UInt8) (i : Int) (h0 : 0 ≤ i) (hi : i < s.bufferIndex + 1) :
        Function.update (applyStores before s.stores) s.bufferIndex c i ≠ 0 := by
      rw [← hkeep]
      exact h.letters before i h0 (by rw [Formatted.put, hnext]; exact hi)
    refine ⟨⟨fun st hst => h.within st (List.mem_append_left _ hst), ⟨hidx0, hidx⟩,
      fun before i h0 hi => ?_⟩, ?_, by omega⟩
    · have hne := hletters before i h0 (by omega)
      rwa [Function.update_of_ne (by omega)] at hne
    · have hne := hletters (fun _ => 0) s.bufferIndex hidx0 (by omega)
      rwa [Function.update_self] at hne
  · rintro ⟨h, hc, hroom⟩
    obtain ⟨hidx0, hidx⟩ := h.index
    have hnext : int32 (s.bufferIndex + 1) = s.bufferIndex + 1 := int32_eq (by omega) (by omega)
    refine ⟨fun st hst => ?_, ?_, fun before i h0 hi => ?_⟩
    · rcases List.mem_append.mp hst with hst | hst
      · exact h.within st hst
      · rw [List.mem_singleton.mp hst]
        exact ⟨hidx0, hidx⟩
    · rw [Formatted.put, hnext]
      show 0 ≤ s.bufferIndex + 1 ∧ s.bufferIndex + 1 < maxBufferLen
      omega
    · rw [Formatted.put, hnext] at hi
      show applyStores before (s.stores ++ [(s.bufferIndex, c)]) i ≠ 0
      rw [hkeep]
      by_cases hlast : i = s.bufferIndex
      · rwa [hlast, Function.update_self]
      · rw [Function.update_of_ne hlast]
        have hi' : i < s.bufferIndex + 1 := hi
        exact h.letters before i h0 (by omega)

/-- So is a text. -/
theorem good_put_text (h2 : maxBufferLen ≤ 2 ^ 30) (s : Formatted) {t : List UInt8}
    (ht : 0 ∉ t) :
    (s.put maxBufferLen (.text t (int32 t.length))).Good maxBufferLen ↔
      s.Good maxBufferLen ∧
        (Output.text t (int32 t.length)).Fits maxBufferLen s.bufferIndex := by
  by_cases hskip : maxBufferLen ≤ int32 (int32 t.length + s.bufferIndex)
  -- what is left out changes nothing, and fits
  · rw [Formatted.put, if_pos hskip]
    exact (and_iff_left fun hlt => absurd hlt (not_lt.mpr hskip)).symm
  have hlen (h0 : 0 ≤ s.bufferIndex) (hroom : s.bufferIndex + t.length < maxBufferLen) :
      int32 (s.bufferIndex + int32 t.length) = s.bufferIndex + t.length := by
    rw [int32_eq (a := (t.length : Int)) (by omega) (by omega)]
    exact int32_eq (by omega) (by omega)
  rw [Formatted.put, if_neg hskip]
  constructor
  · intro h
    -- The stores of the text begin at the index and end behind it: both are within the buffer.
    obtain ⟨c, hc⟩ := copyStores_first s.bufferIndex t
    obtain ⟨hidx0, hidx⟩ : 0 ≤ s.bufferIndex ∧ s.bufferIndex < maxBufferLen :=
      h.within _ (List.mem_append_right _ hc)
    have hroom : s.bufferIndex + t.length < maxBufferLen :=
      (h.within _ (List.mem_append_right _ (copyStores_last s.bufferIndex t))).2
    refine ⟨⟨fun st hst => h.within st (List.mem_append_left _ hst), ⟨hidx0, hidx⟩,
      fun before i h0 hi => ?_⟩, fun _ => hroom⟩
    have hne := h.letters before i h0 (by
      show i < int32 (s.bufferIndex + int32 t.length)
      rw [hlen hidx0 hroom]
      omega)
    rwa [applyStores_append, applyStores_copyStores_lt hi] at hne
  · rintro ⟨h, hfits⟩
    obtain ⟨hidx0, hidx⟩ := h.index
    have hroom := hfits (not_le.mp hskip)
    refine ⟨fun st hst => ?_, ?_, fun before i h0 hi => ?_⟩
    · rcases List.mem_append.mp hst with hst | hst
      · exact h.within st hst
      · have := copyStores_within hst
        omega
    · show 0 ≤ int32 (s.bufferIndex + int32 t.length) ∧
        int32 (s.bufferIndex + int32 t.length) < maxBufferLen
      rw [hlen hidx0 hroom]
      omega
    · have hi' : i < int32 (s.bufferIndex + int32 t.length) := hi
      rw [hlen hidx0 hroom] at hi'
      show applyStores before (s.stores ++ copyStores s.bufferIndex t) i ≠ 0
      rw [applyStores_append]
      by_cases hlt : i < s.bufferIndex
      · rw [applyStores_copyStores_lt hlt]
        exact h.letters before i h0 hlt
      · exact applyStores_copyStores_ne_zero ht (by omega) hi'

theorem good_put (h2 : maxBufferLen ≤ 2 ^ 30) (s : Formatted) {o : Output} (ho : o.WellFormed) :
    (s.put maxBufferLen o).Good maxBufferLen ↔
      s.Good maxBufferLen ∧ o.Fits maxBufferLen s.bufferIndex := by
  cases o with
  | character c => exact good_put_character h2 s c
  | text t indexIncre =>
    obtain ⟨ht, hlen⟩ : 0 ∉ t ∧ indexIncre = int32 t.length := ho
    rw [hlen]
    exact good_put_text h2 s ht

/-! ## The format -/

variable (tempBuffer : Buffer) (args : VaList)

theorem pieces_cons_of_ne {c : UInt8} (hc : c ≠ 37) (fmt : List UInt8) :
    pieces (c :: fmt) = .literal c :: pieces fmt := by
  cases fmt <;> simp [pieces, hc]

/-- The loop takes the format piece by piece. -/
theorem formatLoop_eq (fmt : List UInt8) (s : Formatted) :
    formatLoop maxBufferLen tempBuffer args fmt s =
      (pieces fmt).foldl (putPiece maxBufferLen tempBuffer args) s := by
  -- By the recursion of `pieces`, which takes a `%` together with the character behind it.
  induction fmt using pieces.induct generalizing s with
  | case1 => rfl
  | case2 => simp [formatLoop, pieces]
  | case3 c fmt ih =>
    rw [formatLoop, pieces, if_pos rfl, if_pos rfl]
    exact ih _
  | case4 currentChar fmt hne ih =>
    have hloop : formatLoop maxBufferLen tempBuffer args (currentChar :: fmt) s =
        formatLoop maxBufferLen tempBuffer args fmt
          (s.put maxBufferLen (.character currentChar)) := by
      cases fmt <;> simp [formatLoop, hne]
    rw [pieces_cons_of_ne hne, hloop, ih]
    rfl

/-- All is well after some pieces if and only if it was before, and each piece fits. -/
theorem good_pieces (h2 : maxBufferLen ≤ 2 ^ 30) (ps : List Piece) (s : Formatted) :
    (ps.foldl (putPiece maxBufferLen tempBuffer args) s).Good maxBufferLen ↔
      s.Good maxBufferLen ∧ ∀ before p after, ps = before ++ p :: after →
        let s := before.foldl (putPiece maxBufferLen tempBuffer args) s
        (p.output tempBuffer args s.taken).1.Fits maxBufferLen s.bufferIndex := by
  refine Split.foldl_iff (R := fun s p =>
    (p.output tempBuffer args s.taken).1.Fits maxBufferLen s.bufferIndex) (fun s p => ?_) ps s
  refine (good_put h2 _ (p.output_wellFormed tempBuffer args s.taken)).trans ?_
  -- the number of the argument taken is no matter of the buffer
  exact and_congr_left fun _ => ⟨fun h => ⟨h.1, h.2, h.3⟩, fun h => ⟨h.1, h.2, h.3⟩⟩

/-- The end of the string is stored last. -/
theorem inBuffer_iff_good (s : Formatted) :
    InBuffer maxBufferLen (s.stores ++ [(s.bufferIndex, 0)], s.bufferIndex) ↔
      s.Good maxBufferLen := by
  have hkeep (before : Int → UInt8) (i : Int) :
      applyStores before (s.stores ++ [(s.bufferIndex, 0)]) i =
        Function.update (applyStores before s.stores) s.bufferIndex 0 i := by
    rw [applyStores_append, applyStores_singleton]
  constructor
  · intro h
    refine ⟨fun st hst => h.within st (List.mem_append_left _ hst),
      h.within (s.bufferIndex, 0) (List.mem_append_right _ (List.mem_singleton_self _)),
      fun before i h0 hi => ?_⟩
    have hne := h.letters before i h0 hi
    rwa [hkeep, Function.update_of_ne (ne_of_lt hi)] at hne
  · intro h
    refine ⟨fun st hst => ?_, fun before i h0 hi => ?_, h.index.1, fun before => ?_⟩
    · rcases List.mem_append.mp hst with hst | hst
      · exact h.within st hst
      · rw [List.mem_singleton.mp hst]
        exact h.index
    · have hi' : i < s.bufferIndex := hi
      rw [hkeep, Function.update_of_ne (ne_of_lt hi')]
      exact h.letters before i h0 hi'
    · rw [hkeep]
      exact Function.update_self ..

/-- A formatted string stays in its buffer if and only if each piece fits. -/
theorem inBuffer_iff (h1 : 0 < maxBufferLen) (h2 : maxBufferLen ≤ 2 ^ 30) (fmt : CString) :
    InBuffer maxBufferLen (format maxBufferLen tempBuffer fmt args) ↔
      ∀ before p after, pieces fmt.bytes = before ++ p :: after →
        let s := putPieces maxBufferLen tempBuffer args before
        (p.output tempBuffer args s.taken).1.Fits maxBufferLen s.bufferIndex := by
  have hinit : Formatted.Good maxBufferLen ⟨0, [], 0⟩ :=
    ⟨fun st hst => absurd hst List.not_mem_nil, ⟨le_refl _, h1⟩,
      fun before i h0 hi => absurd (lt_of_le_of_lt h0 hi) (lt_irrefl 0)⟩
  rw [format, inBuffer_iff_good, formatLoop_eq, good_pieces tempBuffer args h2, and_iff_right hinit]
  rfl

/-- The output of `VsPrintfk` and of `vsprintf` stays in its buffer, and is a string of the length
returned, if and only if each piece fits. -/
theorem format_in_buffer (fmt : CString) :
    (InBuffer 4096 (vsPrintfk tempBuffer fmt args) ↔
      ∀ before p after, pieces fmt.bytes = before ++ p :: after →
        let s := putPieces 4096 tempBuffer args before
        (p.output tempBuffer args s.taken).1.Fits 4096 s.bufferIndex) ∧
    (InBuffer 1024 (vsprintf tempBuffer fmt args) ↔
      ∀ before p after, pieces fmt.bytes = before ++ p :: after →
        let s := putPieces 1024 tempBuffer args before
        (p.output tempBuffer args s.taken).1.Fits 1024 s.bufferIndex) :=
  ⟨inBuffer_iff tempBuffer args (by norm_num) (by norm_num) fmt,
    inBuffer_iff tempBuffer args (by norm_num) (by norm_num) fmt⟩

/-- Letters that stand for themselves are stored one after the other, without a check. -/
theorem putLetters_index (n : Nat) (s : Formatted) (h0 : 0 ≤ s.bufferIndex)
    (hn : s.bufferIndex + n < 2 ^ 31) :
    ((List.replicate n (Piece.literal 65)).foldl (putPiece maxBufferLen tempBuffer args)
      s).bufferIndex = s.bufferIndex + n := by
  induction n generalizing s with
  | zero => simp
  | succ n ih =>
    have hnext : (putPiece maxBufferLen tempBuffer args s (.literal 65)).bufferIndex =
        s.bufferIndex + 1 := by
      show int32 (s.bufferIndex + 1) = s.bufferIndex + 1
      exact int32_eq (by omega) (by omega)
    rw [List.replicate_succ, List.foldl_cons, ih _ (by omega) (by omega), hnext]
    omega

theorem pieces_letters (n : Nat) :
    pieces (List.replicate n 65) = List.replicate n (Piece.literal 65) := by
  induction n with
  | zero => rfl
  | succ n ih =>
    rw [List.replicate_succ, pieces_cons_of_ne (by decide), ih, List.replicate_succ]

/-- A format of letters that stand for themselves. -/
def letters (n : Nat) : CString where
  bytes := List.replicate n 65
  ends := fun h => absurd (List.eq_of_mem_replicate h) (by decide)

/-- A format of 4096 letters: the end of the string is stored behind the buffer. -/
theorem letters_overflow :
    ¬ InBuffer 4096 (vsPrintfk (fun _ => 0) (letters 4096)
      ⟨fun _ => 0, fun _ => ⟨[], List.not_mem_nil⟩⟩) := by
  intro h
  have hgood := (inBuffer_iff_good _).mp h
  have hindex := hgood.index.2
  rw [formatLoop_eq, letters, pieces_letters,
    putLetters_index _ _ 4096 _ (le_refl _) (by norm_num)] at hindex
  norm_num at hindex

end Talios
