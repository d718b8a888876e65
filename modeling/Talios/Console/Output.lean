import Talios.Console.Format
import Talios.Console.Screen

set_option autoImplicit false

/-! # What `printf` prints

`printf` of the user library formats into a buffer of 1024 bytes, and `sys_putstring` has the kernel format
that string once more, with `"%s"`, into one of 4096 bytes, whose characters `ColorPrintfk` prints. If what
the format asks for fits the first buffer, just that is printed (`printf_rendered`).
-/

namespace Talios

open Bytes Word

/-! ## The calls -/

def BLACK : BitVec 32 := 0x000000
def BLUE : BitVec 32 := 0x0062FF

/-- The first characters of a buffer. -/
def bufferText (f : Int → UInt8) (n : Int) : List UInt8 := (List.range n.toNat).map (fun i : Nat => f (i : Int))

/-- What the arrays on the two stacks have held before: those of `printf` and `vsprintf`, and those of
`ColorPrintfk` and `VsPrintfk`. -/
structure Arrays where
  buf : Int → UInt8
  tempBuffer : Buffer
  buffer : Int → UInt8
  tempBuffer' : Buffer

theorem zero_not_mem_untilZero (f : Buffer) : ∀ fuel i, 0 ∉ untilZero f fuel i
  | 0, _ => List.not_mem_nil
  | fuel + 1, i => by
      rw [untilZero]
      split_ifs with h
      · exact List.not_mem_nil
      · rw [List.mem_cons, not_or]
        exact ⟨Ne.symm h, zero_not_mem_untilZero f fuel (i + 1)⟩

/-- The string at the start of a buffer. -/
def stringIn (f : Int → UInt8) (size : Nat) : CString where
  bytes := untilZero (fun i => f i) size 0
  ends := zero_not_mem_untilZero _ _ _

/-- The format `"%s"`. -/
def percentS : CString := ⟨[37, 115], by decide⟩

/-- `sys_putstring`: the call of `ColorPrintfk`, with the text that `VsPrintfk` leaves. -/
def sysPutstring (arrays : Arrays) (string : CString) : PrintCall :=
  let r := vsPrintfk arrays.tempBuffer' percentS ⟨fun _ => 0, fun _ => string⟩
  ⟨BLUE, BLACK, bufferText (applyStores arrays.buffer r.1) r.2⟩

/-- `printf`. -/
def printf (arrays : Arrays) (fmt : CString) (args : VaList) : PrintCall :=
  let r := vsprintf arrays.tempBuffer fmt args
  sysPutstring arrays (stringIn (applyStores arrays.buf r.1) 1024)

/-! ## Renderings -/

/-- The characters of an output. -/
def Output.chars : Output → List UInt8
  | .character c => [c]
  | .text t _ => t

/-- What a piece stands for: itself, a numeral, or an argument. -/
def Piece.chars (args : VaList) (taken : Nat) : Piece → List UInt8
  | .literal c => [c]
  | .convert c =>
      let arg := args.word taken
      if c = 120 then writtenText (arg.setWidth 32).toNat 16 false
      else if c = 88 then writtenText arg.toInt 16 true
      else if c = 100 then writtenText (arg.setWidth 32).toInt 10 false
      else if c = 68 then writtenText arg.toInt 10 false
      else if c = 115 then (args.string arg).bytes
      else if c = 99 then [UInt8.ofBitVec (arg.setWidth 8)]
      else if c = 112 then writtenText arg.toInt 16 false
      else if c = 37 then [37]
      else [63]

/-- Whether a piece takes an argument. -/
def Piece.takes : Piece → Nat
  | .literal _ => 0
  | .convert c => if c ∈ ([120, 88, 100, 68, 115, 99, 112] : List UInt8) then 1 else 0

/-- What some pieces stand for, with so many arguments taken before. -/
def rendered (args : VaList) : Nat → List Piece → List UInt8
  | _, [] => []
  | taken, p :: ps => p.chars args taken ++ rendered args (taken + p.takes) ps

/-! ## One piece -/

theorem numberOutput_chars (tempBuffer : Buffer) (num : Int) {base : Nat} (hb : 10 ≤ base) (hb2 : base ≤ 16)
    (upper : Bool) : (numberOutput tempBuffer num base upper).chars = writtenText num base upper := by
  have hlen := writtenText_length hb num upper
  obtain ⟨f, hf, hheld⟩ := numToString_eq (by omega : 2 ≤ base) hb2 tempBuffer num upper
  rw [numberOutput, hf]
  exact untilZero_eq hheld (Nat.zero_le _) (by omega)

/-- The `switch` asks for what the piece stands for. -/
theorem Piece.output_chars (tempBuffer : Buffer) (args : VaList) (taken : Nat) (p : Piece) :
    (p.output tempBuffer args taken).1.chars = p.chars args taken ∧
      (p.output tempBuffer args taken).2 = taken + p.takes := by
  cases p with
  | literal c => exact ⟨rfl, rfl⟩
  | convert c =>
      have hnum : ∀ num base upper, 10 ≤ base → base ≤ 16 →
          (numberOutput tempBuffer num base upper).chars = writtenText num base upper :=
        fun num base upper h1 h2 => numberOutput_chars tempBuffer num h1 h2 upper
      show (conversion tempBuffer args taken c).1.chars = _ ∧ (conversion tempBuffer args taken c).2 = _
      unfold conversion Piece.chars Piece.takes
      by_cases h1 : c = 37
      · subst h1; exact ⟨rfl, rfl⟩
      by_cases h2 : c = 120
      · subst h2; exact ⟨hnum _ 16 false (by decide) (by decide), rfl⟩
      by_cases h3 : c = 88
      · subst h3; exact ⟨hnum _ 16 true (by decide) (by decide), rfl⟩
      by_cases h4 : c = 100
      · subst h4; exact ⟨hnum _ 10 false (by decide) (by decide), rfl⟩
      by_cases h5 : c = 68
      · subst h5; exact ⟨hnum _ 10 false (by decide) (by decide), rfl⟩
      by_cases h6 : c = 115
      · subst h6; exact ⟨rfl, rfl⟩
      by_cases h7 : c = 99
      · subst h7; exact ⟨rfl, rfl⟩
      by_cases h8 : c = 112
      · subst h8; exact ⟨hnum _ 16 false (by decide) (by decide), rfl⟩
      · simp [h1, h2, h3, h4, h5, h6, h7, h8, Output.chars]

/-! ## The buffer -/

/-- The text stands at the start of the buffer, and the index behind it. -/
structure Formatted.Holds (s : Formatted) (t : List UInt8) : Prop where
  index : s.bufferIndex = t.length
  bytes : ∀ before, ∀ i < t.length, applyStores before s.stores i = t.getD i 0

section

variable {maxBufferLen : Int}

theorem applyStores_copyStores {before : Int → UInt8} {i : Int} {t : List UInt8} :
    ∀ k < t.length, applyStores before (copyStores i t) (i + k) = t.getD k 0 := by
  induction t generalizing i before with
  | nil => intro k hk; simp at hk
  | cons c t ih =>
      intro k hk
      rw [copyStores, applyStores, List.foldl_cons]
      cases k with
      | zero =>
          have hkeep : applyStores (Function.update before i c) (copyStores (i + 1) t) i =
              Function.update before i c i := applyStores_copyStores_lt (lt_add_one i)
          rw [Function.update_self] at hkeep
          rw [Nat.cast_zero, add_zero]
          exact hkeep
      | succ k =>
          have hrest := @ih (Function.update before i c) (i + 1) k (by simpa using hk)
          rw [show i + 1 + (k : Int) = i + ((k + 1 : Nat) : Int) by push_cast; ring] at hrest
          exact hrest

theorem Formatted.put_taken (s : Formatted) (o : Output) : (s.put maxBufferLen o).taken = s.taken := by
  cases o with
  | character c => rfl
  | text u n =>
      unfold Formatted.put
      dsimp only
      split_ifs <;> rfl

/-- **One piece more.** -/
theorem Formatted.Holds.put {s : Formatted} {t : List UInt8} (h : s.Holds t) {o : Output} (ho : o.WellFormed)
    (h2 : maxBufferLen ≤ 2 ^ 30) (hfits : ((t ++ o.chars).length : Int) < maxBufferLen) :
    (s.put maxBufferLen o).Holds (t ++ o.chars) := by
  have hindex := h.index
  cases o with
  | character c =>
      rw [Output.chars, List.length_append, List.length_singleton] at hfits
      push_cast at hfits
      have hnext : int32 (s.bufferIndex + 1) = s.bufferIndex + 1 := int32_eq (by omega) (by omega)
      refine ⟨?_, fun before i hi => ?_⟩
      · rw [Formatted.put, hnext, Output.chars, List.length_append, List.length_singleton]
        push_cast
        omega
      · rw [Output.chars, List.length_append, List.length_singleton] at hi
        show applyStores before (s.stores ++ [(s.bufferIndex, c)]) i = (t ++ [c]).getD i 0
        rw [applyStores_append, applyStores_singleton]
        by_cases hlast : i = t.length
        · rw [hindex, hlast, Function.update_self, List.getD_append_right _ _ _ _ le_rfl, Nat.sub_self]
          rfl
        · rw [Function.update_of_ne (by omega), h.bytes before i (by omega),
            List.getD_append _ _ _ _ (by omega)]
  | text u indexIncre =>
      obtain ⟨-, hlen⟩ : 0 ∉ u ∧ indexIncre = int32 u.length := ho
      rw [Output.chars, List.length_append] at hfits
      push_cast at hfits
      have hu : int32 (u.length : Int) = u.length := int32_eq (by omega) (by omega)
      have hsum : int32 (s.bufferIndex + u.length) = s.bufferIndex + u.length :=
        int32_eq (by omega) (by omega)
      have hroom : ¬ maxBufferLen ≤ int32 (indexIncre + s.bufferIndex) := by
        rw [hlen, hu, add_comm, hsum]
        omega
      refine ⟨?_, fun before i hi => ?_⟩
      · rw [Formatted.put, if_neg hroom, hlen, hu, Output.chars, List.length_append]
        show int32 (s.bufferIndex + u.length) = _
        rw [hsum]
        push_cast
        omega
      · rw [Formatted.put, if_neg hroom]
        show applyStores before (s.stores ++ copyStores s.bufferIndex u) i = (t ++ u).getD i 0
        rw [Output.chars, List.length_append] at hi
        rw [applyStores_append]
        by_cases hlt : i < t.length
        · rw [applyStores_copyStores_lt (by omega), h.bytes before i hlt, List.getD_append _ _ _ _ hlt]
        · have hcopy := @applyStores_copyStores (applyStores before s.stores) s.bufferIndex u (i - t.length)
            (by omega)
          rw [show s.bufferIndex + ((i - t.length : Nat) : Int) = i by omega] at hcopy
          rw [hcopy, List.getD_append_right _ _ _ _ (by omega)]

/-- **All pieces.** -/
theorem Formatted.Holds.pieces (tempBuffer : Buffer) (args : VaList) (h2 : maxBufferLen ≤ 2 ^ 30)
    {ps : List Piece} : ∀ {s : Formatted} {t : List UInt8}, s.Holds t →
      ((t ++ rendered args s.taken ps).length : Int) < maxBufferLen →
      (ps.foldl (putPiece maxBufferLen tempBuffer args) s).Holds (t ++ rendered args s.taken ps) := by
  induction ps with
  | nil =>
      intro s t h _
      rw [rendered, List.append_nil]
      exact h
  | cons p ps ih =>
      intro s t h hfits
      obtain ⟨hchars, htakes⟩ := p.output_chars tempBuffer args s.taken
      rw [rendered, ← List.append_assoc] at hfits ⊢
      have hlen : ((t ++ p.chars args s.taken).length : Int) ≤
          ((t ++ p.chars args s.taken ++ rendered args (s.taken + p.takes) ps).length : Int) := by
        exact_mod_cast (List.sublist_append_left (t ++ p.chars args s.taken) _).length_le
      have hone : (putPiece maxBufferLen tempBuffer args s p).Holds (t ++ p.chars args s.taken) := by
        have hsame : ({ s with taken := s.taken + p.takes } : Formatted).Holds t := ⟨h.index, h.bytes⟩
        have hput := hsame.put (p.output_wellFormed tempBuffer args s.taken) h2 (by rw [hchars]; omega)
        rw [hchars, ← htakes] at hput
        exact hput
      have htaken : (putPiece maxBufferLen tempBuffer args s p).taken = s.taken + p.takes := by
        rw [← htakes]
        exact Formatted.put_taken _ _
      have hrest := ih hone (by rw [htaken]; exact hfits)
      rw [htaken] at hrest
      exact hrest

/-- The buffer behind a format whose rendering fits. -/
theorem format_rendered (tempBuffer : Buffer) (fmt : CString) (args : VaList) (h2 : maxBufferLen ≤ 2 ^ 30)
    (hfits : ((rendered args 0 (pieces fmt.bytes)).length : Int) < maxBufferLen) (before : Int → UInt8) :
    (format maxBufferLen tempBuffer fmt args).2 = (rendered args 0 (pieces fmt.bytes)).length ∧
      ∀ i ≤ (rendered args 0 (pieces fmt.bytes)).length,
        applyStores before (format maxBufferLen tempBuffer fmt args).1 i
          = (rendered args 0 (pieces fmt.bytes)).getD i 0 := by
  have hinit : Formatted.Holds ⟨0, [], 0⟩ [] := ⟨rfl, fun _ i hi => absurd hi (Nat.not_lt_zero i)⟩
  have hholds := @Formatted.Holds.pieces _ tempBuffer args h2 (Talios.pieces fmt.bytes) _ _ hinit (by simpa using hfits)
  rw [List.nil_append, ← formatLoop_eq] at hholds
  dsimp only at hholds
  refine ⟨hholds.index, fun i hi => ?_⟩
  show applyStores before (_ ++ [(_, 0)]) i = _
  rw [applyStores_append, applyStores_singleton, hholds.index]
  by_cases hlast : i = (rendered args 0 (pieces fmt.bytes)).length
  · rw [hlast, Function.update_self, List.getD_eq_default _ _ le_rfl]
  · rw [Function.update_of_ne (by omega), hholds.bytes before i (by omega)]

end

/-! ## The text -/

theorem bufferText_eq {f : Int → UInt8} {n : Int} {t : List UInt8} (hn : n = t.length)
    (h : ∀ i < t.length, f i = t.getD i 0) : bufferText f n = t := by
  unfold bufferText
  rw [hn, Int.toNat_natCast]
  refine List.ext_getElem (by simp) (fun i h1 h2 => ?_)
  rw [List.getElem_map, List.getElem_range, h i h2, List.getD_eq_getElem _ _ h2]

theorem untilZero_text {f : Buffer} {t : List UInt8} (h0 : 0 ∉ t) (h : ∀ i ≤ t.length, f i = t.getD i 0) :
    ∀ {fuel i : Nat}, i ≤ t.length → t.length < fuel + i → untilZero f fuel i = t.drop i := by
  intro fuel
  induction fuel with
  | zero => intro i h1 h2; omega
  | succ fuel ih =>
      intro i hi hf
      rw [untilZero, h i hi]
      rcases Nat.lt_or_eq_of_le hi with hlt | rfl
      · rw [List.getD_eq_getElem _ _ hlt,
          if_neg (fun hz => h0 (by rw [← hz]; exact List.getElem_mem hlt)), ih hlt (by omega),
          List.getElem_cons_drop]
      · rw [List.getD_eq_default _ _ le_rfl, if_pos rfl, List.drop_length]

/-- A string is printed as it is. -/
theorem sysPutstring_eq (arrays : Arrays) (string : CString) (h : string.bytes.length < 4096) :
    sysPutstring arrays string = ⟨BLUE, BLACK, string.bytes⟩ := by
  have hrendered : rendered ⟨fun _ => 0, fun _ => string⟩ 0 (pieces percentS.bytes) = string.bytes :=
    List.append_nil _
  obtain ⟨hlen, hbytes⟩ := @format_rendered 4096 arrays.tempBuffer' percentS
    ⟨fun _ => 0, fun _ => string⟩ (by norm_num) (by rw [hrendered]; exact_mod_cast h) arrays.buffer
  rw [hrendered] at hlen hbytes
  exact congrArg (PrintCall.mk BLUE BLACK) (bufferText_eq hlen (fun i hi => hbytes i hi.le))

/-- **`printf` prints what its format stands for**, if that is a string that fits the buffer of 1024
bytes. -/
theorem printf_rendered (arrays : Arrays) (fmt : CString) (args : VaList)
    (hzero : 0 ∉ rendered args 0 (pieces fmt.bytes)) (hfits : (rendered args 0 (pieces fmt.bytes)).length < 1024) :
    printf arrays fmt args = ⟨BLUE, BLACK, rendered args 0 (pieces fmt.bytes)⟩ := by
  obtain ⟨-, hbytes⟩ := @format_rendered 1024 arrays.tempBuffer fmt args (by norm_num)
    (by exact_mod_cast hfits) arrays.buf
  have hstring : (stringIn (applyStores arrays.buf (vsprintf arrays.tempBuffer fmt args).1) 1024).bytes
      = rendered args 0 (pieces fmt.bytes) :=
    untilZero_text hzero hbytes (Nat.zero_le _) (by omega)
  have hput := sysPutstring_eq arrays
    (stringIn (applyStores arrays.buf (vsprintf arrays.tempBuffer fmt args).1) 1024)
    (by rw [hstring]; omega)
  rw [hstring] at hput
  exact hput

end Talios
