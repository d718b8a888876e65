import Talios.Lib.Bytes
import Talios.Lib.Word
import Mathlib.Data.Nat.Digits.Lemmas

set_option autoImplicit false

/-! # Numbers as text

`NumToString`, of the kernel and of the user library. It writes the digits from the last one on, then
the sign and the prefix, and turns the text around in place.

`DoDiv` divides numbers without sign. A negative number is written with the digits of what its 64
bits stand for, behind the sign (`numToString_canonical`).
-/

namespace Talios

open Bytes Word

/-! ## The code -/

/-- `*(Ptr++) = c`, of a buffer and its pointer. -/
def emit (b : Buffer × Nat) (c : UInt8) : Buffer × Nat := (Function.update b.1 b.2 c, b.2 + 1)

/-- `Character`, for the remainder `res`. -/
def digitCharacter (upper : Bool) (res : Nat) : UInt8 :=
  if res > 9 then UInt8.ofNat (res - 10) + if upper then 65 else 97 else UInt8.ofNat res + 48

/-- The loop over `DoDiv`: `num` is the number without sign. Sixty-four divisions are enough for a
base from two on; `none` is a division by zero, or a loop without end. -/
def digitLoop (base : Nat) (upper : Bool) : Nat → Nat → Buffer × Nat → Option (Buffer × Nat)
  | 0, num, b => if num = 0 then some b else none
  | fuel + 1, num, b =>
      if num = 0 then some b
      else if base = 0 then none
      else digitLoop base upper fuel (num / base) (emit b (digitCharacter upper (num % base)))

/-- `SwitchMem`. -/
def switchMem (f : Buffer) (i j : Nat) : Buffer :=
  Function.update (Function.update f i (f j)) j (f i)

/-- The loop that turns the text around. -/
def reverseLoop : Nat → Nat → Nat → Buffer → Buffer
  | 0, _, _, f => f
  | fuel + 1, headPtr, tailPtr, f =>
      if headPtr < tailPtr then reverseLoop fuel (headPtr + 1) (tailPtr - 1) (switchMem f headPtr tailPtr)
      else f

/-- `NumToString` of `kernel/lib.c`: the buffer and the length. -/
def numToString (buffer : Buffer) (num : Int) (base : Nat) (upper : Bool) : Option (Buffer × Nat) :=
  let b := if num = 0 then emit (buffer, 0) 48 else (buffer, 0)
  -- `DoDiv` takes the 64 bits of `num` as a number without sign
  (digitLoop base upper 64 (ulong num) b).map (fun b =>
    -- the sign and the prefix come last, since the text is turned around
    let b := if num < 0 ∧ base = 10 then emit b 45 else b
    let b := if base = 16 then emit (emit b 120) 48 else b
    let f := reverseLoop b.2 0 (b.2 - 1) b.1
    (Function.update f b.2 0, b.2))

/-- `NumToString` of `user/printf.c`, which has the same text. -/
def userNumToString (buffer : Buffer) (num : Int) (base : Nat) (upper : Bool) :
    Option (Buffer × Nat) := numToString buffer num base upper

/-! ## Numerals -/

/-- The digits up to base 16. -/
def digitLetters (upper : Bool) : List UInt8 :=
  [48, 49, 50, 51, 52, 53, 54, 55, 56, 57] ++
    if upper then [65, 66, 67, 68, 69, 70] else [97, 98, 99, 100, 101, 102]

/-- The canonical numeral. -/
def numeral (base : Nat) (upper : Bool) (n : Nat) : List UInt8 :=
  if n = 0 then [48] else (Nat.digits base n).reverse.map (fun d => (digitLetters upper).getD d 0)

/-- The decimal numeral of a number with sign. -/
def decimalNumeral (n : Int) : List UInt8 :=
  if n < 0 then 45 :: numeral 10 false n.natAbs else numeral 10 false n.natAbs

/-- The hexadecimal numeral of the 64 bits of a number, with its prefix. -/
def hexNumeral (upper : Bool) (n : Int) : List UInt8 := 48 :: 120 :: numeral 16 upper (ulong n)

/-- The buffer holds the string `l` and its end, and is as before behind it. -/
structure HoldsText (before after : Buffer) (l : List UInt8) : Prop where
  bytes : ∀ i < l.length, after i = l.getD i 0
  stop : after l.length = 0
  rest : ∀ i, l.length < i → after i = before i
  letters : 0 ∉ l

/-- What `NumToString` should do with `n`. -/
def NumberWritten (n : Int) : Prop :=
  ∀ buffer : Buffer,
    (∃ f, numToString buffer n 10 false = some (f, (decimalNumeral n).length) ∧
      HoldsText buffer f (decimalNumeral n) ∧ (decimalNumeral n).length ≤ 39) ∧
    (∀ upper, ∃ f, numToString buffer n 16 upper = some (f, (hexNumeral upper n).length) ∧
      HoldsText buffer f (hexNumeral upper n) ∧ (hexNumeral upper n).length ≤ 39) ∧
    ∀ base upper, userNumToString buffer n base upper = numToString buffer n base upper

/-! ## The digits -/

/-- Characters emitted one after the other stand one after the other. -/
theorem foldl_emit (l : List UInt8) (f : Buffer) (p : Nat) :
    l.foldl emit (f, p) = (overlay f p l.length (fun i => l.getD i 0), p + l.length) := by
  induction l generalizing f p with
  | nil =>
    have hf : overlay f p 0 (fun i => ([] : List UInt8).getD i 0) = f :=
      overlay_eq_self (fun j hj => absurd hj (Nat.not_lt_zero j))
    exact congrArg (·, p) hf.symm
  | cons c l ih =>
    rw [List.foldl_cons, emit, ih, List.length_cons]
    refine Prod.ext ?_ (by simp; omega)
    funext i
    show overlay (Function.update f p c) (p + 1) l.length (fun i => l.getD i 0) i =
      overlay f p (l.length + 1) (fun i => (c :: l).getD i 0) i
    rcases lt_trichotomy i p with hi | rfl | hi
    · rw [overlay_of_lt (by omega), overlay_of_lt hi, Function.update_of_ne (by omega)]
    · rw [overlay_of_lt (by omega), overlay_of_mem (le_refl i) (by omega)]
      simp
    · by_cases hi2 : i < p + (l.length + 1)
      · rw [overlay_of_mem hi (by omega), overlay_of_mem (by omega) hi2,
          show i - p = i - (p + 1) + 1 by omega, List.getD_cons_succ]
      · rw [overlay_of_ge (by omega), overlay_of_ge (by omega), Function.update_of_ne (by omega)]

/-- The loop over `DoDiv` emits the digits, the last one first. -/
theorem digitLoop_eq {base : Nat} (hb : 2 ≤ base) (upper : Bool) {fuel num : Nat}
    (hn : num < base ^ fuel) (b : Buffer × Nat) :
    digitLoop base upper fuel num b =
      some (((Nat.digits base num).map (digitCharacter upper)).foldl emit b) := by
  induction fuel generalizing num b with
  | zero =>
    -- a number that is zero has no digits here; its `0` has been emitted before the loop
    obtain rfl : num = 0 := by simpa using hn
    simp [digitLoop]
  | succ fuel ih =>
    rw [digitLoop]
    split_ifs with h0 hb0
    · simp [h0]
    · omega
    · have hdiv : num / base < base ^ fuel := Nat.div_lt_of_lt_mul (by rwa [← pow_succ'])
      have hdigits : Nat.digits base num = num % base :: Nat.digits base (num / base) :=
        Nat.digits_def' hb (Nat.pos_of_ne_zero h0)
      rw [ih hdiv, hdigits]
      rfl

/-- The text turned around in place: what stood at `i` stands at its mirror image. -/
theorem reverseLoop_eq (fuel headPtr tailPtr : Nat) (hf : tailPtr ≤ headPtr + 2 * fuel) (f : Buffer)
    (i : Nat) :
    reverseLoop fuel headPtr tailPtr f i =
      if headPtr ≤ i ∧ i ≤ tailPtr then f (headPtr + tailPtr - i) else f i := by
  induction fuel generalizing headPtr tailPtr f with
  | zero =>
    simp only [reverseLoop]
    split_ifs with hi
    · congr 1
      omega
    · rfl
  | succ fuel ih =>
    rw [reverseLoop]
    split_ifs with hht hi hi
    -- one step of the loop swaps the two ends, and the rest is turned around between them
    · rw [ih _ _ (by omega)]
      split_ifs with hin
      · have hne : headPtr + 1 + (tailPtr - 1) - i ≠ headPtr ∧
            headPtr + 1 + (tailPtr - 1) - i ≠ tailPtr := by omega
        rw [switchMem, Function.update_of_ne hne.2, Function.update_of_ne hne.1]
        congr 1
        omega
      · obtain rfl | rfl : i = headPtr ∨ i = tailPtr := by omega
        · rw [switchMem, Function.update_of_ne (by omega), Function.update_self]
          congr 1
          omega
        · rw [switchMem, Function.update_self]
          congr 1
          omega
    · rw [ih _ _ (by omega), if_neg (by omega), switchMem, Function.update_of_ne (by omega),
        Function.update_of_ne (by omega)]
    · congr 1
      omega
    · rfl

/-! ## The text -/

/-- What `NumToString` writes. -/
def writtenText (num : Int) (base : Nat) (upper : Bool) : List UInt8 :=
  (if base = 16 then [48, 120] else []) ++ (if num < 0 ∧ base = 10 then [45] else []) ++
    ((Nat.digits base (ulong num)).map (digitCharacter upper)).reverse ++
    (if num = 0 then [48] else [])

/-- A text written backwards, turned around and ended. -/
theorem holdsText_reverse (before : Buffer) {l : List UInt8} (hl : 0 ∉ l) {b : Buffer × Nat}
    (hb : b = l.reverse.foldl emit (before, 0)) :
    b.2 = l.length ∧
      HoldsText before (Function.update (reverseLoop b.2 0 (b.2 - 1) b.1) b.2 0) l := by
  rw [foldl_emit, List.length_reverse, Nat.zero_add] at hb
  subst hb
  -- the end of the text is the only index that is not turned around
  have hrev (i : Nat) (hi : i ≠ l.length) :
      Function.update (reverseLoop l.length 0 (l.length - 1)
        (overlay before 0 l.length (fun i => l.reverse.getD i 0))) l.length 0 i =
      if i ≤ l.length - 1 then overlay before 0 l.length (fun i => l.reverse.getD i 0) (l.length - 1 - i)
      else overlay before 0 l.length (fun i => l.reverse.getD i 0) i := by
    rw [Function.update_of_ne hi, reverseLoop_eq _ _ _ (by omega)]
    simp
  refine ⟨rfl, ⟨fun i hi => ?_, Function.update_self .., fun i hi => ?_, hl⟩⟩
  · rw [hrev i (by omega), if_pos (by omega), overlay_zero_left (by omega)]
    rw [List.getD_eq_getElem _ _ (by simp; omega), List.getD_eq_getElem _ _ hi, List.getElem_reverse]
    congr 1
    omega
  · rw [hrev i (by omega), if_neg (by omega), overlay_of_ge (by omega)]

/-- The digits up to base 16, as they are emitted. -/
theorem digitCharacter_eq {d : Nat} (hd : d < 16) (upper : Bool) :
    digitCharacter upper d = (digitLetters upper).getD d 0 ∧ digitCharacter upper d ≠ 0 := by
  revert d upper
  decide

/-- No character of the text ends it. -/
theorem zero_not_mem_writtenText {base : Nat} (hb : 2 ≤ base) (hb2 : base ≤ 16) (num : Int)
    (upper : Bool) : 0 ∉ writtenText num base upper := by
  have hdigits : 0 ∉ (Nat.digits base (ulong num)).map (digitCharacter upper) := by
    intro hmem
    obtain ⟨d, hd, hd0⟩ := List.mem_map.mp hmem
    exact (digitCharacter_eq (lt_of_lt_of_le (Nat.digits_lt_base hb hd) hb2) upper).2 hd0
  rw [writtenText]
  simp only [List.mem_append, List.mem_reverse, hdigits, or_false, not_or]
  refine ⟨⟨?_, ?_⟩, ?_⟩ <;> split_ifs <;> simp

/-- `NumToString` writes its text. -/
theorem numToString_eq {base : Nat} (hb : 2 ≤ base) (hb2 : base ≤ 16) (buffer : Buffer) (num : Int)
    (upper : Bool) :
    ∃ f, numToString buffer num base upper = some (f, (writtenText num base upper).length) ∧
      HoldsText buffer f (writtenText num base upper) := by
  -- a base of two on needs no more divisions than there are bits
  have hfuel : ulong num < base ^ 64 := by
    have hlt : ulong num < 2 ^ 64 := by
      unfold ulong
      omega
    exact lt_of_lt_of_le hlt (Nat.pow_le_pow_left hb 64)
  have hrun : ∀ b, (digitLoop base upper 64 (ulong num) b) =
      some (((Nat.digits base (ulong num)).map (digitCharacter upper)).foldl emit b) :=
    digitLoop_eq hb upper hfuel
  obtain ⟨hlen, hheld⟩ := holdsText_reverse buffer (zero_not_mem_writtenText hb hb2 num upper) rfl
  refine ⟨_, ?_, hheld⟩
  rw [numToString, hrun, ← hlen, Option.map_some]
  simp only [writtenText, List.reverse_append, List.reverse_reverse, List.foldl_append]
  split_ifs <;> rfl

/-- The numerals, as the digits are emitted. -/
theorem numeral_eq {base : Nat} (hb : 2 ≤ base) (hb2 : base ≤ 16) (upper : Bool) (n : Nat) :
    numeral base upper n =
      ((Nat.digits base n).map (digitCharacter upper)).reverse ++ if n = 0 then [48] else [] := by
  rw [numeral]
  split_ifs with h0
  · simp [h0]
  · rw [List.append_nil, ← List.map_reverse]
    refine List.map_congr_left fun d hd => ?_
    have hlt : d < base := Nat.digits_lt_base hb (List.mem_reverse.mp hd)
    exact (digitCharacter_eq (lt_of_lt_of_le hlt hb2) upper).1.symm

/-- The number that a numeral stands for. -/
def numeralValue (base : Nat) (upper : Bool) (l : List UInt8) : Nat :=
  Nat.ofDigits base (l.reverse.map (fun c => (digitLetters upper).idxOf c))

/-- A numeral is read back as the number. -/
theorem numeralValue_numeral {base : Nat} (hb : 2 ≤ base) (hb2 : base ≤ 16) (upper : Bool)
    (n : Nat) : numeralValue base upper (numeral base upper n) = n := by
  have hread : ∀ d < 16, (digitLetters upper).idxOf ((digitLetters upper).getD d 0) = d := by
    revert upper
    decide
  rw [numeralValue, numeral]
  split_ifs with h0
  · have hzero : (digitLetters upper).idxOf 48 = 0 := hread 0 (by omega)
    simp [hzero, h0]
  · rw [← List.map_reverse, List.reverse_reverse, List.map_map]
    have hdigits : (Nat.digits base n).map
        ((fun c => (digitLetters upper).idxOf c) ∘ fun d => (digitLetters upper).getD d 0) =
        Nat.digits base n := by
      refine (List.map_congr_left fun d hd => ?_).trans (List.map_id _)
      exact hread d (lt_of_lt_of_le (Nat.digits_lt_base hb hd) hb2)
    rw [hdigits, Nat.ofDigits_digits]

/-- A numeral has no leading zero. -/
theorem numeral_head {base : Nat} (hb : 2 ≤ base) (hb2 : base ≤ 16) (upper : Bool) {n : Nat}
    (hn : n ≠ 0) : (numeral base upper n).head? ≠ some 48 := by
  have hne : Nat.digits base n ≠ [] := Nat.digits_ne_nil_iff_ne_zero.mpr hn
  have hlast : (Nat.digits base n).getLast hne ≠ 0 := Nat.getLast_digit_ne_zero base hn
  have hlt : (Nat.digits base n).getLast hne < 16 :=
    lt_of_lt_of_le (Nat.digits_lt_base hb (List.getLast_mem hne)) hb2
  have hletter : ∀ d < 16, d ≠ 0 → (digitLetters upper).getD d 0 ≠ 48 := by
    revert upper
    decide
  rw [numeral, if_neg hn, List.head?_map, List.head?_reverse, List.getLast?_eq_some_getLast hne]
  intro h
  exact hletter _ hlt hlast (Option.some.inj h)

/-- The numerals of 64 bits are short. -/
theorem numeral_length {base : Nat} (hb : 10 ≤ base) (upper : Bool) {n : Nat} (hn : n < 2 ^ 64) :
    (numeral base upper n).length ≤ 20 := by
  rw [numeral]
  split_ifs with h0
  · simp
  · rw [List.length_map, List.length_reverse, Nat.digits_length_le_iff (by omega)]
    calc n < 2 ^ 64 := hn
      _ ≤ 10 ^ 20 := by norm_num
      _ ≤ base ^ 20 := Nat.pow_le_pow_left hb 20

/-- The numbers of type `long`, without sign. -/
theorem ulong_eq_zero_iff {n : Int} (hn1 : -2 ^ 63 ≤ n) (hn2 : n < 2 ^ 63) :
    ulong n = 0 ↔ n = 0 := by
  unfold ulong
  omega

/-- In base 10 the text is the numeral of the number without sign, behind the sign. -/
theorem writtenText_ten {n : Int} (hn1 : -2 ^ 63 ≤ n) (hn2 : n < 2 ^ 63) :
    writtenText n 10 false = (if n < 0 then [45] else []) ++ numeral 10 false (ulong n) := by
  rw [numeral_eq (by norm_num) (by norm_num), writtenText]
  simp [ulong_eq_zero_iff hn1 hn2]

/-- In base 16 the text is the hexadecimal numeral. -/
theorem writtenText_sixteen {n : Int} (hn1 : -2 ^ 63 ≤ n) (hn2 : n < 2 ^ 63) (upper : Bool) :
    writtenText n 16 upper = hexNumeral upper n := by
  rw [hexNumeral, numeral_eq (by norm_num) (by norm_num), writtenText]
  simp [ulong_eq_zero_iff hn1 hn2]

/-- The decimal text is the decimal numeral of the numbers without sign, and of the least one. -/
theorem writtenText_eq_iff {n : Int} (hn1 : -2 ^ 63 ≤ n) (hn2 : n < 2 ^ 63) :
    writtenText n 10 false = decimalNumeral n ↔ 0 ≤ n ∨ n = -2 ^ 63 := by
  -- equal numerals stand for equal numbers
  have hvalue : numeral 10 false (ulong n) = numeral 10 false n.natAbs ↔ ulong n = n.natAbs := by
    refine ⟨fun h => ?_, fun h => by rw [h]⟩
    have := congrArg (numeralValue 10 false) h
    rwa [numeralValue_numeral (by norm_num) (by norm_num),
      numeralValue_numeral (by norm_num) (by norm_num)] at this
  have habs : ulong n = n.natAbs ↔ 0 ≤ n ∨ n = -2 ^ 63 := by
    unfold ulong
    omega
  rw [writtenText_ten hn1 hn2, decimalNumeral, ← habs, ← hvalue]
  split_ifs <;> simp

/-- A buffer holds one string of a length. -/
theorem HoldsText.unique {before f : Buffer} {l l' : List UInt8} (h : HoldsText before f l)
    (h' : HoldsText before f l') (hlen : l.length = l'.length) : l = l' := by
  refine List.ext_getElem hlen fun i hi hi' => ?_
  have hbyte : l.getD i 0 = l'.getD i 0 := (h.bytes i hi).symm.trans (h'.bytes i hi')
  rwa [List.getD_eq_getElem _ _ hi, List.getD_eq_getElem _ _ hi'] at hbyte

/-- Decimal numerals of 64 bits fit the buffer. -/
theorem decimalNumeral_length {n : Int} (hn1 : -2 ^ 63 ≤ n) (hn2 : n < 2 ^ 63) :
    (decimalNumeral n).length ≤ 39 := by
  have hlen : (numeral 10 false n.natAbs).length ≤ 20 := numeral_length (by norm_num) _ (by omega)
  rw [decimalNumeral]
  split_ifs
  · rw [List.length_cons]
    omega
  · omega

/-- So do the hexadecimal numerals. -/
theorem hexNumeral_length (n : Int) (upper : Bool) : (hexNumeral upper n).length ≤ 39 := by
  have hlt : ulong n < 2 ^ 64 := by
    unfold ulong
    omega
  have hlen : (numeral 16 upper (ulong n)).length ≤ 20 := numeral_length (by norm_num) _ hlt
  simp only [hexNumeral, List.length_cons]
  omega

/-- `NumToString` writes the canonical numeral of a number if and only if the number is not
negative, or is the least of its type. -/
theorem numToString_canonical (n : Int) (hn1 : -2 ^ 63 ≤ n) (hn2 : n < 2 ^ 63) :
    NumberWritten n ↔ 0 ≤ n ∨ n = -2 ^ 63 := by
  rw [← writtenText_eq_iff hn1 hn2]
  constructor
  · intro h
    obtain ⟨f, hf, hheld, -⟩ := (h (fun _ => 0)).1
    obtain ⟨f', hf', hheld'⟩ :=
      numToString_eq (by norm_num : 2 ≤ 10) (by norm_num) (fun _ => 0) n false
    rw [hf, Option.some.injEq, Prod.mk.injEq] at hf'
    obtain ⟨rfl, hlen⟩ := hf'
    exact hheld'.unique hheld hlen.symm
  · intro h buffer
    refine ⟨?_, fun upper => ?_, fun base upper => rfl⟩
    · obtain ⟨f, hf, hheld⟩ := numToString_eq (by norm_num : 2 ≤ 10) (by norm_num) buffer n false
      rw [h] at hf hheld
      exact ⟨f, hf, hheld, decimalNumeral_length hn1 hn2⟩
    · obtain ⟨f, hf, hheld⟩ := numToString_eq (by norm_num : 2 ≤ 16) (by norm_num) buffer n upper
      rw [writtenText_sixteen hn1 hn2] at hf hheld
      exact ⟨f, hf, hheld, hexNumeral_length n upper⟩

theorem numToString_canonical_five : NumberWritten 5 ∧ NumberWritten (-2 ^ 63) :=
  ⟨(numToString_canonical 5 (by norm_num) (by norm_num)).mpr (Or.inl (by norm_num)),
    (numToString_canonical (-2 ^ 63) (by norm_num) (by norm_num)).mpr (Or.inr rfl)⟩

/-- Minus one is written as `-18446744073709551615`. -/
theorem minusOne_miswritten :
    (∀ buffer : Buffer, ∃ f, numToString buffer (-1) 10 false = some (f, 21) ∧
      HoldsText buffer f
        [45, 49, 56, 52, 52, 54, 55, 52, 52, 48, 55, 51, 55, 48, 57, 53, 53, 49, 54, 49, 53]) ∧
      ¬ NumberWritten (-1) := by
  have htext : writtenText (-1) 10 false =
      [45, 49, 56, 52, 52, 54, 55, 52, 52, 48, 55, 51, 55, 48, 57, 53, 53, 49, 54, 49, 53] := by
    decide
  have hwrite (buffer : Buffer) :=
    numToString_eq (by norm_num : 2 ≤ 10) (by norm_num) buffer (-1) false
  rw [htext] at hwrite
  refine ⟨hwrite, fun h => ?_⟩
  obtain ⟨f, hf, -⟩ := hwrite (fun _ => 0)
  obtain ⟨f', hf', -⟩ := (h (fun _ => 0)).1
  have hlen : (decimalNumeral (-1)).length = 2 := by decide
  rw [hf, hlen] at hf'
  simp at hf'

end Talios
