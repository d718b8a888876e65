import Talios.Lib.Reading

set_option autoImplicit false

/-! # Scan codes

`AnalyzeKeyCode` of the shell: it reads codes of the keyboard with `GetScanCode`, sets the flags of
the modifier keys and returns a character, or 0. `GetScanCode` waits until there is a code, so that a
call is a program that reads from the stream of codes; `keyRun` makes one call after the other.

What a call does with one code is stated as `KeyFlags.press` and `KeyFlags.keyValue`; the lemmas
about whole calls use nothing else of the `switch`.
-/

namespace Talios

open StreamRead

/-! ## Data -/

def FLAG_BREAK : UInt8 := 0x80
def MAP_COLS : Nat := 2
def PAUSE_BREAK : UInt8 := 1
def PRINT_SCREEN : UInt8 := 2
def OTHER_KEY : UInt8 := 4

/-- `KeyCodeMapNormal`: for every scan code the character without and with shift, eight codes in a
line. -/
def keyCodeMapNormal : List UInt8 := [
    0, 0, 0, 0, 0x31, 0x21, 0x32, 0x40, 0x33, 0x23, 0x34, 0x24, 0x35, 0x25, 0x36, 0x5e,
    0x37, 0x26, 0x38, 0x2a, 0x39, 0x28, 0x30, 0x29, 0x2d, 0x5f, 0x3d, 0x2b, 0, 0, 0, 0,
    0x71, 0x51, 0x77, 0x57, 0x65, 0x45, 0x72, 0x52, 0x74, 0x54, 0x79, 0x59, 0x75, 0x55, 0x69, 0x49,
    0x6f, 0x4f, 0x70, 0x50, 0x5b, 0x7b, 0x5d, 0x7d, 0, 0, 0x1d, 0x1d, 0x61, 0x41, 0x73, 0x53,
    0x64, 0x44, 0x66, 0x46, 0x67, 0x47, 0x68, 0x48, 0x6a, 0x4a, 0x6b, 0x4b, 0x6c, 0x4c, 0x3b, 0x3a,
    0x27, 0x22, 0x60, 0x7e, 0x2a, 0x2a, 0x5c, 0x7c, 0x7a, 0x5a, 0x78, 0x58, 0x63, 0x43, 0x76, 0x56,
    0x62, 0x42, 0x6e, 0x4e, 0x6d, 0x4d, 0x2c, 0x3c, 0x2e, 0x3e, 0x2f, 0x3f, 0x36, 0x36, 0x2a, 0x2a,
    0x38, 0x38, 0x20, 0x20, 0, 0, 0, 0, 0, 0, 0, 0, 0, 0, 0, 0,
    0, 0, 0, 0, 0, 0, 0, 0, 0, 0, 0, 0, 0, 0, 0x37, 0,
    0x38, 0, 0x39, 0, 0x2d, 0, 0x34, 0, 0x35, 0, 0x36, 0, 0x2b, 0, 0x31, 0,
    0x32, 0, 0x33, 0, 0x30, 0, 0x2e, 0, 0, 0, 0, 0, 0, 0, 0, 0,
    0, 0, 0, 0, 0, 0, 0, 0, 0, 0, 0, 0, 0, 0, 0, 0,
    0, 0, 0, 0, 0, 0, 0, 0, 0, 0, 0, 0, 0, 0, 0, 0,
    0, 0, 0, 0, 0, 0, 0, 0, 0, 0, 0, 0, 0, 0, 0, 0,
    0, 0, 0, 0, 0, 0, 0, 0, 0, 0, 0, 0, 0, 0, 0, 0,
    0, 0, 0, 0, 0, 0, 0, 0, 0, 0, 0, 0, 0, 0, 0, 0
  ]

def pauseBreakCode : List UInt8 := [0xe1, 0x1d, 0x45, 0xe1, 0x9d, 0xc5]

/-- The flags of the modifier keys; each is 0 or 1. -/
structure KeyFlags where
  shiftL : Bool
  shiftR : Bool
  ctrlL : Bool
  ctrlR : Bool
  altL : Bool
  altR : Bool
  caps : Bool
deriving DecidableEq

/-- The flags at the start of the program. -/
def keyFlagsInit : KeyFlags := ⟨false, false, false, false, false, false, false⟩

/-! ## The calls -/

/-- `GetScanCode`. -/
def getScanCode : Reading UInt8 UInt8 := next

/-- `make`. -/
def isMake (x : UInt8) : Bool := decide (x &&& FLAG_BREAK = 0)

/-- The loop over `PauseBreakCode`: whether all of its codes come. -/
def matchCodes : List UInt8 → Reading UInt8 Bool
  | [] => pure true
  | w :: ws => do
      let x ← getScanCode
      if x ≠ w then pure false else matchCodes ws

/-- The codes behind `0xe0` whose case sets `CtrlL`. -/
def ctrlLCases : List UInt8 :=
  [0x48, 0x4b, 0x50, 0x4d, 0x52, 0x47, 0x49, 0x53, 0x4f, 0x51, 0x5b, 0x5c, 0x5d, 0x35, 0x1c]

/-- The branch of a code behind `0xe0`: the flags, the code, and `key`. -/
def extendedKey (s : KeyFlags) : Reading UInt8 (KeyFlags × UInt8 × UInt8) := do
  let x ← getScanCode
  if x &&& 0x7f = 0x2a then
    let y ← getScanCode
    if y = 0xe0 then
      let z ← getScanCode
      if z = 0x37 then pure (s, x, PRINT_SCREEN) else pure (s, x, 0)
    else pure (s, x, 0)
  else if x &&& 0x7f = 0x1d then pure ({ s with ctrlL := isMake x }, x, OTHER_KEY)
  else if x &&& 0x7f = 0x38 then pure ({ s with altR := isMake x }, x, OTHER_KEY)
  else if x &&& 0x7f ∈ ctrlLCases then pure ({ s with ctrlL := true }, x, OTHER_KEY)
  else pure (s, x, 0)

/-- The branch `key == 0`. -/
def normalKey (s : KeyFlags) (x : UInt8) : Reading UInt8 (KeyFlags × UInt8) :=
  let column := if s.shiftL || s.shiftR then 1 else 0
  let key := keyCodeMapNormal.getD ((x &&& 0x7f).toNat * MAP_COLS + column) 0
  if x &&& 0x7f = 0x01 then pure (s, 0)
  else if x &&& 0x7f = 0x0e then pure (s, 0x08)
  else if x &&& 0x7f = 0x0f then pure (s, 0x09)
  else if x &&& 0x7f = 0x1c then do
    let _ ← getScanCode
    pure (s, 0x0a)
  else if x &&& 0x7f = 0x2a then pure ({ s with shiftL := isMake x }, 0)
  else if x &&& 0x7f = 0x1d then pure ({ s with ctrlL := isMake x }, 0)
  else if x &&& 0x7f = 0x38 then pure ({ s with altL := isMake x }, 0)
  else if x &&& 0x7f = 0x36 then pure ({ s with shiftR := isMake x }, 0)
  else if x &&& 0x7f = 0x3a then pure ({ s with caps := !s.caps }, 0)
  else pure (s, if isMake x then key else 0)

/-- `AnalyzeKeyCode`. -/
def analyzeKeyCode (s : KeyFlags) : Reading UInt8 (KeyFlags × UInt8) := do
  let x ← getScanCode
  if x = 0xe1 then
    let whole ← matchCodes pauseBreakCode.tail
    if whole then pure (s, PAUSE_BREAK) else normalKey s x
  else if x = 0xe0 then
    let r ← extendedKey s
    if r.2.2 = 0 then normalKey r.1 r.2.1 else pure (r.1, r.2.2)
  else normalKey s x

/-- Calls of `AnalyzeKeyCode`, one after the other, until one waits. -/
def keyRun (s : KeyFlags) (codes : List UInt8) : Run UInt8 KeyFlags UInt8 :=
  run analyzeKeyCode s codes

/-! ## Events -/

/-- A key, by the codes it sends: one code, a code behind `0xe0`, or a sequence of its own. -/
inductive Key
  | plain (c : UInt8)
  | ext (c : UInt8)
  | printScreen
  | pause
deriving DecidableEq

/-- A key goes down, or comes up. -/
structure KeyEvent where
  key : Key
  make : Bool
deriving DecidableEq

/-- The code of a key going down, or coming up. -/
def codeOf (c : UInt8) (make : Bool) : UInt8 := if make then c else c ||| FLAG_BREAK

/-- The codes of an event. -/
def KeyEvent.codes (e : KeyEvent) : List UInt8 :=
  match e.key with
  | .plain c => [codeOf c e.make]
  | .ext c => [0xe0, codeOf c e.make]
  | .printScreen => if e.make then [0xe0, 0x2a, 0xe0, 0x37] else [0xe0, 0xb7, 0xe0, 0xaa]
  | .pause => pauseBreakCode

/-- A code that is a key's, going down or coming up. -/
def IsKeyCode (c : UInt8) : Prop := 0 < c ∧ c < 0x80 ∧ c ≠ 0x60 ∧ c ≠ 0x61

instance (c : UInt8) : Decidable (IsKeyCode c) := inferInstanceAs (Decidable (_ ∧ _ ∧ _ ∧ _))

/-- An event a keyboard can send. Behind `0xe0` the codes of the shift keys are no keys, and the
pause key sends nothing when it comes up. -/
def KeyEvent.Valid (e : KeyEvent) : Prop :=
  match e.key with
  | .plain c => IsKeyCode c
  | .ext c => IsKeyCode c ∧ c ≠ 0x2a ∧ c ≠ 0x36
  | .printScreen => True
  | .pause => e.make = true

/-- The codes of all events. -/
def codesOf (es : List KeyEvent) : List UInt8 := es.flatMap KeyEvent.codes

/-- The last event of the key was a press. -/
def held : List KeyEvent → Key → Bool
  | [], _ => false
  | es, k => ((es.filter (fun e => e.key = k)).getLast?.map KeyEvent.make).getD false

/-! ## Codes -/

theorem code_bits {c : UInt8} (h : c < 0x80) :
    (c ||| 0x80) &&& 0x7f = c ∧ (c ||| 0x80) &&& 0x80 ≠ 0 ∧ c &&& 0x7f = c ∧ c &&& 0x80 = 0 := by
  have hbits : ∀ b : BitVec 8, b < 0x80#8 → (b ||| 0x80#8) &&& 0x7f#8 = b ∧
      (b ||| 0x80#8) &&& 0x80#8 ≠ 0 ∧ b &&& 0x7f#8 = b ∧ b &&& 0x80#8 = 0 := by decide +kernel
  rcases hbits c.toBitVec h with ⟨h1, h2, h3, h4⟩
  refine ⟨UInt8.eq_of_toBitVec_eq h1, fun he => h2 (congrArg UInt8.toBitVec he),
    UInt8.eq_of_toBitVec_eq h3, UInt8.eq_of_toBitVec_eq h4⟩

section

variable {c : UInt8} (hc : IsKeyCode c) (b : Bool)
include hc

theorem codeOf_low : codeOf c b &&& 0x7f = c := by
  rcases code_bits hc.2.1 with ⟨h1, -, h3, -⟩
  cases b with
  | false => exact h1
  | true => exact h3

theorem isMake_codeOf : isMake (codeOf c b) = b := by
  rcases code_bits hc.2.1 with ⟨-, h2, -, h4⟩
  cases b with
  | false => exact decide_eq_false h2
  | true => exact decide_eq_true h4

/-- The code of a key is none of the two that start a sequence. -/
theorem codeOf_ne : codeOf c b ≠ 0xe0 ∧ codeOf c b ≠ 0xe1 := by
  have hlow := codeOf_low hc b
  constructor
  · intro he
    rw [he] at hlow
    exact hc.2.2.1 hlow.symm
  · intro he
    rw [he] at hlow
    exact hc.2.2.2 hlow.symm

end

/-! ## One call -/

/-- What the `switch` does to the flags. -/
def KeyFlags.press (s : KeyFlags) (c : UInt8) (make : Bool) : KeyFlags :=
  if c = 0x2a then { s with shiftL := make }
  else if c = 0x1d then { s with ctrlL := make }
  else if c = 0x38 then { s with altL := make }
  else if c = 0x36 then { s with shiftR := make }
  else if c = 0x3a then { s with caps := !s.caps }
  else s

/-- The codes of the modifiers, and of the caps lock key. -/
def modifierCodes : List UInt8 := [0x2a, 0x1d, 0x38, 0x36, 0x3a]

/-- The character of a key. -/
def KeyFlags.char (s : KeyFlags) (c : UInt8) : UInt8 :=
  keyCodeMapNormal.getD (c.toNat * MAP_COLS + if s.shiftL || s.shiftR then 1 else 0) 0

/-- What the `switch` makes of a code other than that of the enter key. -/
def KeyFlags.keyValue (s : KeyFlags) (c : UInt8) (make : Bool) : UInt8 :=
  if c = 0x01 then 0
  else if c = 0x0e then 0x08
  else if c = 0x0f then 0x09
  else if c ∈ modifierCodes then 0
  else if make then s.char c else 0

theorem normalKey_eq (s : KeyFlags) {x : UInt8} (hx : x &&& 0x7f ≠ 0x1c) (xs : List UInt8) :
    normalKey s x xs
      = some ((s.press (x &&& 0x7f) (isMake x), s.keyValue (x &&& 0x7f) (isMake x)), xs) := by
  unfold normalKey KeyFlags.press KeyFlags.keyValue KeyFlags.char
  generalize x &&& 0x7f = c at *
  simp only [ite_run, pure_apply, if_neg hx, modifierCodes, List.mem_cons, List.not_mem_nil,
    or_false]
  -- the cases of the `switch` are different codes
  by_cases h1 : c = 0x01
  · simp [h1]
  by_cases h2 : c = 0x0e
  · simp [h2]
  by_cases h3 : c = 0x0f
  · simp [h3]
  by_cases h4 : c = 0x2a
  · simp [h4]
  by_cases h5 : c = 0x1d
  · simp [h5]
  by_cases h6 : c = 0x38
  · simp [h6]
  by_cases h7 : c = 0x36
  · simp [h7]
  by_cases h8 : c = 0x3a
  · simp [h8]
  simp [h1, h2, h3, h4, h5, h6, h7, h8]

theorem normalKey_enter (s : KeyFlags) {x : UInt8} (hx : x &&& 0x7f = 0x1c) :
    normalKey s x [] = none ∧ ∀ y xs, normalKey s x (y :: xs) = some ((s, 0x0a), xs) := by
  unfold normalKey getScanCode
  rw [hx]
  simp

theorem analyze_code (s : KeyFlags) {x : UInt8} (h0 : x ≠ 0xe0) (h1 : x ≠ 0xe1) (xs : List UInt8) :
    analyzeKeyCode s (x :: xs) = normalKey s x xs := by
  unfold analyzeKeyCode getScanCode
  simp [h0, h1]

section

variable (s : KeyFlags) (xs : List UInt8)

/-- **A key with one code**, other than the enter key. -/
theorem analyze_plain {c : UInt8} (hc : IsKeyCode c) (h : c ≠ 0x1c) (b : Bool) :
    analyzeKeyCode s (codeOf c b :: xs) = some ((s.press c b, s.keyValue c b), xs) := by
  have hlow := codeOf_low hc b
  rw [analyze_code s (codeOf_ne hc b).1 (codeOf_ne hc b).2, normalKey_eq s (by rwa [hlow]), hlow,
    isMake_codeOf hc]

/-- **The enter key**: the call waits for another code, and takes it. -/
theorem analyze_enter (b : Bool) : analyzeKeyCode s [codeOf 0x1c b] = none ∧
    ∀ y, analyzeKeyCode s (codeOf 0x1c b :: y :: xs) = some ((s, 0x0a), xs) := by
  have hc : IsKeyCode 0x1c := by decide
  have hcall := analyze_code s (codeOf_ne hc b).1 (codeOf_ne hc b).2
  have henter := normalKey_enter s (codeOf_low hc b)
  exact ⟨(hcall []).trans henter.1, fun y => (hcall _).trans (henter.2 y xs)⟩

/-- What the branch of a code behind `0xe0` does to the flags. -/
def KeyFlags.extPress (s : KeyFlags) (c : UInt8) (make : Bool) : KeyFlags :=
  if c = 0x1d then { s with ctrlL := make }
  else if c = 0x38 then { s with altR := make }
  else if c ∈ ctrlLCases then { s with ctrlL := true }
  else s.press c make

/-- A code behind `0xe0`. -/
theorem analyze_extended : analyzeKeyCode s (0xe0 :: xs) = (extendedKey s >>= fun r =>
    if r.2.2 = 0 then normalKey r.1 r.2.1 else pure (r.1, r.2.2)) xs := rfl

theorem extendedKey_eq {x : UInt8} (hx : x &&& 0x7f ≠ 0x2a) : extendedKey s (x :: xs)
    = some (if x &&& 0x7f = 0x1d then ({ s with ctrlL := isMake x }, x, OTHER_KEY)
      else if x &&& 0x7f = 0x38 then ({ s with altR := isMake x }, x, OTHER_KEY)
      else if x &&& 0x7f ∈ ctrlLCases then ({ s with ctrlL := true }, x, OTHER_KEY)
      else (s, x, 0), xs) := by
  unfold extendedKey getScanCode
  rw [next_bind_cons, ite_run, if_neg hx]
  by_cases h1 : x &&& 0x7f = 0x1d
  · rw [if_pos h1, if_pos h1]
    rfl
  by_cases h2 : x &&& 0x7f = 0x38
  · rw [if_neg h1, if_neg h1, if_pos h2, if_pos h2]
    rfl
  by_cases h3 : x &&& 0x7f ∈ ctrlLCases
  · rw [if_neg h1, if_neg h1, if_neg h2, if_neg h2, if_pos h3, if_pos h3]
    rfl
  · rw [if_neg h1, if_neg h1, if_neg h2, if_neg h2, if_neg h3, if_neg h3]
    rfl

/-- **A key with a code behind `0xe0`.** -/
theorem analyze_ext {c : UInt8} (hc : IsKeyCode c) (h : c ≠ 0x2a) (b : Bool) :
    ∃ v, analyzeKeyCode s (0xe0 :: codeOf c b :: xs) = some ((s.extPress c b, v), xs) := by
  have hlow := codeOf_low hc b
  have hmake := isMake_codeOf hc b
  have hext := extendedKey_eq s xs (show codeOf c b &&& 0x7f ≠ 0x2a by rwa [hlow])
  rw [hlow, hmake] at hext
  rw [analyze_extended, bind_of_some hext]
  unfold KeyFlags.extPress
  by_cases h1 : c = 0x1d
  · rw [if_pos h1, if_pos h1]
    exact ⟨OTHER_KEY, rfl⟩
  by_cases h2 : c = 0x38
  · rw [if_neg h1, if_neg h1, if_pos h2, if_pos h2]
    exact ⟨OTHER_KEY, rfl⟩
  by_cases h3 : c ∈ ctrlLCases
  · rw [if_neg h1, if_neg h1, if_neg h2, if_neg h2, if_pos h3, if_pos h3]
    exact ⟨OTHER_KEY, rfl⟩
  · -- no case of the first `switch`: the code is taken for one without a prefix
    have h4 : c ≠ 0x1c := by
      rintro rfl
      exact h3 (by decide)
    rw [if_neg h1, if_neg h1, if_neg h2, if_neg h2, if_neg h3, if_neg h3, if_pos rfl,
      normalKey_eq s (by rwa [hlow]), hlow, hmake]
    exact ⟨_, rfl⟩

/-- The print screen key goes down. -/
theorem analyze_printScreen :
    analyzeKeyCode s (0xe0 :: 0x2a :: 0xe0 :: 0x37 :: xs) = some ((s, PRINT_SCREEN), xs) := rfl

/-- The second half of the codes of the print screen key coming up: the call waits for another code,
and if that is a prefix again, for the code behind it. In all cases but one it ends as if the left
shift key came up. -/
theorem analyze_printRelease : analyzeKeyCode s [0xe0, 0xaa] = none ∧
    (∀ y, y ≠ 0xe0 →
      analyzeKeyCode s (0xe0 :: 0xaa :: y :: xs) = some (({ s with shiftL := false }, 0), xs)) ∧
    (∀ z, analyzeKeyCode s (0xe0 :: 0xaa :: 0xe0 :: z :: xs)
      = if z = 0x37 then some ((s, PRINT_SCREEN), xs)
        else some (({ s with shiftL := false }, 0), xs)) := by
  have hshift : ∀ ys, normalKey s 0xaa ys = some (({ s with shiftL := false }, 0), ys) :=
    fun ys => normalKey_eq s (by decide) ys
  refine ⟨rfl, fun y hy => ?_, fun z => ?_⟩
  · have hext : extendedKey s (0xaa :: y :: xs) = some ((s, 0xaa, 0), xs) := by
      show (if y = 0xe0 then _ else _ : Reading UInt8 _) xs = _
      rw [if_neg hy]
      rfl
    rw [analyze_extended, bind_of_some hext, if_pos rfl]
    exact hshift xs
  · by_cases hz : z = 0x37
    · rw [if_pos hz, hz]
      rfl
    · have hext : extendedKey s (0xaa :: 0xe0 :: z :: xs) = some ((s, 0xaa, 0), xs) := by
        show (if z = 0x37 then _ else _ : Reading UInt8 _) xs = _
        rw [if_neg hz]
        rfl
      rw [if_neg hz, analyze_extended, bind_of_some hext, if_pos rfl]
      exact hshift xs

/-- The pause key. -/
theorem analyze_pause : analyzeKeyCode s (pauseBreakCode ++ xs) = some ((s, PAUSE_BREAK), xs) := rfl

/-- The second half of the codes of the pause key, without the first. -/
theorem analyze_halfPause : analyzeKeyCode s (0xe1 :: 0x9d :: xs) = some ((s, 0), xs) := by
  rfl

end

end Talios
