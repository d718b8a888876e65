import Talios.Lib.Split

set_option autoImplicit false

/-! # The console's screen

`ColorPrintfk` draws the characters of a text and moves the cursor. A character is drawn by
`Putchar`, at the cursor, and four pieces of code move it: the automatic wrap, the tab, the newline
and the backspace.

Nothing scrolls, and a tab does not look at the width. The text stays on the screen if and only if
the cursor leaves room before each character that is drawn (`console_on_screen`).
-/

namespace Talios

/-! ## The code -/

/-- `ScreenInfo`. The values of type `int` are natural numbers: nothing makes the cursor negative. -/
structure ScreenInfo where
  xPixelResolution : Nat
  yPixelResolution : Nat
  cursorX : Nat
  cursorY : Nat
  charWidth : Nat
  charHeight : Nat

namespace ScreenInfo

/-- `XCharResolution`. -/
def xCharResolution (s : ScreenInfo) : Nat := s.xPixelResolution / s.charWidth

/-- `YCharResolution`. -/
def yCharResolution (s : ScreenInfo) : Nat := s.yPixelResolution / s.charHeight

end ScreenInfo

/-- One run of `Putchar`: the cursor, and the indices it writes in the frame buffer with their
pixels. -/
structure Drawn where
  cursorX : Nat
  cursorY : Nat
  pixels : List (Nat × BitVec 32)

/-- The screen's data and what has been drawn. -/
structure Screen where
  info : ScreenInfo
  drawn : List Drawn

/-- `PrintkInit`. -/
def printkInit : Screen where
  info := {
    xPixelResolution := 1440
    yPixelResolution := 900
    cursorX := 0
    cursorY := 0
    charWidth := 8
    charHeight := 16 }
  drawn := []

/-- `font_ascii`: the lines of each character. -/
abbrev FontAscii := UInt8 → Nat → BitVec 8

/-- The inner loop of `Putchar`: the eight pixels of a line, from the bit `1 << 7` down. -/
def plotLine (plotLine : BitVec 8) (pixelPos : Nat) (foreColor backColor : BitVec 32) :
    List (Nat × BitVec 32) :=
  (List.range 8).map fun k =>
    (pixelPos + k, if plotLine.getLsbD (7 - k) = true then foreColor else backColor)

/-- What `Putchar` writes. -/
def putcharPixels (font : FontAscii) (s : ScreenInfo) (character : UInt8)
    (foreColor backColor : BitVec 32) : List (Nat × BitVec 32) :=
  (List.range s.charHeight).flatMap fun i =>
    plotLine (font character i)
      ((s.cursorY * s.charHeight + i) * s.xPixelResolution + s.cursorX * s.charWidth)
      foreColor backColor

variable (font : FontAscii) (foreColor backColor : BitVec 32)

/-- `Putchar`. -/
def putchar (s : Screen) (character : UInt8) : Screen :=
  { s with drawn := s.drawn ++ [{
      cursorX := s.info.cursorX
      cursorY := s.info.cursorY
      pixels := putcharPixels font s.info character foreColor backColor }] }

/-- An assignment to `cursorX` and `cursorY`. -/
def Screen.moveTo (s : Screen) (x y : Nat) : Screen :=
  { s with info := { s.info with cursorX := x, cursorY := y } }

/-- `screenInfo.cursorX++`. -/
def Screen.next (s : Screen) : Screen := s.moveTo (s.info.cursorX + 1) s.info.cursorY

/-- `AutoPutchar`. -/
def autoPutchar (s : Screen) (x : UInt8) : Screen :=
  if s.info.cursorX < s.info.xCharResolution then (putchar font foreColor backColor s x).next
  else
    -- the test before the increment lets `cursorY` come to the number of rows itself
    let s := s.moveTo 0
      (if s.info.cursorY < s.info.yCharResolution then s.info.cursorY + 1 else s.info.cursorY)
    (putchar font foreColor backColor s x).next

/-- `while(Offset--)`, of a tab. -/
def tabLoop : Nat → Screen → Screen
  | 0, s => s
  | offset + 1, s => tabLoop offset (putchar font foreColor backColor s 32).next

/-- The `switch` over a character. The backslash is drawn as all the others are. -/
def printCharacter (s : Screen) (c : UInt8) : Screen :=
  if c = 9 then tabLoop font foreColor backColor (8 - s.info.cursorX % 8) s
  else if c = 10 then
    s.moveTo 0
      (if s.info.cursorY < s.info.yCharResolution then s.info.cursorY + 1 else s.info.cursorY)
  else if c = 8 then
    if 0 < s.info.cursorX then
      (putchar font foreColor backColor (s.moveTo (s.info.cursorX - 1) s.info.cursorY) 32).next
    else s
  else autoPutchar font foreColor backColor s c

/-- A call of `ColorPrintfk`, with the text that `VsPrintfk` has formatted. -/
structure PrintCall where
  foreColor : BitVec 32
  backColor : BitVec 32
  text : List UInt8

/-- `ColorPrintfk`. -/
def colorPrintfk (s : Screen) (call : PrintCall) : Screen :=
  call.text.foldl (printCharacter font call.foreColor call.backColor) s

/-- The screen after some calls. -/
def printCalls (calls : List PrintCall) : Screen := calls.foldl (colorPrintfk font) printkInit

/-! ## The screen's bounds -/

/-- A character drawn within its row and column, and all its pixels within the frame buffer. -/
structure Drawn.OnScreen (d : Drawn) : Prop where
  column : d.cursorX < printkInit.info.xCharResolution
  row : d.cursorY < printkInit.info.yCharResolution
  pixels : ∀ p ∈ d.pixels, p.1 < printkInit.info.xPixelResolution * printkInit.info.yPixelResolution

/-- The cursor leaves room for what the character draws. -/
def RoomFor (x y : Nat) (c : UInt8) : Prop :=
  if c = 9 then x < 176 ∧ y < 56
  else if c = 10 then True
  else if c = 8 then 0 < x → x ≤ 180 ∧ y < 56
  else if x < 180 then y < 56
  else y + 1 < 56

instance (x y : Nat) (c : UInt8) : Decidable (RoomFor x y c) := by
  unfold RoomFor
  infer_instance

/-- A character with its colors. -/
structure ColoredChar where
  foreColor : BitVec 32
  backColor : BitVec 32
  character : UInt8

/-- The characters of some calls, in the order in which they are printed. -/
def characters (calls : List PrintCall) : List ColoredChar :=
  calls.flatMap fun call => call.text.map fun c => ⟨call.foreColor, call.backColor, c⟩

/-- The screen after some characters. -/
def printCharacters (chars : List ColoredChar) : Screen :=
  chars.foldl (fun s c => printCharacter font c.foreColor c.backColor s c.character) printkInit

/-! ## One character -/

/-- The resolutions and the size of a character are those of `PrintkInit`. -/
structure Screen.Sized (s : Screen) : Prop where
  xPixelResolution : s.info.xPixelResolution = 1440
  yPixelResolution : s.info.yPixelResolution = 900
  charWidth : s.info.charWidth = 8
  charHeight : s.info.charHeight = 16

theorem Screen.Sized.columns {s : Screen} (hs : s.Sized) : s.info.xCharResolution = 180 := by
  rw [ScreenInfo.xCharResolution, hs.xPixelResolution, hs.charWidth]

theorem Screen.Sized.rows {s : Screen} (hs : s.Sized) : s.info.yCharResolution = 56 := by
  rw [ScreenInfo.yCharResolution, hs.yPixelResolution, hs.charHeight]

/-- What is drawn on the way from `s` to `s'` is on the screen if and only if `room` holds. -/
structure Draws (s s' : Screen) (room : Prop) : Prop where
  sized : s'.Sized
  drawn : ∃ new, s'.drawn = s.drawn ++ new ∧ ((∀ d ∈ new, d.OnScreen) ↔ room)

theorem Draws.refl {s : Screen} (hs : s.Sized) : Draws s s True := by
  refine ⟨hs, [], by simp, by simp⟩

theorem Draws.trans {s s' s'' : Screen} {p q : Prop} (h : Draws s s' p) (h' : Draws s' s'' q) :
    Draws s s'' (p ∧ q) := by
  obtain ⟨new, hnew, hp⟩ := h.drawn
  obtain ⟨new', hnew', hq⟩ := h'.drawn
  refine ⟨h'.sized, new ++ new', by rw [hnew', hnew, List.append_assoc], ?_⟩
  rw [List.forall_mem_append, hp, hq]

theorem Draws.congr {s s' : Screen} {p q : Prop} (h : Draws s s' p) (hpq : p ↔ q) :
    Draws s s' q := by rwa [← propext hpq]

theorem draws_moveTo {s : Screen} (hs : s.Sized) (x y : Nat) : Draws s (s.moveTo x y) True :=
  ⟨⟨hs.1, hs.2, hs.3, hs.4⟩, [], by simp [Screen.moveTo], by simp⟩

variable {font foreColor backColor} in
/-- A pixel of a character lies in the rectangle of its cell. -/
theorem mem_putcharPixels {s : Screen} (hs : s.Sized) {c : UInt8} {p : Nat × BitVec 32}
    (hp : p ∈ putcharPixels font s.info c foreColor backColor) :
    ∃ i < 16, ∃ k < 8,
      p.1 = (s.info.cursorY * 16 + i) * 1440 + s.info.cursorX * 8 + k := by
  rw [putcharPixels, hs.charHeight, hs.charWidth, hs.xPixelResolution] at hp
  obtain ⟨i, hi, hp⟩ := List.mem_flatMap.mp hp
  obtain ⟨k, hk, rfl⟩ := List.mem_map.mp hp
  exact ⟨i, List.mem_range.mp hi, k, List.mem_range.mp hk, rfl⟩

/-- A character is drawn on the screen if and only if the cursor is. -/
theorem draws_putchar {s : Screen} (hs : s.Sized) (c : UInt8) :
    Draws s (putchar font foreColor backColor s c) (s.info.cursorX < 180 ∧ s.info.cursorY < 56) := by
  refine ⟨⟨hs.1, hs.2, hs.3, hs.4⟩, _, rfl, ?_⟩
  rw [List.forall_mem_singleton]
  constructor
  · intro h
    exact ⟨h.column, h.row⟩
  · rintro ⟨hx, hy⟩
    refine ⟨hx, hy, fun p hp => ?_⟩
    obtain ⟨i, hi, k, hk, hpos⟩ := mem_putcharPixels hs hp
    -- 56 rows of 16 lines are 896 of the 900 lines
    show p.1 < 1440 * 900
    omega

theorem draws_next {s s' : Screen} {p : Prop} (h : Draws s s' p) : Draws s s'.next p :=
  (h.trans (draws_moveTo h.sized _ _)).congr (iff_of_eq (and_true p))

/-- A tab draws spaces up to the next column that is a multiple of eight. -/
theorem draws_tabLoop (offset : Nat) {s : Screen} (hs : s.Sized) :
    Draws s (tabLoop font foreColor backColor offset s)
      (offset = 0 ∨ s.info.cursorX + offset ≤ 180 ∧ s.info.cursorY < 56) := by
  induction offset generalizing s with
  | zero => exact (Draws.refl hs).congr (by simp)
  | succ offset ih =>
    have hput := draws_next (draws_putchar font foreColor backColor hs 32)
    refine (hput.trans (ih hput.sized)).congr ?_
    simp only [putchar, Screen.next, Screen.moveTo]
    omega

/-- A character, whatever it is. -/
theorem draws_printCharacter {s : Screen} (hs : s.Sized) (c : UInt8) :
    Draws s (printCharacter font foreColor backColor s c)
      (RoomFor s.info.cursorX s.info.cursorY c) := by
  by_cases htab : c = 9
  -- a tab has at least one column to go, up to the next multiple of eight
  · rw [printCharacter, RoomFor, if_pos htab, if_pos htab]
    refine (draws_tabLoop font foreColor backColor _ hs).congr ?_
    omega
  by_cases hline : c = 10
  · rw [printCharacter, RoomFor, if_neg htab, if_neg htab, if_pos hline, if_pos hline]
    exact draws_moveTo hs _ _
  by_cases hback : c = 8
  · rw [printCharacter, RoomFor, if_neg htab, if_neg htab, if_neg hline, if_neg hline, if_pos hback,
      if_pos hback]
    split_ifs with hx
    · have hmove := draws_moveTo hs (s.info.cursorX - 1) s.info.cursorY
      refine (draws_next (hmove.trans
        (draws_putchar font foreColor backColor hmove.sized 32))).congr ?_
      simp only [Screen.moveTo, true_and]
      omega
    · exact (Draws.refl hs).congr (by simp [hx])
  rw [printCharacter, RoomFor, if_neg htab, if_neg htab, if_neg hline, if_neg hline, if_neg hback,
    if_neg hback, autoPutchar, hs.columns, hs.rows]
  by_cases hcol : s.info.cursorX < 180
  · rw [if_pos hcol, if_pos hcol]
    refine (draws_next (draws_putchar font foreColor backColor hs c)).congr ?_
    omega
  -- the automatic wrap: past the last column, the character goes to the next row
  · rw [if_neg hcol, if_neg hcol]
    have hmove := draws_moveTo hs 0
      (if s.info.cursorY < 56 then s.info.cursorY + 1 else s.info.cursorY)
    refine (draws_next (hmove.trans
      (draws_putchar font foreColor backColor hmove.sized c))).congr ?_
    simp only [Screen.moveTo, true_and]
    split_ifs <;> omega

/-! ## A run of characters -/

/-- The calls print their characters one after the other. -/
theorem printCalls_eq (calls : List PrintCall) :
    printCalls font calls = printCharacters font (characters calls) := by
  rw [printCalls, printCharacters, characters, List.foldl_flatMap]
  congr 1
  funext s call
  rw [colorPrintfk, List.foldl_map]

/-- What a run of characters draws is on the screen if and only if there is room for each one. -/
theorem draws_characters (chars : List ColoredChar) {s : Screen} (hs : s.Sized) :
    Draws s
      (chars.foldl (fun s c => printCharacter font c.foreColor c.backColor s c.character) s)
      (∀ before c after, chars = before ++ c :: after →
        let s := before.foldl
          (fun s c => printCharacter font c.foreColor c.backColor s c.character) s
        RoomFor s.info.cursorX s.info.cursorY c.character) := by
  induction chars generalizing s with
  | nil => exact (Draws.refl hs).congr (by simp)
  | cons c chars ih =>
    have hstep := draws_printCharacter font c.foreColor c.backColor hs c.character
    refine (hstep.trans (ih hstep.sized)).congr ?_
    exact (Split.forall_cons (P := fun before c =>
      let s := before.foldl
        (fun s c => printCharacter font c.foreColor c.backColor s c.character) s
      RoomFor s.info.cursorX s.info.cursorY c.character) c chars).symm

/-- All that is drawn is on the screen if and only if the cursor leaves room for each character. -/
theorem console_on_screen (calls : List PrintCall) :
    (∀ d ∈ (printCalls font calls).drawn, d.OnScreen) ↔
      ∀ before c after, characters calls = before ++ c :: after →
        RoomFor (printCharacters font before).info.cursorX
          (printCharacters font before).info.cursorY c.character := by
  have hinit : printkInit.Sized := ⟨rfl, rfl, rfl, rfl⟩
  obtain ⟨new, hnew, hroom⟩ := (draws_characters font (characters calls) hinit).drawn
  rw [printCalls_eq, printCharacters, hnew]
  exact hroom

/-- Fifty-six newlines and a letter: the letter is drawn in row 56. -/
theorem letter_below_screen :
    ¬ ∀ d ∈ (printCalls (fun _ _ => 0)
        [⟨0xFFFFFF, 0, List.replicate 56 10 ++ [65]⟩]).drawn, d.OnScreen := by
  intro h
  have hrow : (printCalls (fun _ _ => 0)
      [⟨0xFFFFFF, 0, List.replicate 56 10 ++ [65]⟩]).drawn.map Drawn.cursorY = [56] := by
    decide +kernel
  have hmem : 56 ∈ (printCalls (fun _ _ => 0)
      [⟨0xFFFFFF, 0, List.replicate 56 10 ++ [65]⟩]).drawn.map Drawn.cursorY := by
    rw [hrow]
    exact List.mem_singleton_self 56
  obtain ⟨d, hd, hd56⟩ := List.mem_map.mp hmem
  have hlt : d.cursorY < 56 := (h d hd).row
  omega

end Talios
