import Talios.Console.Screen

set_option autoImplicit false

/-! # The text on the screen

What `Putchar` leaves in the frame buffer, as against a terminal of 180 columns and 56 rows of characters.
The terminal has its own account of the control characters; `console_shows` says that the frame buffer shows
it, as long as all characters are drawn on the screen.
-/

namespace Talios

/-! ## The terminal -/

/-- The cursor, and the character at each column and row. -/
structure Terminal where
  x : Nat
  y : Nat
  cell : Nat → Nat → Option ColoredChar

namespace Terminal

/-- The same character in some cells from the cursor on. -/
def fill (t : Terminal) (c : ColoredChar) (n : Nat) : Nat → Nat → Option ColoredChar :=
  fun x y => if t.x ≤ x ∧ x < t.x + n ∧ y = t.y then some c else t.cell x y

def newline (t : Terminal) : Terminal := { t with x := 0, y := if t.y < 56 then t.y + 1 else t.y }

/-- A character at the cursor, which goes on behind it. -/
def put (t : Terminal) (c : ColoredChar) : Terminal := { t with x := t.x + 1, cell := t.fill c 1 }

/-- A character of a text: blanks up to the next tab stop, a new line, a blank in place of the last
character, or the character itself, in the next row if there is no column left. -/
def print (t : Terminal) (c : ColoredChar) : Terminal :=
  let blank : ColoredChar := { c with character := 32 }
  if c.character = 9 then { t with x := (t.x / 8 + 1) * 8, cell := t.fill blank ((t.x / 8 + 1) * 8 - t.x) }
  else if c.character = 10 then t.newline
  else if c.character = 8 then
    if 0 < t.x then { t with cell := ({ t with x := t.x - 1 } : Terminal).fill blank 1 } else t
  else if t.x < 180 then t.put c
  else t.newline.put c

def empty : Terminal := ⟨0, 0, fun _ _ => none⟩

end Terminal

/-! ## The frame buffer -/

/-- The frame buffer behind some writes. -/
def writePixels (fb : Nat → BitVec 32) (pixels : List (Nat × BitVec 32)) : Nat → BitVec 32 :=
  pixels.foldl (fun fb p => Function.update fb p.1 p.2) fb

/-- The frame buffer behind all that has been drawn. -/
def frameBuffer (fb : Nat → BitVec 32) (drawn : List Drawn) : Nat → BitVec 32 :=
  writePixels fb (drawn.flatMap Drawn.pixels)

/-- The place of a pixel: of a cell, a line in it and a column in that. -/
def pixelAt (x y i k : Nat) : Nat := (y * 16 + i) * 1440 + x * 8 + k

/-- A pixel of a character. -/
def glyph (font : FontAscii) (c : ColoredChar) (i k : Nat) : BitVec 32 :=
  if (font c.character i).getLsbD (7 - k) then c.foreColor else c.backColor

/-- The frame buffer shows the cells, and has its old pixels elsewhere. -/
structure Shows (font : FontAscii) (fb : Nat → BitVec 32) (cell : Nat → Nat → Option ColoredChar)
    (fb' : Nat → BitVec 32) : Prop where
  cells : ∀ x < 180, ∀ y < 56, ∀ i < 16, ∀ k < 8,
    fb' (pixelAt x y i k) = (cell x y).elim (fb (pixelAt x y i k)) (fun c => glyph font c i k)
  below : ∀ a, 56 * 16 * 1440 ≤ a → fb' a = fb a

section

variable {fb : Nat → BitVec 32} {pixels : List (Nat × BitVec 32)} {a : Nat} {v : BitVec 32}

theorem writePixels_append (fb : Nat → BitVec 32) (l m : List (Nat × BitVec 32)) :
    writePixels fb (l ++ m) = writePixels (writePixels fb l) m := List.foldl_append

theorem writePixels_of_not_mem (fb : Nat → BitVec 32) (h : ∀ p ∈ pixels, p.1 ≠ a) :
    writePixels fb pixels a = fb a := by
  induction pixels generalizing fb with
  | nil => rfl
  | cons p pixels ih =>
      have hrest := ih (Function.update fb p.1 p.2) (fun q hq => h q (by simp [hq]))
      exact hrest.trans (Function.update_of_ne (h p (by simp)).symm _ _)

/-- All writes to a place have the same value. -/
theorem writePixels_of_mem (h : (a, v) ∈ pixels) (hall : ∀ p ∈ pixels, p.1 = a → p.2 = v) :
    writePixels fb pixels a = v := by
  induction pixels generalizing fb with
  | nil => simp at h
  | cons p pixels ih =>
      by_cases hmem : (a, v) ∈ pixels
      · exact ih hmem (fun q hq => hall q (by simp [hq]))
      · have hp : p = (a, v) := by
          rcases List.mem_cons.mp h with rfl | h
          · rfl
          · exact absurd h hmem
        have hnone : ∀ q ∈ pixels, q.1 ≠ a := by
          intro q hq hqa
          have hqv := hall q (by simp [hq]) hqa
          exact hmem ((Prod.ext hqa hqv : q = (a, v)) ▸ hq)
        have hrest := writePixels_of_not_mem (Function.update fb p.1 p.2) hnone
        refine hrest.trans ?_
        rw [hp]
        exact Function.update_self _ _ _

end

/-! ## One character -/

theorem pixelAt_inj {x y i k x' y' i' k' : Nat} (hx : x < 180) (hi : i < 16) (hk : k < 8) (hx' : x' < 180)
    (hi' : i' < 16) (hk' : k' < 8) (h : pixelAt x y i k = pixelAt x' y' i' k') :
    x = x' ∧ y = y' ∧ i = i' ∧ k = k' := by
  unfold pixelAt at h
  omega

section

variable {font : FontAscii} {fb : Nat → BitVec 32} {s : Screen} {t : Terminal} {c : ColoredChar}

/-- The pixels that `Putchar` writes. -/
theorem mem_putcharPixels_iff (hs : s.Sized) {p : Nat × BitVec 32} :
    p ∈ putcharPixels font s.info c.character c.foreColor c.backColor ↔
      ∃ i < 16, ∃ k < 8, p = (pixelAt s.info.cursorX s.info.cursorY i k, glyph font c i k) := by
  rw [putcharPixels, hs.charHeight, hs.charWidth, hs.xPixelResolution, List.mem_flatMap]
  constructor
  · rintro ⟨i, hi, hp⟩
    obtain ⟨k, hk, rfl⟩ := List.mem_map.mp hp
    exact ⟨i, List.mem_range.mp hi, k, List.mem_range.mp hk, rfl⟩
  · rintro ⟨i, hi, k, hk, rfl⟩
    exact ⟨i, List.mem_range.mpr hi, List.mem_map.mpr ⟨k, List.mem_range.mpr hk, rfl⟩⟩

/-- The screen has the terminal's cursor, and shows its cells. -/
structure OnTerminal (font : FontAscii) (fb : Nat → BitVec 32) (s : Screen) (t : Terminal) : Prop where
  sized : s.Sized
  x : s.info.cursorX = t.x
  y : s.info.cursorY = t.y
  shows : Shows font fb t.cell (frameBuffer fb s.drawn)

theorem OnTerminal.moveTo (h : OnTerminal font fb s t) (x y : Nat) :
    OnTerminal font fb (s.moveTo x y) { t with x := x, y := y } :=
  ⟨⟨h.sized.1, h.sized.2, h.sized.3, h.sized.4⟩, rfl, rfl, h.shows⟩

/-- A character that is drawn changes its own cell, and no other. -/
theorem OnTerminal.putchar (h : OnTerminal font fb s t) (hx : t.x < 180) (hy : t.y < 56) :
    OnTerminal font fb (putchar font c.foreColor c.backColor s c.character)
      { t with cell := t.fill c 1 } := by
  have hframe : frameBuffer fb (Talios.putchar font c.foreColor c.backColor s c.character).drawn
      = writePixels (frameBuffer fb s.drawn)
        (putcharPixels font s.info c.character c.foreColor c.backColor) := by
    rw [frameBuffer, frameBuffer, Talios.putchar, List.flatMap_append, writePixels_append,
      List.flatMap_singleton]
  refine ⟨⟨h.sized.1, h.sized.2, h.sized.3, h.sized.4⟩, h.x, h.y, ?_⟩
  rw [hframe]
  constructor
  · intro x hx' y hy' i hi k hk
    dsimp only
    by_cases hcell : x = t.x ∧ y = t.y
    · obtain ⟨rfl, rfl⟩ := hcell
      have hfill : t.fill c 1 t.x t.y = some c := if_pos ⟨le_rfl, Nat.lt_succ_self _, rfl⟩
      rw [hfill, Option.elim_some]
      apply writePixels_of_mem
      · rw [mem_putcharPixels_iff h.sized]
        exact ⟨i, hi, k, hk, by rw [h.x, h.y]⟩
      · intro p hp hpa
        obtain ⟨i', hi', k', hk', rfl⟩ := (mem_putcharPixels_iff h.sized).mp hp
        rw [h.x, h.y] at hpa
        obtain ⟨-, -, rfl, rfl⟩ := pixelAt_inj hx hi' hk' hx hi hk hpa
        rfl
    · have hfill : t.fill c 1 x y = t.cell x y := if_neg (by omega)
      rw [hfill, ← h.shows.cells x hx' y hy' i hi k hk]
      apply writePixels_of_not_mem
      intro p hp hpa
      obtain ⟨i', hi', k', hk', rfl⟩ := (mem_putcharPixels_iff h.sized).mp hp
      rw [h.x, h.y] at hpa
      obtain ⟨h1, h2, -, -⟩ := pixelAt_inj hx hi' hk' hx' hi hk hpa
      exact hcell ⟨h1.symm, h2.symm⟩
  · intro a ha
    rw [← h.shows.below a ha]
    apply writePixels_of_not_mem
    intro p hp hpa
    obtain ⟨i', hi', k', hk', rfl⟩ := (mem_putcharPixels_iff h.sized).mp hp
    rw [h.x, h.y, pixelAt] at hpa
    dsimp only at hpa
    omega

theorem OnTerminal.put (h : OnTerminal font fb s t) (hx : t.x < 180) (hy : t.y < 56) :
    OnTerminal font fb (Talios.putchar font c.foreColor c.backColor s c.character).next (t.put c) := by
  have hput := (h.putchar (c := c) hx hy).moveTo (t.x + 1) t.y
  have hnext : (Talios.putchar font c.foreColor c.backColor s c.character).next
      = (Talios.putchar font c.foreColor c.backColor s c.character).moveTo (t.x + 1) t.y := by
    rw [Screen.next, ← h.x, ← h.y]
    rfl
  rw [hnext]
  exact hput

/-- Blanks up to some column of the row. -/
theorem OnTerminal.tabLoop (h : OnTerminal font fb s t) {n : Nat} (hx : n = 0 ∨ t.x + n ≤ 180 ∧ t.y < 56) :
    OnTerminal font fb (tabLoop font c.foreColor c.backColor n s)
      { t with x := t.x + n, cell := t.fill { c with character := 32 } n } := by
  induction n generalizing s t with
  | zero =>
      have hfill : t.fill { c with character := 32 } 0 = t.cell := by
        funext x y
        exact if_neg (by omega)
      rw [hfill]
      exact h
  | succ n ih =>
      have hput := h.put (c := { c with character := 32 }) (by omega) (by omega)
      have hrest := ih hput (by unfold Terminal.put; dsimp only; omega)
      have hfill : (t.put { c with character := 32 }).fill { c with character := 32 } n
          = t.fill { c with character := 32 } (n + 1) := by
        funext x y
        unfold Terminal.put Terminal.fill
        dsimp only
        split_ifs <;> first | rfl | omega
      have hcol : (t.put { c with character := 32 }).x + n = t.x + (n + 1) := by
        unfold Terminal.put
        dsimp only
        omega
      rw [hfill, hcol] at hrest
      exact hrest

/-- Each character, whatever it is, where there is room for it. -/
theorem OnTerminal.print (h : OnTerminal font fb s t) (hroom : RoomFor t.x t.y c.character) :
    OnTerminal font fb (printCharacter font c.foreColor c.backColor s c.character) (t.print c) := by
  have hline : ∀ y : Nat, y = (if s.info.cursorY < s.info.yCharResolution then s.info.cursorY + 1
      else s.info.cursorY) → OnTerminal font fb (s.moveTo 0 y) t.newline := by
    intro y hy
    rw [h.sized.rows, h.y] at hy
    rw [hy]
    exact h.moveTo 0 _
  by_cases htab : c.character = 9
  · rw [RoomFor, if_pos htab] at hroom
    rw [printCharacter, if_pos htab, Terminal.print, h.x, if_pos htab]
    have hoff : 8 - t.x % 8 = (t.x / 8 + 1) * 8 - t.x := by omega
    have hcol : t.x + ((t.x / 8 + 1) * 8 - t.x) = (t.x / 8 + 1) * 8 := by omega
    have htabs := h.tabLoop (c := c) (n := (t.x / 8 + 1) * 8 - t.x) (.inr (by omega))
    rw [hcol] at htabs
    rw [hoff]
    exact htabs
  rw [RoomFor, if_neg htab] at hroom
  rw [printCharacter, if_neg htab, Terminal.print, if_neg htab]
  by_cases hnl : c.character = 10
  · rw [if_pos hnl, if_pos hnl]
    exact hline _ rfl
  rw [if_neg hnl] at hroom
  rw [if_neg hnl, if_neg hnl]
  by_cases hback : c.character = 8
  · rw [if_pos hback] at hroom
    rw [if_pos hback, if_pos hback, h.x]
    by_cases hx : 0 < t.x
    · have hroom := hroom hx
      have hmove := h.moveTo (t.x - 1) t.y
      have hput := (hmove.put (c := { c with character := 32 }) (by dsimp only; omega)
        (by dsimp only; omega))
      have hcol : t.x - 1 + 1 = t.x := by omega
      rw [if_pos hx, if_pos hx, h.y]
      unfold Terminal.put at hput
      dsimp only at hput
      rw [hcol] at hput
      exact hput
    · rw [if_neg hx, if_neg hx]
      exact h
  rw [if_neg hback] at hroom
  rw [if_neg hback, if_neg hback, autoPutchar, h.sized.columns, h.x]
  by_cases hx : t.x < 180
  · rw [if_pos hx] at hroom
    rw [if_pos hx, if_pos hx]
    exact h.put hx hroom
  · rw [if_neg hx] at hroom
    rw [if_neg hx, if_neg hx]
    refine (hline _ rfl).put (by unfold Terminal.newline; dsimp only; omega) ?_
    unfold Terminal.newline
    dsimp only
    split_ifs <;> omega

/-! ## A run of characters -/

/-- The characters one after the other. -/
theorem OnTerminal.run {chars : List ColoredChar} (h : OnTerminal font fb s t)
    (hroom : ∀ before c after, chars = before ++ c :: after →
      RoomFor (before.foldl (fun s c => printCharacter font c.foreColor c.backColor s c.character)
        s).info.cursorX (before.foldl (fun s c => printCharacter font c.foreColor c.backColor s c.character)
        s).info.cursorY c.character) :
    OnTerminal font fb
      (chars.foldl (fun s c => printCharacter font c.foreColor c.backColor s c.character) s)
      (chars.foldl Terminal.print t) := by
  induction chars generalizing s t with
  | nil => exact h
  | cons c chars ih =>
      have hfirst := hroom [] c chars rfl
      rw [List.foldl_nil, h.x, h.y] at hfirst
      exact ih (h.print hfirst) (fun before d after hl => by
        have := hroom (c :: before) d after (by rw [hl, List.cons_append])
        rwa [List.foldl_cons] at this)

end

/-- **The frame buffer shows the terminal**: behind any calls of `ColorPrintfk` whose characters are all
drawn on the screen, each cell of 8 by 16 pixels has the last character that the terminal has there, in its
colors, and all other pixels are as before. -/
theorem console_shows (font : FontAscii) (fb : Nat → BitVec 32) (calls : List PrintCall)
    (h : ∀ d ∈ (printCalls font calls).drawn, d.OnScreen) :
    Shows font fb ((characters calls).foldl Terminal.print Terminal.empty).cell
      (frameBuffer fb (printCalls font calls).drawn) := by
  have hinit : printkInit.Sized := ⟨rfl, rfl, rfl, rfl⟩
  have hstart : OnTerminal font fb printkInit Terminal.empty :=
    ⟨hinit, rfl, rfl, fun _ _ _ _ _ _ _ _ => rfl, fun _ _ => rfl⟩
  obtain ⟨new, hnew, hroom⟩ := (draws_characters font (characters calls) hinit).drawn
  have hdrawn : (printCalls font calls).drawn = new := by
    rw [printCalls_eq, printCharacters, hnew]
    rfl
  rw [hdrawn] at h
  rw [printCalls_eq, printCharacters]
  exact (hstart.run (fun before c after hl => hroom.mp h before c after hl)).shows

/-- Two letters and a blank over the second. -/
theorem console_shows_letters : Shows (fun _ _ => 0xff) (fun _ => 0)
    ((characters [⟨0xFFFFFF, 0, [65, 66, 8]⟩]).foldl Terminal.print Terminal.empty).cell
    (frameBuffer (fun _ => 0) (printCalls (fun _ _ => 0xff) [⟨0xFFFFFF, 0, [65, 66, 8]⟩]).drawn) :=
  console_shows _ _ _ (fun d hd => by
    have hall : ∀ d ∈ (printCalls (fun _ _ => 0xff) [⟨0xFFFFFF, 0, [65, 66, 8]⟩]).drawn,
        d.cursorX < 180 ∧ d.cursorY < 56 ∧ ∀ p ∈ d.pixels, p.1 < 1440 * 900 := by
      decide +kernel
    obtain ⟨h1, h2, h3⟩ := hall d hd
    exact ⟨h1, h2, h3⟩)

end Talios
