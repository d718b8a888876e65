import Talios.User.KeyCode

set_option autoImplicit false

/-! # Modifier keys

Whether the flags of `AnalyzeKeyCode` say which modifier keys are down, after any stream of key events. A
call that has read an event need not have returned: the case of the enter key reads one more code, and so
does that of the second half of what the print screen key sends when it comes up. `Mode` is what the next
event meets there, `KeyFlags.after` what a mode makes of an event (`run_event`).

`right_after` has the events that a mode handles right, for any flags that are right before; so the flags
are right in a whole run exactly if all of its events are of this kind.
-/

namespace Talios

open StreamRead

/-! ## Streams -/

@[simp] theorem held_nil : held [] = fun _ => false := rfl

/-- One more event. -/
theorem held_concat (es : List KeyEvent) (e : KeyEvent) :
    held (es ++ [e]) = Function.update (held es) e.key e.make := by
  have hheld : ∀ (es : List KeyEvent) (k : Key),
      held es k = ((es.filter (fun e => e.key = k)).getLast?.map KeyEvent.make).getD false := by
    intro es k
    cases es <;> rfl
  funext k
  rw [hheld, List.filter_append, Function.update_apply, hheld es k]
  by_cases hk : e.key = k
  · rw [List.filter_cons_of_pos (by simpa using hk), if_pos hk.symm]
    simp
  · rw [List.filter_cons_of_neg (by simpa using hk), if_neg (Ne.symm hk)]
    simp

/-! ## Runs -/

theorem steady_matchCodes : ∀ ws : List UInt8, Steady (matchCodes ws)
  | [] => steady_pure _
  | _ :: ws => steady_bind steady_next fun _ => steady_ite (steady_pure _) (steady_matchCodes ws)

theorem steady_normalKey (s : KeyFlags) (x : UInt8) : Steady (normalKey s x) := by
  unfold normalKey
  have henter : Steady (getScanCode >>= fun _ => pure (s, (0x0a : UInt8))) :=
    steady_bind steady_next fun _ => steady_pure _
  repeat' first
    | exact steady_pure _
    | exact henter
    | apply steady_ite

theorem steady_extendedKey (s : KeyFlags) : Steady (extendedKey s) := by
  unfold extendedKey
  refine steady_bind steady_next fun x => steady_ite ?_ ?_
  · refine steady_bind steady_next fun y => steady_ite ?_ (steady_pure _)
    exact steady_bind steady_next fun z => steady_ite (steady_pure _) (steady_pure _)
  · repeat' first
      | exact steady_pure _
      | apply steady_ite

theorem reads_analyzeKeyCode : Reads analyzeKeyCode where
  steady s := by
    unfold analyzeKeyCode
    refine steady_bind steady_next fun x => steady_ite ?_ (steady_ite ?_ (steady_normalKey s x))
    · exact steady_bind (steady_matchCodes _) fun _ => steady_ite (steady_pure _) (steady_normalKey s x)
    · exact steady_bind (steady_extendedKey s) fun r => steady_ite (steady_normalKey _ _) (steady_pure _)
  waits _ := rfl

/-- The calls on these codes leave these flags, and the last one waits with these codes. -/
def Leaves (s : KeyFlags) (codes : List UInt8) (s' : KeyFlags) (waiting : List UInt8) : Prop :=
  (keyRun s codes).state = s' ∧ (keyRun s codes).waiting = waiting

section

variable {s s₁ s' : KeyFlags} {v : UInt8} {xs ys rest w w' : List UInt8}

theorem Leaves.wait (h : analyzeKeyCode s xs = none) : Leaves s xs s xs := by
  unfold Leaves keyRun
  rw [run_wait h]
  exact ⟨rfl, rfl⟩

theorem Leaves.nil : Leaves s [] s [] := Leaves.wait rfl

theorem Leaves.call (h : analyzeKeyCode s xs = some ((s₁, v), rest)) (hrest : Leaves s₁ rest s' w) :
    Leaves s xs s' w := by
  obtain ⟨used, -, rfl, -⟩ := reads_analyzeKeyCode.used h
  unfold Leaves keyRun at *
  rw [run_call reads_analyzeKeyCode h]
  exact hrest

/-- More codes: the calls go on with what the waiting one has taken. -/
theorem Leaves.append (h : Leaves s xs s₁ w) (hys : Leaves s₁ (w ++ ys) s' w') :
    Leaves s (xs ++ ys) s' w' := by
  obtain ⟨rfl, rfl⟩ := h
  unfold Leaves keyRun at *
  rw [run_append reads_analyzeKeyCode ys _ s xs le_rfl]
  exact hys

end

/-! ## Modes -/

/-- Where the next event comes in: at a new call, in the call of an enter key, which takes one more code,
or in that of a print screen key that has come up. -/
inductive Mode
  | aligned
  | enter
  | printScreen
deriving DecidableEq

/-- The mode behind an event. -/
def Mode.next : Mode → KeyEvent → Mode
  | .aligned, ⟨.plain c, _⟩ => if c = 0x1c then .enter else .aligned
  | .enter, ⟨.ext c, _⟩ => if c = 0x1c then .enter else .aligned
  | _, ⟨.printScreen, false⟩ => .printScreen
  | _, _ => .aligned

/-- What the waiting call has taken. -/
def Mode.Waiting : Mode → List UInt8 → Prop
  | .aligned, w => w = []
  | .enter, w => ∃ b, w = [codeOf 0x1c b]
  | .printScreen, w => w = [0xe0, 0xaa]

/-- What a mode makes of an event. -/
def KeyFlags.after (s : KeyFlags) : Mode → KeyEvent → KeyFlags
  | .aligned, ⟨.plain c, make⟩ => s.press c make
  | .aligned, ⟨.ext c, make⟩ => s.extPress c make
  | .aligned, _ => s
  | .enter, ⟨.plain _, _⟩ => s
  | .enter, ⟨.ext c, make⟩ => s.press c make
  | .enter, ⟨.printScreen, make⟩ => if make then { s with shiftL := true } else s
  | .enter, ⟨.pause, _⟩ => { s with ctrlL := true }
  | .printScreen, ⟨.ext c, make⟩ => if c = 0x37 ∧ make then s else { s with shiftL := false }
  | .printScreen, ⟨.pause, _⟩ => { s with shiftL := false, ctrlL := true }
  | .printScreen, _ => { s with shiftL := false }

/-- The mode behind a stream. -/
def modeAfter (es : List KeyEvent) : Mode := es.foldl Mode.next .aligned

section

variable (s : KeyFlags) {c : UInt8}

/-- A code at a new call. -/
theorem leaves_plain (hc : IsKeyCode c) (b : Bool) :
    ∃ w, Leaves s [codeOf c b] (s.press c b) w ∧ (Mode.next .aligned ⟨.plain c, b⟩).Waiting w := by
  by_cases h : c = 0x1c
  · subst h
    exact ⟨_, Leaves.wait (analyze_enter s [] b).1, b, rfl⟩
  · have hnext : Mode.next .aligned ⟨.plain c, b⟩ = .aligned := if_neg h
    rw [hnext]
    exact ⟨_, Leaves.call (analyze_plain s [] hc h b) Leaves.nil, rfl⟩

theorem leaves_printRelease : Leaves s [0xe0, 0xaa] s [0xe0, 0xaa] :=
  Leaves.wait (analyze_printRelease s []).1

end

/-- The events at a new call. -/
theorem run_aligned (s : KeyFlags) {e : KeyEvent} (he : e.Valid) :
    ∃ w, Leaves s e.codes (s.after .aligned e) w ∧ (Mode.next .aligned e).Waiting w := by
  obtain ⟨key, make⟩ := e
  cases key with
  | plain c => exact leaves_plain s he make
  | ext c =>
      obtain ⟨v, hv⟩ := analyze_ext s [] he.1 he.2.1 make
      exact ⟨[], Leaves.call hv Leaves.nil, rfl⟩
  | printScreen =>
      cases make with
      | true => exact ⟨[], Leaves.call (analyze_printScreen s []) Leaves.nil, rfl⟩
      | false =>
          obtain ⟨v, hv⟩ := analyze_ext s [0xe0, 0xaa] (show IsKeyCode 0x37 by decide) (by decide) false
          exact ⟨_, Leaves.call hv (leaves_printRelease s), rfl⟩
  | pause => exact ⟨[], Leaves.call (analyze_pause s []) Leaves.nil, rfl⟩

/-- The events whose first code goes to an enter key. -/
theorem run_enter (s : KeyFlags) {e : KeyEvent} (he : e.Valid) (b : Bool) :
    ∃ w, Leaves s (codeOf 0x1c b :: e.codes) (s.after .enter e) w ∧ (Mode.next .enter e).Waiting w := by
  have henter : ∀ y xs, analyzeKeyCode s (codeOf 0x1c b :: y :: xs) = some ((s, 0x0a), xs) :=
    fun y xs => (analyze_enter s xs b).2 y
  obtain ⟨key, make⟩ := e
  cases key with
  | plain c => exact ⟨[], Leaves.call (henter _ _) Leaves.nil, rfl⟩
  | ext c =>
      obtain ⟨w, hw, hwait⟩ := leaves_plain s he.1 make
      exact ⟨w, Leaves.call (henter _ _) hw, hwait⟩
  | printScreen =>
      cases make with
      | true =>
          obtain ⟨v, hv⟩ := analyze_ext { s with shiftL := true } [] (show IsKeyCode 0x37 by decide)
            (by decide) true
          have hshift := analyze_plain s [0xe0, 0x37] (show IsKeyCode 0x2a by decide) (by decide) true
          exact ⟨[], Leaves.call (henter _ _) (Leaves.call hshift (Leaves.call hv Leaves.nil)), rfl⟩
      | false =>
          have hstar := analyze_plain s [0xe0, 0xaa] (show IsKeyCode 0x37 by decide) (by decide) false
          exact ⟨_, Leaves.call (henter _ _) (Leaves.call hstar (leaves_printRelease s)), rfl⟩
  | pause =>
      -- 0x1d is taken for the left control key, and the rest of the sequence for no key
      have hctrl := analyze_plain s [0x45, 0xe1, 0x9d, 0xc5] (show IsKeyCode 0x1d by decide) (by decide) true
      have hnum := analyze_plain { s with ctrlL := true } [0xe1, 0x9d, 0xc5] (show IsKeyCode 0x45 by decide)
        (by decide) true
      have hhalf := analyze_halfPause { s with ctrlL := true } [0xc5]
      have hnum' := analyze_plain { s with ctrlL := true } [] (show IsKeyCode 0x45 by decide) (by decide) false
      exact ⟨[], Leaves.call (henter _ _) (Leaves.call hctrl (Leaves.call hnum (Leaves.call hhalf
        (Leaves.call hnum' Leaves.nil)))), rfl⟩

/-- The events whose first code goes to a print screen key that has come up. -/
theorem run_printScreen (s : KeyFlags) {e : KeyEvent} (he : e.Valid) :
    ∃ w, Leaves s (0xe0 :: 0xaa :: e.codes) (s.after .printScreen e) w ∧
      (Mode.next .printScreen e).Waiting w := by
  obtain ⟨-, hcode, -⟩ := analyze_printRelease s []
  obtain ⟨key, make⟩ := e
  cases key with
  | plain c => exact ⟨[], Leaves.call (hcode _ (codeOf_ne he make).1) Leaves.nil, rfl⟩
  | ext c =>
      have hcall := (analyze_printRelease s []).2.2 (codeOf c make)
      have hiff : codeOf c make = 0x37 ↔ c = 0x37 ∧ make = true := by
        constructor
        · intro h
          have hlow := codeOf_low he.1 make
          have hmake := isMake_codeOf he.1 make
          rw [h] at hlow hmake
          exact ⟨hlow.symm, hmake.symm⟩
        · rintro ⟨rfl, rfl⟩
          rfl
      refine ⟨[], ?_, rfl⟩
      show Leaves s [0xe0, 0xaa, 0xe0, codeOf c make] (if c = 0x37 ∧ make then s else _) []
      by_cases h : c = 0x37 ∧ make = true
      · rw [if_pos (hiff.mpr h)] at hcall
        rw [if_pos h]
        exact Leaves.call hcall Leaves.nil
      · rw [if_neg (fun h' => h (hiff.mp h'))] at hcall
        rw [if_neg h]
        exact Leaves.call hcall Leaves.nil
  | printScreen =>
      cases make with
      | true =>
          obtain ⟨v, hv⟩ := analyze_ext { s with shiftL := false } [] (show IsKeyCode 0x37 by decide)
            (by decide) true
          exact ⟨[], Leaves.call ((analyze_printRelease s [0xe0, 0x37]).2.2 0x2a)
            (Leaves.call hv Leaves.nil), rfl⟩
      | false =>
          exact ⟨_, Leaves.call ((analyze_printRelease s [0xe0, 0xaa]).2.2 0xb7)
            (leaves_printRelease _), rfl⟩
  | pause =>
      have hctrl := analyze_plain { s with shiftL := false } [0x45, 0xe1, 0x9d, 0xc5]
        (show IsKeyCode 0x1d by decide) (by decide) true
      have hnum := analyze_plain { s with shiftL := false, ctrlL := true } [0xe1, 0x9d, 0xc5]
        (show IsKeyCode 0x45 by decide) (by decide) true
      have hhalf := analyze_halfPause { s with shiftL := false, ctrlL := true } [0xc5]
      have hnum' := analyze_plain { s with shiftL := false, ctrlL := true } []
        (show IsKeyCode 0x45 by decide) (by decide) false
      exact ⟨[], Leaves.call ((analyze_printRelease s [0x1d, 0x45, 0xe1, 0x9d, 0xc5]).2.1 0xe1 (by decide))
        (Leaves.call hctrl (Leaves.call hnum (Leaves.call hhalf (Leaves.call hnum' Leaves.nil)))), rfl⟩

/-- **One event**, in every mode. -/
theorem run_event (s : KeyFlags) {m : Mode} {w : List UInt8} {e : KeyEvent} (he : e.Valid)
    (hw : m.Waiting w) : ∃ w', Leaves s (w ++ e.codes) (s.after m e) w' ∧ (m.next e).Waiting w' := by
  cases m with
  | aligned =>
      obtain rfl : w = [] := hw
      exact run_aligned s he
  | enter =>
      obtain ⟨b, rfl⟩ : ∃ b, w = [codeOf 0x1c b] := hw
      exact run_enter s he b
  | printScreen =>
      obtain rfl : w = [0xe0, 0xaa] := hw
      exact run_printScreen s he

/-- A stream and one more event. -/
theorem leaves_concat {pre : List KeyEvent} {e : KeyEvent}
    (hpre : (modeAfter pre).Waiting (keyRun keyFlagsInit (codesOf pre)).waiting) (he : e.Valid) :
    ∃ w, Leaves keyFlagsInit (codesOf (pre ++ [e]))
        ((keyRun keyFlagsInit (codesOf pre)).state.after (modeAfter pre) e) w ∧
      (modeAfter (pre ++ [e])).Waiting w := by
  obtain ⟨w, hleaves, hwait⟩ := run_event (keyRun keyFlagsInit (codesOf pre)).state he hpre
  have hcodes : codesOf (pre ++ [e]) = codesOf pre ++ e.codes := by
    unfold codesOf
    rw [List.flatMap_append, List.flatMap_singleton]
  have hmode : modeAfter (pre ++ [e]) = (modeAfter pre).next e := by
    unfold modeAfter
    rw [List.foldl_append, List.foldl_cons, List.foldl_nil]
  rw [hcodes, hmode]
  exact ⟨w, Leaves.append ⟨rfl, rfl⟩ hleaves, hwait⟩

/-- The mode says what the last call waits with. -/
theorem run_waiting {es : List KeyEvent} (h : ∀ e ∈ es, e.Valid) :
    (modeAfter es).Waiting (keyRun keyFlagsInit (codesOf es)).waiting := by
  induction es using List.reverseRecOn with
  | nil => rfl
  | append_singleton pre e ih =>
      obtain ⟨w, hleaves, hwait⟩ := leaves_concat (ih fun e' he' => h e' (List.mem_append_left _ he'))
        (h e (by simp))
      rw [hleaves.2]
      exact hwait

/-- The flags behind one more event. -/
theorem run_concat {pre : List KeyEvent} {e : KeyEvent} (h : ∀ e' ∈ pre ++ [e], e'.Valid) :
    (keyRun keyFlagsInit (codesOf (pre ++ [e]))).state
      = (keyRun keyFlagsInit (codesOf pre)).state.after (modeAfter pre) e := by
  obtain ⟨w, hleaves, -⟩ := leaves_concat (run_waiting fun e' he' => h e' (List.mem_append_left _ he'))
    (h e (by simp))
  exact hleaves.1

/-! ## Right flags -/

/-- The flags say which of the modifier keys are down. -/
structure KeyFlags.Right (s : KeyFlags) (down : Key → Bool) : Prop where
  shiftL : s.shiftL = down (.plain 0x2a)
  shiftR : s.shiftR = down (.plain 0x36)
  ctrlL : s.ctrlL = down (.plain 0x1d)
  ctrlR : s.ctrlR = down (.ext 0x1d)
  altL : s.altL = down (.plain 0x38)
  altR : s.altR = down (.ext 0x38)

/-- The events that a mode handles right, with these keys down. At a new call: all but the right control
key, and a key with a case that sets `CtrlL` while the left control key is up. In the call of an enter
key: no modifier key, the print screen key coming up, or going down while the left shift key is down, and
the pause key while the left control key is down. In the call of a print screen key: an event that does not
change another modifier key than the left shift key and leaves that up, and the code 0x37 behind a prefix.
A modifier key that sends once more what it sent last is no change. -/
def Tracked (down : Key → Bool) : Mode → KeyEvent → Prop
  | .aligned, ⟨.ext c, make⟩ =>
      if c = 0x1d then make = down (.plain c) ∧ make = down (.ext c)
      else c ∈ ctrlLCases → down (.plain 0x1d) = true
  | .aligned, _ => True
  | .enter, ⟨.plain c, make⟩ => c ∈ ([0x2a, 0x36, 0x1d, 0x38] : List UInt8) → make = down (.plain c)
  | .enter, ⟨.ext c, make⟩ =>
      c ∈ ([0x1d, 0x38] : List UInt8) → make = down (.plain c) ∧ make = down (.ext c)
  | .enter, ⟨.printScreen, make⟩ => make = true → down (.plain 0x2a) = true
  | .enter, ⟨.pause, _⟩ => down (.plain 0x1d) = true
  | .printScreen, ⟨.plain c, make⟩ =>
      (c ∈ ([0x36, 0x1d, 0x38] : List UInt8) → make = down (.plain c)) ∧
        (if c = 0x2a then make else down (.plain 0x2a)) = false
  | .printScreen, ⟨.ext c, make⟩ =>
      (c ∈ ([0x1d, 0x38] : List UInt8) → make = down (.ext c)) ∧
        (c = 0x37 ∧ make = true ∨ down (.plain 0x2a) = false)
  | .printScreen, ⟨.printScreen, _⟩ => down (.plain 0x2a) = false
  | .printScreen, ⟨.pause, _⟩ => down (.plain 0x2a) = false ∧ down (.plain 0x1d) = true

section

variable {s : KeyFlags} {down : Key → Bool} {c : UInt8} {make : Bool}

theorem right_iff : s.Right down ↔ s.shiftL = down (.plain 0x2a) ∧ s.shiftR = down (.plain 0x36) ∧
    s.ctrlL = down (.plain 0x1d) ∧ s.ctrlR = down (.ext 0x1d) ∧ s.altL = down (.plain 0x38) ∧
    s.altR = down (.ext 0x38) :=
  ⟨fun h => ⟨h.shiftL, h.shiftR, h.ctrlL, h.ctrlR, h.altL, h.altR⟩,
    fun ⟨h1, h2, h3, h4, h5, h6⟩ => ⟨h1, h2, h3, h4, h5, h6⟩⟩

/-- What the `switch` does to each of the flags. -/
theorem press_eq (s : KeyFlags) (c : UInt8) (make : Bool) : s.press c make
    = ⟨if c = 0x2a then make else s.shiftL, if c = 0x36 then make else s.shiftR,
      if c = 0x1d then make else s.ctrlL, s.ctrlR, if c = 0x38 then make else s.altL, s.altR,
      if c = 0x3a then !s.caps else s.caps⟩ := by
  unfold KeyFlags.press
  split_ifs <;> simp_all

/-- A key with one code, at a new call. -/
theorem right_plain (hs : s.Right down) :
    (s.press c make).Right (Function.update down (.plain c) make) := by
  rw [press_eq, right_iff]
  simp only [Function.update_apply, Key.plain.injEq, reduceCtorEq, if_false, hs.shiftL, hs.shiftR, hs.ctrlL,
    hs.ctrlR, hs.altL, hs.altR, @eq_comm _ c, and_self]

/-- A key with a code behind `0xe0`, at a new call. -/
theorem right_ext (hs : s.Right down) (hc1 : c ≠ 0x2a) (hc2 : c ≠ 0x36) :
    (s.extPress c make).Right (Function.update down (.ext c) make)
      ↔ Tracked down .aligned ⟨.ext c, make⟩ := by
  unfold KeyFlags.extPress Tracked
  rw [press_eq, right_iff]
  simp only [Function.update_apply, Key.ext.injEq, reduceCtorEq, if_false]
  by_cases h1 : c = 0x1d
  · -- the flag of the left control key is set, that of the right one stays
    subst h1
    simp only [if_pos, hs.shiftL, hs.shiftR, hs.ctrlR, hs.altL, hs.altR, true_and]
    rw [if_neg (by decide), eq_self_iff_true, and_true]
    exact and_congr_right fun _ => eq_comm
  by_cases h2 : c = 0x38
  · have hcase : c ∉ ctrlLCases := by
      rw [h2]
      decide
    simp only [if_neg h1, if_pos h2, if_pos h2.symm, if_neg (Ne.symm h1), hs.shiftL, hs.shiftR, hs.ctrlL,
      hs.ctrlR, hs.altL, and_self, true_iff]
    exact fun h => absurd h hcase
  by_cases h3 : c ∈ ctrlLCases
  · simp only [if_neg h1, if_neg h2, if_pos h3, if_neg (Ne.symm h1), if_neg (Ne.symm h2), hs.shiftL,
      hs.shiftR, hs.ctrlR, hs.altL, hs.altR, and_true, true_and]
    exact ⟨fun h _ => h.symm, fun h => (h h3).symm⟩
  · simp only [if_neg h1, if_neg h2, if_neg h3, if_neg hc1, if_neg hc2, if_neg (Ne.symm h1),
      if_neg (Ne.symm h2), hs.shiftL, hs.shiftR, hs.ctrlL, hs.ctrlR, hs.altL, hs.altR, and_self, true_iff]
    exact fun h => absurd h h3

/-- The call of an enter key. -/
theorem right_enter {e : KeyEvent} (he : e.Valid) (hs : s.Right down) :
    (s.after .enter e).Right (Function.update down e.key e.make) ↔ Tracked down .enter e := by
  obtain ⟨key, make⟩ := e
  rw [right_iff]
  cases key with
  | plain c =>
      simp only [KeyFlags.after, Tracked, Function.update_apply, Key.plain.injEq, reduceCtorEq, if_false,
        hs.shiftL, hs.shiftR, hs.ctrlL, hs.ctrlR, hs.altL, hs.altR]
      grind
  | ext c =>
      obtain ⟨-, hc1, hc2⟩ := he
      simp only [KeyFlags.after, Tracked, press_eq, Function.update_apply, Key.ext.injEq, reduceCtorEq,
        if_false, hs.shiftL, hs.shiftR, hs.ctrlL, hs.ctrlR, hs.altL, hs.altR]
      grind
  | printScreen =>
      cases make with
      | true =>
          simp only [KeyFlags.after, Tracked, Function.update_apply, reduceCtorEq, if_false, if_true,
            hs.shiftR, hs.ctrlL, hs.ctrlR, hs.altL, hs.altR]
          grind
      | false =>
          simp only [KeyFlags.after, Tracked, Function.update_apply, reduceCtorEq, if_false, hs.shiftL,
            hs.shiftR, hs.ctrlL, hs.ctrlR, hs.altL, hs.altR]
          grind
  | pause =>
      simp only [KeyFlags.after, Tracked, Function.update_apply, reduceCtorEq, if_false, hs.shiftL,
        hs.shiftR, hs.ctrlR, hs.altL, hs.altR]
      grind

/-- The call of a print screen key that has come up. -/
theorem right_printScreen {e : KeyEvent} (he : e.Valid) (hs : s.Right down) :
    (s.after .printScreen e).Right (Function.update down e.key e.make) ↔ Tracked down .printScreen e := by
  obtain ⟨key, make⟩ := e
  rw [right_iff]
  cases key with
  | plain c =>
      simp only [KeyFlags.after, Tracked, Function.update_apply, Key.plain.injEq, reduceCtorEq, if_false,
        hs.shiftR, hs.ctrlL, hs.ctrlR, hs.altL, hs.altR]
      grind
  | ext c =>
      by_cases hc : c = 0x37 ∧ make = true
      · simp only [KeyFlags.after, Tracked, if_pos hc, Function.update_apply, Key.ext.injEq, reduceCtorEq,
          if_false, hs.shiftL, hs.shiftR, hs.ctrlL, hs.ctrlR, hs.altL, hs.altR]
        grind
      · simp only [KeyFlags.after, Tracked, if_neg hc, Function.update_apply, Key.ext.injEq, reduceCtorEq,
          if_false, hs.shiftR, hs.ctrlL, hs.ctrlR, hs.altL, hs.altR]
        grind
  | printScreen =>
      simp only [KeyFlags.after, Tracked, Function.update_apply, reduceCtorEq, if_false, hs.shiftR, hs.ctrlL,
        hs.ctrlR, hs.altL, hs.altR]
      grind
  | pause =>
      simp only [KeyFlags.after, Tracked, Function.update_apply, reduceCtorEq, if_false, hs.shiftR, hs.ctrlR,
        hs.altL, hs.altR]
      grind

/-- **The events that a mode handles right.** -/
theorem right_after {m : Mode} {e : KeyEvent} (he : e.Valid) (hs : s.Right down) :
    (s.after m e).Right (Function.update down e.key e.make) ↔ Tracked down m e := by
  cases m with
  | enter => exact right_enter he hs
  | printScreen => exact right_printScreen he hs
  | aligned =>
      -- the print screen key and the pause key change no flag here
      have hother : e.key = .printScreen ∨ e.key = .pause →
          (s.Right (Function.update down e.key e.make) ↔ True) := by
        intro hkey
        refine iff_of_true (right_iff.mpr ?_) trivial
        obtain hkey | hkey := hkey <;>
          simp only [hkey, Function.update_apply, reduceCtorEq, if_false, hs.shiftL, hs.shiftR, hs.ctrlL,
            hs.ctrlR, hs.altL, hs.altR, and_self]
      obtain ⟨key, make⟩ := e
      cases key with
      | plain c => exact iff_of_true (right_plain hs) trivial
      | ext c => exact right_ext hs he.2.1 he.2.2
      | printScreen => exact hother (Or.inl rfl)
      | pause => exact hother (Or.inr rfl)

end

/-! ## Whole runs -/

/-- **When the modifier keys are tracked.** In a run on key events the flags are right after every event
exactly if every event is one that the mode before it handles right. -/
theorem modifiers_tracked {es : List KeyEvent} (h : ∀ e ∈ es, e.Valid) :
    (∀ pre, pre <+: es → (keyRun keyFlagsInit (codesOf pre)).state.Right (held pre)) ↔
      ∀ pre e, pre ++ [e] <+: es → Tracked (held pre) (modeAfter pre) e := by
  have hstep : ∀ {pre e}, pre ++ [e] <+: es →
      (keyRun keyFlagsInit (codesOf pre)).state.Right (held pre) →
      ((keyRun keyFlagsInit (codesOf (pre ++ [e]))).state.Right (held (pre ++ [e])) ↔
        Tracked (held pre) (modeAfter pre) e) := by
    intro pre e hpre hright
    have hvalid : ∀ e' ∈ pre ++ [e], e'.Valid := fun e' he' => h e' (hpre.subset he')
    rw [run_concat hvalid, held_concat]
    exact right_after (hvalid e (by simp)) hright
  constructor
  · intro hright pre e hpre
    exact (hstep hpre (hright pre ((List.prefix_append _ _).trans hpre))).mp (hright _ hpre)
  · intro htracked pre hpre
    induction pre using List.reverseRecOn with
    | nil => exact ⟨rfl, rfl, rfl, rfl, rfl, rfl⟩
    | append_singleton pre e ih =>
        exact (hstep hpre (ih ((List.prefix_append _ _).trans hpre))).mpr (htracked pre e hpre)

/-- The left shift key goes down, and the enter key with it: the flags are right all the time, and `ShiftL`
is set in the end. -/
theorem modifiers_tracked_shift :
    (∀ pre, pre <+: [⟨.plain 0x2a, true⟩, ⟨.plain 0x1c, true⟩] →
      (keyRun keyFlagsInit (codesOf pre)).state.Right (held pre)) ∧
      (keyRun keyFlagsInit (codesOf [⟨.plain 0x2a, true⟩, ⟨.plain 0x1c, true⟩])).state.shiftL = true := by
  have hright : ∀ pre, pre <+: [⟨.plain 0x2a, true⟩, ⟨.plain 0x1c, true⟩] →
      (keyRun keyFlagsInit (codesOf pre)).state.Right (held pre) := by
    refine (modifiers_tracked fun e he => ?_).mpr fun pre e hpre => ?_
    · obtain rfl | rfl : e = ⟨.plain 0x2a, true⟩ ∨ e = ⟨.plain 0x1c, true⟩ := by simpa using he
      · exact show IsKeyCode 0x2a by decide
      · exact show IsKeyCode 0x1c by decide
    · obtain ⟨rest, hrest⟩ := hpre
      rcases pre with _ | ⟨a, _ | ⟨b, pre⟩⟩
      · obtain rfl := (List.cons.inj hrest).1
        exact trivial
      · obtain ⟨rfl, htail⟩ := List.cons.inj hrest
        obtain rfl := (List.cons.inj htail).1
        exact trivial
      · have hlen := congrArg List.length hrest
        simp at hlen
  exact ⟨hright, (hright _ List.prefix_rfl).shiftL⟩

/-- The up key goes down and comes up: `CtrlL` is set, and no control key is down. -/
theorem arrow_sets_ctrlL :
    (keyRun keyFlagsInit (codesOf [⟨.ext 0x48, true⟩, ⟨.ext 0x48, false⟩])).state.ctrlL = true ∧
      held [⟨.ext 0x48, true⟩, ⟨.ext 0x48, false⟩] (.plain 0x1d) = false := by
  decide

end Talios
