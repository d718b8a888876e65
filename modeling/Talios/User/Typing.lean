import Talios.User.Modifiers

set_option autoImplicit false

/-! # Typing

What the calls of `AnalyzeKeyCode` return for keys with one code, of which several may be down at once. Two
cases come before the test for the key going down: that of the backspace key and that of the tab key, which
return a character for the key coming up too, and that of the enter key, which takes one more code, whichever
key sends it.

`stream_induction` follows the calls through a stream; `typed_exactly` says for which streams the values
are the characters of the keys that have gone down.
-/

namespace Talios

open StreamRead

/-! ## Streams -/

/-- An event of a key with one code. -/
structure PlainEvent where
  code : UInt8
  make : Bool
  isKey : IsKeyCode code

/-- The codes of the events. -/
def plainCodes (es : List PlainEvent) : List UInt8 := es.map (fun e => codeOf e.code e.make)

/-- A key comes up only if it is down. One that is held may send its code again. -/
def Turns : (UInt8 → Bool) → List PlainEvent → Prop
  | _, [] => True
  | down, e :: es =>
      (e.make = false → down e.code = true) ∧ Turns (Function.update down e.code e.make) es

/-- The character of a key, without and with shift; 0 if it has none. -/
def keyChar (shift : Bool) (c : UInt8) : UInt8 :=
  if c = 0x1c then 0x0a
  else if c = 0x0e then 0x08
  else if c = 0x0f then 0x09
  else keyCodeMapNormal.getD (c.toNat * MAP_COLS + if shift then 1 else 0) 0

/-- A shift key is down. -/
def shifted (down : UInt8 → Bool) : Bool := down 0x2a || down 0x36

/-- The characters that an event stands for: one if another key than a modifier key goes down and has a
character, otherwise none. -/
def PlainEvent.chars (e : PlainEvent) (down : UInt8 → Bool) : List UInt8 :=
  if e.make = true ∧ e.code ∉ modifierCodes ∧ keyChar (shifted down) e.code ≠ 0 then
    [keyChar (shifted down) e.code]
  else []

/-- The characters of the keys that go down, in order. -/
def typed : (UInt8 → Bool) → List PlainEvent → List UInt8
  | _, [] => []
  | down, e :: es => e.chars down ++ typed (Function.update down e.code e.make) es

/-- The values of the calls that are not 0. -/
def returned (s : KeyFlags) (es : List PlainEvent) : List UInt8 :=
  ((keyRun s (plainCodes es)).calls.map Call.value).filter (· ≠ 0)

/-- No call reads the codes of two keys. -/
def Own (s : KeyFlags) (es : List PlainEvent) : Prop :=
  ∀ call ∈ (keyRun s (plainCodes es)).calls, ∃ c, ∀ x ∈ call.read, x &&& 0x7f = c

/-- The enter key comes up before anything else happens, and neither the backspace key nor the tab key
comes up at all. -/
def Prompt (es : List PlainEvent) : Prop :=
  (∀ e ∈ es, e.make = false → e.code ≠ 0x0e ∧ e.code ≠ 0x0f) ∧
    ∀ e rest, e :: rest <:+ es → e.code = 0x1c → e.make = true →
      ∃ e' ∈ rest.head?, e'.code = 0x1c ∧ e'.make = false

/-! ## Calls -/

section

variable {s : KeyFlags} {down : UInt8 → Bool} {e e' : PlainEvent} {es : List PlainEvent}

/-- The nonzero values of a call. -/
def nonzero (v : UInt8) : List UInt8 := if v ≠ 0 then [v] else []

theorem own_nil : Own s [] := fun _ h => absurd h List.not_mem_nil

/-- A run that begins with a call. -/
theorem run_first {codes : List UInt8} {s₁ : KeyFlags} {v : UInt8} {es' : List PlainEvent}
    (hcodes : plainCodes es = codes ++ plainCodes es')
    (h : analyzeKeyCode s (codes ++ plainCodes es') = some ((s₁, v), plainCodes es')) :
    returned s es = nonzero v ++ returned s₁ es' ∧
      (Own s es ↔ (∃ c, ∀ x ∈ codes, x &&& 0x7f = c) ∧ Own s₁ es') := by
  have hrun := run_call reads_analyzeKeyCode h
  unfold returned Own keyRun nonzero
  rw [hcodes, hrun]
  constructor
  · rw [List.map_cons, List.filter_cons]
    by_cases hv : v = 0 <;> simp [hv]
  · rw [List.forall_mem_cons]

theorem run_other (h : e.code ≠ 0x1c) :
    returned s (e :: es)
        = nonzero (s.keyValue e.code e.make) ++ returned (s.press e.code e.make) es ∧
      (Own s (e :: es) ↔ Own (s.press e.code e.make) es) := by
  have hcall := analyze_plain s (plainCodes es) e.isKey h e.make
  obtain ⟨hret, hown⟩ := @run_first s (e :: es) [codeOf e.code e.make] _ _ es rfl hcall
  refine ⟨hret, hown.trans (and_iff_right ⟨e.code, fun x hx => ?_⟩)⟩
  rw [List.mem_singleton.mp hx]
  exact codeOf_low e.isKey e.make

/-- The enter key, with one more event: the code of that is taken, too. -/
theorem run_pair (h : e.code = 0x1c) :
    returned s (e :: e' :: es) = 0x0a :: returned s es ∧
      (Own s (e :: e' :: es) ↔ e'.code = 0x1c ∧ Own s es) := by
  have hcall := (analyze_enter s (plainCodes es) e.make).2 (codeOf e'.code e'.make)
  rw [← h] at hcall
  obtain ⟨hret, hown⟩ := @run_first s (e :: e' :: es) [codeOf e.code e.make, codeOf e'.code e'.make] _ _ es
    rfl hcall
  refine ⟨hret, hown.trans (and_congr_left fun _ => ?_)⟩
  constructor
  · rintro ⟨c, hc⟩
    have h1 := hc _ (List.mem_cons_self)
    have h2 := hc _ (List.mem_cons_of_mem _ List.mem_cons_self)
    rw [codeOf_low e.isKey] at h1
    rw [codeOf_low e'.isKey] at h2
    rw [h2, ← h1, h]
  · intro h'
    refine ⟨0x1c, fun x hx => ?_⟩
    obtain rfl | rfl : x = codeOf e.code e.make ∨ x = codeOf e'.code e'.make := by simpa using hx
    · rw [codeOf_low e.isKey, h]
    · rw [codeOf_low e'.isKey, h']

/-- The enter key, at the end: the call waits. -/
theorem run_last (h : e.code = 0x1c) : returned s [e] = [] ∧ Own s [e] := by
  have hwait := (analyze_enter s [] e.make).1
  rw [← h] at hwait
  have hrun : keyRun s (plainCodes [e]) = ⟨[], s, [codeOf e.code e.make]⟩ := run_wait hwait
  unfold returned Own
  rw [hrun]
  exact ⟨rfl, fun _ hm => absurd hm List.not_mem_nil⟩

/-- The flags of the shift keys are right. -/
def Shifts (s : KeyFlags) (down : UInt8 → Bool) : Prop := s.shiftL = down 0x2a ∧ s.shiftR = down 0x36

theorem Shifts.press (h : Shifts s down) :
    Shifts (s.press e.code e.make) (Function.update down e.code e.make) := by
  unfold Shifts at *
  rw [press_eq]
  simp only [Function.update_apply, h, @eq_comm _ e.code, and_self]

theorem Shifts.enter (h : Shifts s down) (he : e.code = 0x1c) :
    Shifts s (Function.update down e.code e.make) := by
  unfold Shifts at *
  rw [he, Function.update_of_ne (by decide), Function.update_of_ne (by decide)]
  exact h

/-- The value of a call is the character of its event, but for two keys that come up. -/
theorem nonzero_keyValue (hs : Shifts s down) (h : e.code ≠ 0x1c) :
    nonzero (s.keyValue e.code e.make)
      = if e.make = false ∧ e.code = 0x0e then [0x08]
        else if e.make = false ∧ e.code = 0x0f then [0x09]
        else e.chars down := by
  have hesc : ∀ shift, keyChar shift 0x01 = 0 := by decide
  have hchar : ∀ c, c ≠ 0x1c → c ≠ 0x0e → c ≠ 0x0f → s.char c = keyChar (shifted down) c := by
    intro c h1 h2 h3
    unfold KeyFlags.char keyChar shifted
    rw [if_neg h1, if_neg h2, if_neg h3, hs.1, hs.2]
  unfold nonzero KeyFlags.keyValue PlainEvent.chars
  by_cases h1 : e.code = 0x01
  · rw [h1, hesc]
    simp
  by_cases h2 : e.code = 0x0e
  · rw [h2]
    cases e.make <;> simp [keyChar, modifierCodes]
  by_cases h3 : e.code = 0x0f
  · rw [h3]
    cases e.make <;> simp [keyChar, modifierCodes]
  have hup2 : ¬ (e.make = false ∧ e.code = 0x0e) := fun h => h2 h.2
  have hup3 : ¬ (e.make = false ∧ e.code = 0x0f) := fun h => h3 h.2
  rw [if_neg h1, if_neg h2, if_neg h3, hchar _ h h2 h3, if_neg hup2, if_neg hup3]
  by_cases hmod : e.code ∈ modifierCodes
  · simp [hmod]
  · cases e.make <;> simp [hmod]

end

/-- The order of the calls on a stream: one event other than of the enter key, or such an event with the one
that follows it. -/
@[elab_as_elim]
theorem stream_induction {motive : List PlainEvent → Prop} (nil : motive [])
    (other : ∀ e es, e.code ≠ 0x1c → motive es → motive (e :: es))
    (last : ∀ e : PlainEvent, e.code = 0x1c → motive [e])
    (pair : ∀ e e' es, e.code = 0x1c → motive es → motive (e :: e' :: es)) : ∀ es, motive es
  | [] => nil
  | [e] => by
      by_cases h : e.code = 0x1c
      · exact last e h
      · exact other e [] h nil
  | e :: e' :: es => by
      by_cases h : e.code = 0x1c
      · exact pair e e' es h (stream_induction nil other last pair es)
      · exact other e (e' :: es) h (stream_induction nil other last pair (e' :: es))

/-! ## Prompt streams -/

section

variable {e e' : PlainEvent} {es : List PlainEvent}

/-- What an event asks of those that follow it. -/
theorem prompt_cons : Prompt (e :: es) ↔
    (e.make = false → e.code ≠ 0x0e ∧ e.code ≠ 0x0f) ∧
      (e.code = 0x1c → e.make = true → ∃ e' ∈ es.head?, e'.code = 0x1c ∧ e'.make = false) ∧
      Prompt es := by
  unfold Prompt
  rw [List.forall_mem_cons]
  constructor
  · rintro ⟨⟨h1, h2⟩, h3⟩
    exact ⟨h1, h3 e es List.suffix_rfl, h2,
      fun x rest hx => h3 x rest (hx.trans (List.suffix_cons e es))⟩
  · rintro ⟨h1, h3, h2, h4⟩
    refine ⟨⟨h1, h2⟩, fun x rest hx => ?_⟩
    rcases List.suffix_cons_iff.mp hx with heq | hx
    · obtain ⟨rfl, rfl⟩ := List.cons.inj heq
      exact h3
    · exact h4 x rest hx

theorem prompt_nil : Prompt [] :=
  ⟨fun _ h => absurd h List.not_mem_nil, fun _ _ h => absurd (List.suffix_nil.mp h) (List.cons_ne_nil _ _)⟩

theorem prompt_other (h : e.code ≠ 0x1c) :
    Prompt (e :: es) ↔ (e.make = false → e.code ≠ 0x0e ∧ e.code ≠ 0x0f) ∧ Prompt es := by
  rw [prompt_cons]
  exact and_congr_right fun _ => and_iff_right fun h' => absurd h' h

theorem prompt_pair (h : e.code = 0x1c) (hmake : e.make = true) :
    Prompt (e :: e' :: es) ↔ (e'.code = 0x1c ∧ e'.make = false) ∧ Prompt es := by
  rw [prompt_cons, prompt_cons]
  constructor
  · rintro ⟨-, hnext, -, -, hes⟩
    obtain ⟨x, hx, hcode, hup⟩ := hnext h hmake
    obtain rfl : e' = x := Option.some.inj hx
    exact ⟨⟨hcode, hup⟩, hes⟩
  · rintro ⟨⟨hcode, hup⟩, hes⟩
    refine ⟨fun hf => absurd (hmake.symm.trans hf) (by decide), fun _ _ => ⟨e', rfl, hcode, hup⟩, ?_, ?_, hes⟩
    · intro _
      rw [hcode]
      decide
    · exact fun _ ht => absurd (hup.symm.trans ht) (by decide)

end

/-! ## Values -/

section

variable {s : KeyFlags} {down : UInt8 → Bool} {e : PlainEvent} {es : List PlainEvent}

theorem chars_up (h : e.make = false) : e.chars down = [] := if_neg (by simp [h])

theorem chars_enter (h : e.code = 0x1c) : e.chars down = if e.make then [0x0a] else [] := by
  have hchar : ∀ shift, keyChar shift 0x1c = 0x0a := by decide
  unfold PlainEvent.chars
  rw [h, hchar]
  cases e.make <;> simp [modifierCodes]

theorem count_chars_enter (h : e.code = 0x1c) (v : UInt8) :
    (e.chars down).count v = if e.make = true ∧ v = 0x0a then 1 else 0 := by
  rw [chars_enter h]
  cases e.make with
  | false => simp
  | true =>
      by_cases hv : v = 0x0a
      · rw [hv]
        rfl
      · rw [if_pos rfl, if_neg (not_and_of_not_right _ hv), List.count_singleton,
          if_neg (by simpa using Ne.symm hv)]

/-- As long as no call reads the codes of two keys, no other character than that of the enter key is
missing. -/
theorem count_typed_le {v : UInt8} (hv : v ≠ 0x0a) : Shifts s down → Own s es →
    (typed down es).count v ≤ (returned s es).count v := by
  induction es using stream_induction generalizing s down with
  | nil => exact fun _ _ => le_rfl
  | other e es h ih =>
      intro hs hown
      have hrest := ih hs.press ((run_other h).2.mp hown)
      rw [(run_other h).1, typed, List.count_append, List.count_append, nonzero_keyValue hs h]
      by_cases hup : e.make = false
      · rw [chars_up hup]
        rw [List.count_nil, Nat.zero_add]
        exact le_add_left hrest
      · rw [if_neg (fun h' => hup h'.1), if_neg (fun h' => hup h'.1)]
        exact Nat.add_le_add_left hrest _
  | last e h =>
      intro _ _
      rw [typed, typed, List.append_nil, count_chars_enter h, if_neg (fun h' => hv h'.2)]
      exact Nat.zero_le _
  | pair e e' es h ih =>
      intro hs hown
      obtain ⟨h', hown⟩ := (run_pair h).2.mp hown
      have hrest := ih ((hs.enter h).enter h') hown
      have hnone : ∀ make : Bool, ¬ (make = true ∧ v = 0x0a) := fun _ h' => hv h'.2
      rw [(run_pair h).1, typed, typed, List.count_append, List.count_append, count_chars_enter h,
        count_chars_enter h', if_neg (hnone _), if_neg (hnone _), Nat.zero_add, Nat.zero_add,
        List.count_cons_of_ne hv.symm]
      exact hrest

/-- As long as no call reads the codes of two keys, there is no character of the enter key too many. -/
theorem count_enter_le : Shifts s down → Turns down es → Own s es →
    (returned s es).count 0x0a ≤ (typed down es).count 0x0a := by
  induction es using stream_induction generalizing s down with
  | nil => exact fun _ _ _ => le_rfl
  | other e es h ih =>
      intro hs hturns hown
      have hrest := ih hs.press hturns.2 ((run_other h).2.mp hown)
      rw [(run_other h).1, typed, List.count_append, List.count_append, nonzero_keyValue hs h]
      refine Nat.add_le_add ?_ hrest
      split_ifs
      · exact Nat.zero_le _
      · exact Nat.zero_le _
      · exact le_rfl
  | last e h =>
      intro _ _ _
      rw [(run_last h).1]
      exact Nat.zero_le _
  | pair e e' es h ih =>
      intro hs hturns hown
      obtain ⟨h', hown⟩ := (run_pair h).2.mp hown
      have hrest := ih ((hs.enter h).enter h') hturns.2.2 hown
      -- the enter key does not come up twice without going down
      have hmake : ¬ (e.make = false ∧ e'.make = false) := by
        rintro ⟨h1, h2⟩
        have hdown := hturns.2.1 h2
        rw [h', ← h, Function.update_self, h1] at hdown
        exact absurd hdown (by decide)
      have hone : 1 ≤ (if e.make = true ∧ (0x0a : UInt8) = 0x0a then 1 else 0)
          + (if e'.make = true ∧ (0x0a : UInt8) = 0x0a then 1 else 0) := by
        cases h1 : e.make with
        | true => simp
        | false =>
            cases h2 : e'.make with
            | true => simp
            | false => exact absurd ⟨h1, h2⟩ hmake
      rw [(run_pair h).1, typed, typed, List.count_append, List.count_append, count_chars_enter h,
        count_chars_enter h', List.count_cons_self]
      omega

/-- **The values are the characters** exactly on prompt streams, from any state where the enter key is
up. -/
theorem returned_eq_typed : Shifts s down → Turns down es → down 0x1c = false →
    (returned s es = typed down es ∧ Own s es ↔ Prompt es) := by
  induction es using stream_induction generalizing s down with
  | nil => exact fun _ _ _ => iff_of_true ⟨rfl, own_nil⟩ prompt_nil
  | other e es h ih =>
      intro hs hturns hdown
      have hdown' : Function.update down e.code e.make 0x1c = false := by
        rwa [Function.update_of_ne (Ne.symm h)]
      have hrest := ih hs.press hturns.2 hdown'
      rw [prompt_other h, ← hrest, (run_other h).1, (run_other h).2, typed, nonzero_keyValue hs h]
      by_cases hup : e.make = false
      · -- a character that nothing stands for is one too many
        have hmore : ∀ v, v ≠ 0x0a → ¬ ([v] ++ returned (s.press e.code e.make) es
            = typed (Function.update down e.code e.make) es ∧ Own (s.press e.code e.make) es) := by
          rintro v hv ⟨heq, hown⟩
          have hle := count_typed_le hv hs.press hown
          rw [← heq, List.count_append, List.count_singleton_self] at hle
          omega
        rw [chars_up hup, List.nil_append]
        by_cases h1 : e.code = 0x0e
        · rw [if_pos ⟨hup, h1⟩]
          exact iff_of_false (hmore _ (by decide)) (fun h' => (h'.1 hup).1 h1)
        by_cases h2 : e.code = 0x0f
        · rw [if_neg (fun h' => h1 h'.2), if_pos ⟨hup, h2⟩]
          exact iff_of_false (hmore _ (by decide)) (fun h' => (h'.1 hup).2 h2)
        · rw [if_neg (fun h' => h1 h'.2), if_neg (fun h' => h2 h'.2), List.nil_append]
          exact (and_iff_right fun _ => ⟨h1, h2⟩).symm
      · rw [if_neg (fun h' => hup h'.1), if_neg (fun h' => hup h'.1), List.append_cancel_left_eq]
        exact (and_iff_right fun h' => absurd h' hup).symm
  | last e h =>
      intro hs hturns hdown
      have hmake : e.make = true := by
        by_contra hf
        rw [Bool.not_eq_true] at hf
        have hd := hturns.1 hf
        rw [h, hdown] at hd
        exact absurd hd (by decide)
      refine iff_of_false (fun hboth => ?_) (fun hp => ?_)
      · have heq := hboth.1
        rw [(run_last h).1, typed, typed, chars_enter h, if_pos hmake] at heq
        exact absurd heq (by simp)
      · obtain ⟨x, hx, -⟩ := (prompt_cons.mp hp).2.1 h hmake
        exact absurd hx (by simp)
  | pair e e' es h ih =>
      intro hs hturns hdown
      have hmake : e.make = true := by
        by_contra hf
        rw [Bool.not_eq_true] at hf
        have hd := hturns.1 hf
        rw [h, hdown] at hd
        exact absurd hd (by decide)
      rw [prompt_pair h hmake, (run_pair h).1, (run_pair h).2, typed, typed, chars_enter h, if_pos hmake]
      by_cases h' : e'.code = 0x1c
      · by_cases hup : e'.make = false
        · have hrest := ih ((hs.enter h).enter h') hturns.2.2 (by rw [h', hup, Function.update_self])
          rw [chars_up hup, List.nil_append, List.singleton_append, List.cons.injEq, eq_self_iff_true,
            true_and, ← hrest]
          exact ⟨fun hb => ⟨⟨h', hup⟩, hb.1, hb.2.2⟩, fun hb => ⟨hb.2.1, h', hb.2.2⟩⟩
        · -- the enter key goes down twice, and one character is missing
          refine iff_of_false (fun hb => ?_) (fun hp => hup hp.1.2)
          have hle := count_enter_le ((hs.enter h).enter h') hturns.2.2 hb.2.2
          have heq := hb.1
          rw [Bool.not_eq_false] at hup
          rw [chars_enter h', if_pos hup, List.singleton_append, List.cons.injEq] at heq
          rw [heq.2, List.singleton_append, List.count_cons_self] at hle
          omega
      · exact iff_of_false (fun hb => h' hb.2.1) (fun hp => h' hp.1.1)

end

/-- **When one character is returned for each key.** On a stream of keys with one code the nonzero values
are the characters of the keys that go down, and no call reads the codes of two keys, exactly if the enter
key always comes up before anything else happens and neither the backspace key nor the tab key comes up. -/
theorem typed_exactly {es : List PlainEvent} (h : Turns (fun _ => false) es) :
    returned keyFlagsInit es = typed (fun _ => false) es ∧ Own keyFlagsInit es ↔ Prompt es :=
  returned_eq_typed ⟨rfl, rfl⟩ h rfl

/-- The enter key goes down and comes up, and the key "a" goes down. -/
def enterThenA : List PlainEvent :=
  [⟨0x1c, true, by decide⟩, ⟨0x1c, false, by decide⟩, ⟨0x1e, true, by decide⟩]

theorem typed_exactly_enter :
    returned keyFlagsInit enterThenA = typed (fun _ => false) enterThenA ∧ Own keyFlagsInit enterThenA := by
  have hturns : Turns (fun _ => false) enterThenA := ⟨by decide, by decide, by decide, trivial⟩
  refine (typed_exactly hturns).mpr ?_
  unfold enterThenA
  rw [prompt_cons, prompt_cons, prompt_cons]
  refine ⟨by decide, fun _ _ => ⟨_, rfl, rfl, rfl⟩, by decide, by decide, by decide, by decide, ?_⟩
  exact ⟨fun e he => absurd he List.not_mem_nil,
    fun e rest h => absurd (List.suffix_nil.mp h) (List.cons_ne_nil e rest)⟩

/-- The key "a" goes down while the enter key is held: the enter key is returned twice, "a" not at all. -/
theorem enter_takes_a :
    returned keyFlagsInit [⟨0x1c, true, by decide⟩, ⟨0x1e, true, by decide⟩, ⟨0x1c, false, by decide⟩,
        ⟨0x1e, false, by decide⟩] = [0x0a, 0x0a] ∧
      typed (fun _ => false) [⟨0x1c, true, by decide⟩, ⟨0x1e, true, by decide⟩, ⟨0x1c, false, by decide⟩,
        ⟨0x1e, false, by decide⟩] = [0x0a, 0x61] := by
  decide

end Talios
