import Talios.Lib.Bytes

set_option autoImplicit false

/-! # Strings of the user library

The functions of `string.c`. A pointer is the memory from there on, so that two strings that do not meet
are two buffers. `HasString buf s` says that the string `s` is at a pointer; each function has a lemma on
strings.
-/

namespace Talios

open Bytes

namespace Strings

/-! ## `string.c` -/

/-- `while(p(buf[j])) j++`; none where the rounds have run out. -/
def seek (p : UInt8 → Bool) (buf : Buffer) : Nat → Nat → Option Nat
  | 0, _ => none
  | fuel + 1, j => if p (buf j) then seek p buf fuel (j + 1) else some j

/-- `strlen`. -/
def strlen (fuel : Nat) (str : Buffer) : Option Nat := seek (· != 0) str fuel 0

/-- A `char` as an `int`. -/
def charValue (c : UInt8) : Int := (c.toNat : Int).bmod 256

/-- The loop of `strcmp`, at the character with index `i`. -/
def strcmpLoop (str1 str2 : Buffer) : Nat → Nat → Option Int
  | 0, _ => none
  | fuel + 1, i =>
      if str1 i ≠ 0 ∧ str2 i ≠ 0 ∧ str1 i = str2 i then strcmpLoop str1 str2 fuel (i + 1)
      else some (charValue (str1 i) - charValue (str2 i))

/-- `strcmp`. -/
def strcmp (fuel : Nat) (str1 str2 : Buffer) : Option Int := strcmpLoop str1 str2 fuel 0

/-- The loop of `strcpy`, at the character with index `i`. -/
def strcpyLoop (src : Buffer) : Nat → Nat → Buffer → Option Buffer
  | 0, _, _ => none
  | fuel + 1, i, dst =>
      if src i ≠ 0 then strcpyLoop src fuel (i + 1) (Function.update dst i (src i))
      else some (Function.update dst i 0)

/-- `strcpy`: what `dst` holds afterwards. -/
def strcpy (fuel : Nat) (src dst : Buffer) : Option Buffer := strcpyLoop src fuel 0 dst

/-- The loop of `strncpy` to the pointer `dst + t`, at the character with index `i` and with `n - i` rounds
left. There is no zero where they run out. -/
def strncpyLoop (src : Buffer) (t : Nat) : Nat → Nat → Buffer → Buffer
  | 0, _, dst => dst
  | n + 1, i, dst =>
      if src i ≠ 0 then strncpyLoop src t n (i + 1) (Function.update dst (t + i) (src i))
      else Function.update dst (t + i) 0

/-- `strncat`. -/
def strncat (fuel : Nat) (tStr sStr : Buffer) (n : Nat) : Option Buffer :=
  (strlen fuel tStr).map (fun t => strncpyLoop sStr t n 0 tStr)

/-! ## Strings in memory -/

/-- The string `s` is at the pointer. -/
structure HasString (buf : Buffer) (s : List UInt8) : Prop where
  bytes : ∀ i < s.length, buf i = s.getD i 0
  zero : buf s.length = 0
  nonzero : 0 ∉ s

/-- A literal of the source. -/
def literal (s : List UInt8) : Buffer := fun i => s.getD i 0

theorem hasString_literal {s : List UInt8} (h : 0 ∉ s) : HasString (literal s) s :=
  ⟨fun _ _ => rfl, List.getD_eq_default _ _ le_rfl, h⟩

theorem seek_eq {p : UInt8 → Bool} {buf : Buffer} {k : Nat} (hk : p (buf k) = false) :
    ∀ {fuel j : Nat}, (∀ i, j ≤ i → i < k → p (buf i) = true) → j ≤ k → k < j + fuel →
      seek p buf fuel j = some k := by
  intro fuel
  induction fuel with
  | zero => intro j _ h1 h2; omega
  | succ fuel ih =>
      intro j hskip hj hf
      rw [seek]
      by_cases hjk : j = k
      · rw [hjk, hk, if_neg (by simp)]
      · rw [hskip j le_rfl (by omega), if_pos rfl]
        exact ih (fun i h1 h2 => hskip i (by omega) h2) (by omega) (by omega)

/-- Where the loop has come to an end: at the first character of the other kind. -/
theorem of_seek {p : UInt8 → Bool} {buf : Buffer} {k : Nat} : ∀ {fuel j : Nat},
    seek p buf fuel j = some k → j ≤ k ∧ p (buf k) = false ∧ ∀ i, j ≤ i → i < k → p (buf i) = true
  | 0, _, h => absurd h (by simp [seek])
  | fuel + 1, j, h => by
      rw [seek] at h
      by_cases hj : p (buf j) = true
      · rw [if_pos hj] at h
        obtain ⟨hle, hk, hskip⟩ := of_seek h
        refine ⟨by omega, hk, fun i h1 h2 => ?_⟩
        by_cases hij : i = j
        · rw [hij, hj]
        · exact hskip i (by omega) h2
      · rw [if_neg hj] at h
        obtain rfl := Option.some.inj h
        exact ⟨le_rfl, by simpa using hj, fun i h1 h2 => absurd h1 (by omega)⟩

section

variable {buf src dst : Buffer} {s t : List UInt8} {fuel : Nat}

theorem HasString.ne_zero (h : HasString buf s) {i : Nat} (hi : i < s.length) : buf i ≠ 0 := by
  rw [h.bytes i hi, List.getD_eq_getElem _ _ hi]
  exact fun he => h.nonzero (he ▸ List.getElem_mem hi)

/-- There is one string at a pointer. -/
theorem HasString.unique (hs : HasString buf s) (ht : HasString buf t) : s = t := by
  have hlen : ∀ {a b : List UInt8}, HasString buf a → HasString buf b → a.length ≤ b.length := by
    intro a b ha hb
    by_contra hlt
    exact ha.ne_zero (by omega) hb.zero
  have heq := le_antisymm (hlen hs ht) (hlen ht hs)
  refine List.ext_getElem heq (fun i h1 h2 => ?_)
  have h := (hs.bytes i h1).symm.trans (ht.bytes i h2)
  rwa [List.getD_eq_getElem _ _ h1, List.getD_eq_getElem _ _ h2] at h

theorem strlen_eq (h : HasString buf s) (hf : s.length < fuel) : strlen fuel buf = some s.length := by
  refine seek_eq ?_ (fun i _ hi => ?_) (Nat.zero_le _) (by omega)
  · rw [h.zero]
    rfl
  · simpa using h.ne_zero hi

theorem charValue_injective : Function.Injective charValue := by
  intro a b h
  have ha := a.toNat_lt
  have hb := b.toNat_lt
  apply UInt8.toNat_inj.mp
  unfold charValue Int.bmod at h
  dsimp only at h
  split at h <;> split at h <;> omega

/-- `strcmp` comes to the first difference, and returns 0 exactly if there is none. -/
theorem strcmp_eq (hs : HasString src s) (ht : HasString dst t) (hf : s.length < fuel) :
    ∃ v, strcmp fuel src dst = some v ∧ (v = 0 ↔ s = t) := by
  have hloop : ∀ (fuel i : Nat), i ≤ s.length → s.length < i + fuel → i ≤ t.length →
      (∀ j < i, src j = dst j) → ∃ v, strcmpLoop src dst fuel i = some v ∧ (v = 0 ↔ s = t) := by
    intro fuel
    induction fuel with
    | zero => intro i h1 h2; omega
    | succ fuel ih =>
        intro i hi hf hit hsame
        rw [strcmpLoop]
        by_cases hgo : src i ≠ 0 ∧ dst i ≠ 0 ∧ src i = dst i
        · rw [if_pos hgo]
          have his : i ≠ s.length := fun he => hgo.1 (he ▸ hs.zero)
          have hit' : i ≠ t.length := fun he => hgo.2.1 (he ▸ ht.zero)
          refine ih (i + 1) (by omega) (by omega) (by omega) (fun j hj => ?_)
          by_cases hji : j = i
          · rw [hji]
            exact hgo.2.2
          · exact hsame j (by omega)
        · rw [if_neg hgo]
          refine ⟨_, rfl, ?_⟩
          rw [sub_eq_zero, charValue_injective.eq_iff]
          constructor
          · -- both strings end here
            intro heq
            have hzero : src i = 0 := by
              by_contra hne
              exact hgo ⟨hne, heq ▸ hne, heq⟩
            have his : i = s.length := by
              by_contra hne
              exact hs.ne_zero (by omega) hzero
            have hit' : i = t.length := by
              by_contra hne
              exact ht.ne_zero (by omega) (heq ▸ hzero)
            have hst : HasString src t := by
              refine ⟨fun j hj => ?_, by rw [← hit', hzero], ht.nonzero⟩
              rw [hsame j (by omega)]
              exact ht.bytes j hj
            exact hs.unique hst
          · rintro rfl
            by_cases his : i = s.length
            · rw [his, hs.zero, ht.zero]
            · rw [hs.bytes i (by omega), ht.bytes i (by omega)]
  exact hloop fuel 0 (Nat.zero_le _) (by omega) (Nat.zero_le _) (fun j hj => absurd hj (Nat.not_lt_zero j))

/-- What an update at the front of a range and the range behind it make. -/
theorem overlay_update (dst : Buffer) (a n : Nat) (g : Buffer) :
    overlay (Function.update dst a (g 0)) (a + 1) n (fun k => g (k + 1)) = overlay dst a (n + 1) g := by
  funext x
  by_cases hx : a + 1 ≤ x ∧ x < a + 1 + n
  · have hplace : x - (a + 1) + 1 = x - a := by omega
    rw [overlay_of_mem hx.1 hx.2, overlay_of_mem (by omega) (by omega), hplace]
  · rw [overlay_of_not_mem hx]
    by_cases hxa : x = a
    · rw [hxa, Function.update_self, overlay_of_mem le_rfl (by omega), Nat.sub_self]
    · rw [Function.update_of_ne hxa, overlay_of_not_mem (by omega)]

/-- The string and its zero go to `dst + t`, if there is room for them. -/
theorem strncpyLoop_eq (h : HasString src s) (t : Nat) : ∀ (n i : Nat) (dst : Buffer), i ≤ s.length →
    s.length < i + n → strncpyLoop src t n i dst
      = overlay dst (t + i) (s.length - i + 1) (fun k => src (i + k))
  | 0, i, _, h1, h2 => absurd h1 (by omega)
  | n + 1, i, dst, h1, h2 => by
      rw [strncpyLoop]
      by_cases hi : i = s.length
      · rw [hi, h.zero, if_neg (by simp), Nat.sub_self]
        have hone := overlay_update dst (t + s.length) 0 (fun k => src (s.length + k))
        rw [← hone, Nat.add_zero, h.zero]
        exact funext fun x => (overlay_of_not_mem (by omega)).symm
      · have hlen : s.length - i = s.length - (i + 1) + 1 := by omega
        rw [if_pos (h.ne_zero (by omega)), strncpyLoop_eq h t n (i + 1) _ (by omega) (by omega), hlen,
          ← overlay_update dst (t + i) _ (fun k => src (i + k))]
        congr 1
        funext k
        congr 1
        omega

/-- `strcpy` is `strncpy` with enough room. -/
theorem strcpyLoop_eq (h : HasString src s) : ∀ (fuel i : Nat) (dst : Buffer), i ≤ s.length →
    s.length < i + fuel → strcpyLoop src fuel i dst = some (strncpyLoop src 0 fuel i dst)
  | 0, i, _, h1, h2 => absurd h1 (by omega)
  | fuel + 1, i, dst, h1, h2 => by
      rw [strcpyLoop, strncpyLoop, Nat.zero_add]
      by_cases hi : src i ≠ 0
      · have his : i ≠ s.length := fun he => hi (he ▸ h.zero)
        rw [if_pos hi, if_pos hi, strcpyLoop_eq h fuel (i + 1) _ (by omega) (by omega)]
      · rw [if_neg hi, if_neg hi]

theorem strcpy_eq (h : HasString src s) (hf : s.length < fuel) :
    strcpy fuel src dst = some (overlay dst 0 (s.length + 1) src) := by
  rw [strcpy, strcpyLoop_eq h fuel 0 dst (Nat.zero_le _) (by omega),
    strncpyLoop_eq h 0 fuel 0 dst (Nat.zero_le _) (by omega)]
  simp

theorem strncat_eq {n : Nat} (ht : HasString dst t) (hs : HasString src s) (hf : t.length < fuel)
    (hn : s.length < n) : strncat fuel dst src n = some (overlay dst t.length (s.length + 1) src) := by
  rw [strncat, strlen_eq ht hf, Option.map_some, strncpyLoop_eq hs t.length n 0 dst (Nat.zero_le _) (by omega)]
  simp

/-- A string that is written behind the characters `t`. -/
theorem hasString_append (ht : ∀ i < t.length, dst i = t.getD i 0) (h0 : 0 ∉ t) (hs : HasString src s) :
    HasString (overlay dst t.length (s.length + 1) src) (t ++ s) := by
  refine ⟨fun i hi => ?_, ?_, fun hm => ?_⟩
  · rw [List.length_append] at hi
    by_cases hit : i < t.length
    · rw [overlay_of_lt hit, ht i hit, List.getD_append _ _ _ _ hit]
    · rw [overlay_of_mem (by omega) (by omega), hs.bytes _ (by omega),
        List.getD_append_right _ _ _ _ (by omega)]
  · rw [List.length_append, overlay_of_mem (by omega) (by omega), Nat.add_sub_cancel_left, hs.zero]
  · exact (List.mem_append.mp hm).elim h0 hs.nonzero

theorem hasString_copy (hs : HasString src s) : HasString (overlay dst 0 (s.length + 1) src) s :=
  @hasString_append src dst s [] (fun i hi => absurd hi (Nat.not_lt_zero i)) List.not_mem_nil hs

/-- One more character, and a zero behind it. -/
theorem HasString.push (h : HasString buf s) {c : UInt8} (hc : c ≠ 0) :
    HasString (Function.update (Function.update buf s.length c) (s.length + 1) 0) (s ++ [c]) := by
  refine ⟨fun i hi => ?_, ?_, fun hm => ?_⟩
  · rw [List.length_append, List.length_singleton] at hi
    rw [Function.update_of_ne (by omega)]
    by_cases his : i = s.length
    · rw [his, Function.update_self, List.getD_append_right _ _ _ _ le_rfl, Nat.sub_self]
      rfl
    · rw [Function.update_of_ne his, h.bytes i (by omega), List.getD_append _ _ _ _ (by omega)]
  · rw [List.length_append, List.length_singleton, Function.update_self]
  · rcases List.mem_append.mp hm with hm | hm
    · exact h.nonzero hm
    · exact hc (List.mem_singleton.mp hm).symm

/-- A zero at the place of a character cuts the string there, and one behind the string changes nothing. -/
theorem HasString.cut (h : HasString buf s) (i : Nat) :
    HasString (Function.update buf i 0) (s.take i) := by
  refine ⟨fun j hj => ?_, ?_, fun hm => h.nonzero (List.mem_of_mem_take hm)⟩
  · rw [List.length_take] at hj
    rw [Function.update_of_ne (by omega), h.bytes j (by omega), List.getD_eq_getElem _ _ (by omega),
      List.getD_eq_getElem _ _ (by rw [List.length_take]; omega), List.getElem_take]
  · rw [List.length_take]
    by_cases hi : i ≤ s.length
    · rw [min_eq_left hi, Function.update_self]
    · rw [min_eq_right (by omega), Function.update_of_ne (by omega), h.zero]

/-- The string that a pointer points to. -/
theorem map_range_eq (h : HasString buf s) : (List.range s.length).map buf = s := by
  refine List.ext_getElem (by simp) (fun i h1 h2 => ?_)
  rw [List.getElem_map, List.getElem_range, h.bytes i h2, List.getD_eq_getElem _ _ h2]

end

end Strings

end Talios
