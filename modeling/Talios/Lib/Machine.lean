import Mathlib.Tactic

set_option autoImplicit false

/-! # Registers and a stack

A machine with registers `R` of 64 bits, a stack pointer, and memory given by the quadword at each
address. `WordsAt mem a ws` says that the words `ws` stand one behind the other from `a` on; the stack
holds what has been pushed, the last word first. Registers that are pushed and popped again in the
other order have their values back, and the memory above the stack pointer is never written.
-/

namespace Machine

abbrev Word := BitVec 64

/-- The words that stand from an address on. -/
def WordsAt (mem : Word → Word) : Word → List Word → Prop
  | _, [] => True
  | a, w :: ws => mem a = w ∧ WordsAt mem (a + 8) ws

section

variable {mem : Word → Word} {a b v : Word} {ws vs : List Word}

theorem wordsAt_append : WordsAt mem a (vs ++ ws) ↔
    WordsAt mem a vs ∧ WordsAt mem (a + 8 * BitVec.ofNat 64 vs.length) ws := by
  induction vs generalizing a with
  | nil => simp [WordsAt]
  | cons v vs ih =>
      have hadd : a + 8 * BitVec.ofNat 64 (v :: vs).length
          = a + 8 + 8 * BitVec.ofNat 64 vs.length := by
        rw [List.length_cons]
        bv_omega
      rw [List.cons_append, WordsAt, ih, hadd, WordsAt, and_assoc]

/-- Each word by its place. -/
theorem wordsAt_iff : WordsAt mem a ws ↔
    ∀ (i : Nat) (hi : i < ws.length), mem (a + 8 * BitVec.ofNat 64 i) = ws[i] := by
  induction ws generalizing a with
  | nil => simp [WordsAt]
  | cons w ws ih =>
      have hadd : ∀ i : Nat, a + 8 + 8 * BitVec.ofNat 64 i = a + 8 * BitVec.ofNat 64 (i + 1) := by
        intro i
        bv_omega
      rw [WordsAt, ih]
      constructor
      · rintro ⟨hw, hws⟩ i hi
        cases i with
        | zero => simpa using hw
        | succ i =>
            rw [← hadd, hws i (by simpa using hi)]
            rfl
      · intro h
        have hw : mem a = w :=
          calc mem a = mem (a + 8 * BitVec.ofNat 64 0) := by simp
            _ = w := h 0 (by simp)
        refine ⟨hw, fun i hi => ?_⟩
        rw [hadd, h (i + 1) (by simpa using hi)]
        rfl

/-- A single word of them. -/
theorem WordsAt.get (h : WordsAt mem a ws) {i : Nat} (hi : i < ws.length) :
    mem (a + 8 * BitVec.ofNat 64 i) = ws[i] := wordsAt_iff.mp h i hi

/-- Another memory that agrees at these addresses. -/
theorem WordsAt.congr {mem' : Word → Word} (h : WordsAt mem a ws)
    (he : ∀ i < ws.length, mem' (a + 8 * BitVec.ofNat 64 i) = mem (a + 8 * BitVec.ofNat 64 i)) :
    WordsAt mem' a ws :=
  wordsAt_iff.mpr (fun i hi => (he i hi).trans (h.get hi))

/-- A store to one of the words. -/
theorem WordsAt.set (h : WordsAt mem a ws) (hlen : ws.length ≤ 2 ^ 61) {i : Nat} (hi : i < ws.length) :
    WordsAt (Function.update mem (a + 8 * BitVec.ofNat 64 i) v) a (ws.set i v) := by
  refine wordsAt_iff.mpr (fun j hj => ?_)
  rw [List.length_set] at hj
  by_cases hij : i = j
  · subst hij
    rw [Function.update_self, List.getElem_set_self]
  · have hne : a + 8 * BitVec.ofNat 64 j ≠ a + 8 * BitVec.ofNat 64 i := by bv_omega
    rw [Function.update_of_ne hne, List.getElem_set_ne hij, h.get hj]

/-- A store below the words. -/
theorem WordsAt.update_below (h : WordsAt mem a ws) (hlen : ws.length < 2 ^ 61) :
    WordsAt (Function.update mem (a - 8) v) a ws := by
  refine h.congr (fun i hi => ?_)
  have hne : a + 8 * BitVec.ofNat 64 i ≠ a - 8 := by bv_omega
  rw [Function.update_of_ne hne]

end

/-- Memory that differs in no word but the `n` words below an address. -/
def WritesBelow (a : Word) (n : Nat) (mem mem' : Word → Word) : Prop :=
  ∀ b, (∀ i < n, b ≠ a - 8 * BitVec.ofNat 64 (i + 1)) → mem' b = mem b

theorem WritesBelow.refl (a : Word) (n : Nat) (mem : Word → Word) : WritesBelow a n mem mem :=
  fun _ _ => rfl

theorem WritesBelow.trans {a : Word} {m n : Nat} {mem mem' mem'' : Word → Word}
    (h : WritesBelow a m mem mem') (h' : WritesBelow (a - 8 * BitVec.ofNat 64 m) n mem' mem'') :
    WritesBelow a (m + n) mem mem'' := by
  intro b hb
  have h2 : mem'' b = mem' b := by
    refine h' b (fun i hi => ?_)
    have hadd : a - 8 * BitVec.ofNat 64 m - 8 * BitVec.ofNat 64 (i + 1)
        = a - 8 * BitVec.ofNat 64 (m + i + 1) := by
      bv_omega
    rw [hadd]
    exact hb (m + i) (by omega)
  rw [h2]
  exact h b (fun i hi => hb i (by omega))

/-- Words elsewhere stay. -/
theorem WritesBelow.holds {a b : Word} {n : Nat} {mem mem' : Word → Word} {ws : List Word}
    (h : WritesBelow a n mem mem') (hs : WordsAt mem b ws)
    (hapart : ∀ i < n, ∀ j < ws.length,
      b + 8 * BitVec.ofNat 64 j ≠ a - 8 * BitVec.ofNat 64 (i + 1)) : WordsAt mem' b ws :=
  hs.congr (fun j hj => h _ (fun i hi => hapart i hi j hj))

/-- The registers, the stack pointer and the memory. -/
structure State (R : Type) where
  reg : R → Word
  rsp : Word
  mem : Word → Word

namespace State

variable {R : Type}

def push (s : State R) (v : Word) : State R :=
  { s with rsp := s.rsp - 8, mem := Function.update s.mem (s.rsp - 8) v }

/-- The words on the stack. -/
def Stack (s : State R) (ws : List Word) : Prop := WordsAt s.mem s.rsp ws

theorem Stack.push {s : State R} {ws : List Word} (h : s.Stack ws) (hlen : ws.length < 2 ^ 61)
    (v : Word) : (s.push v).Stack (v :: ws) := by
  constructor
  · exact Function.update_self (s.rsp - 8) v s.mem
  · have hrsp : (s.push v).rsp + 8 = s.rsp := BitVec.sub_add_cancel s.rsp 8
    rw [hrsp]
    exact WordsAt.update_below h hlen

/-- Words that are pushed one after the other. -/
def pushList (s : State R) (vs : List Word) : State R := vs.foldl push s

@[simp] theorem pushList_reg (s : State R) (vs : List Word) : (s.pushList vs).reg = s.reg := by
  induction vs generalizing s with
  | nil => rfl
  | cons v vs ih => exact ih (s.push v)

theorem pushList_rsp (s : State R) (vs : List Word) :
    (s.pushList vs).rsp = s.rsp - 8 * BitVec.ofNat 64 vs.length := by
  induction vs generalizing s with
  | nil => simp [pushList]
  | cons v vs ih =>
      rw [pushList, List.foldl_cons, ← pushList, ih, push, List.length_cons]
      bv_omega

/-- Nothing but the words below the stack pointer is written. -/
theorem pushList_writesBelow (s : State R) (vs : List Word) :
    WritesBelow s.rsp vs.length s.mem (s.pushList vs).mem := by
  induction vs generalizing s with
  | nil => exact WritesBelow.refl _ _ _
  | cons v vs ih =>
      have hpush : WritesBelow s.rsp 1 s.mem (s.push v).mem := by
        intro b hb
        have hne : b ≠ s.rsp - 8 := hb 0 Nat.one_pos
        exact Function.update_of_ne hne v s.mem
      rw [List.length_cons, Nat.add_comm]
      exact hpush.trans (ih (s.push v))

/-- What has been pushed lies on top, the last word first. -/
theorem Stack.pushList {s : State R} {ws : List Word} (h : s.Stack ws) (vs : List Word)
    (hlen : vs.length + ws.length ≤ 2 ^ 61) : (s.pushList vs).Stack (vs.reverse ++ ws) := by
  induction vs generalizing s ws with
  | nil => exact h
  | cons v vs ih =>
      rw [List.length_cons] at hlen
      have hpush := ih (h.push (by omega) v) (by rw [List.length_cons]; omega)
      rw [List.reverse_cons, List.append_assoc]
      exact hpush

def pushAll (s : State R) (rs : List R) : State R := s.pushList (rs.map s.reg)

variable [DecidableEq R]

def pop (s : State R) (r : R) : State R :=
  { s with reg := Function.update s.reg r (s.mem s.rsp), rsp := s.rsp + 8 }

def popAll (s : State R) (rs : List R) : State R := rs.foldl pop s

@[simp] theorem popAll_mem (s : State R) (rs : List R) : (s.popAll rs).mem = s.mem := by
  induction rs generalizing s with
  | nil => rfl
  | cons r rs ih => exact ih (s.pop r)

/-- Each register gets the word that stands for it. -/
theorem Stack.popAll_reg {s : State R} {f : R → Word} {ws : List Word} {rs : List R}
    (h : s.Stack (rs.map f ++ ws)) :
    (s.popAll rs).reg = fun r => if r ∈ rs then f r else s.reg r := by
  induction rs generalizing s with
  | nil => simp [popAll]
  | cons r rs ih =>
      have hrest : (s.pop r).Stack (rs.map f ++ ws) := h.2
      have hreg := ih hrest
      funext q
      rw [popAll, List.foldl_cons, ← popAll, hreg]
      have htop : s.mem s.rsp = f r := h.1
      by_cases hq : q ∈ rs
      · simp [hq]
      · by_cases hqr : q = r
        · subst hqr
          simp [hq, pop, htop]
        · simp [hq, hqr, pop]

theorem popAll_rsp (s : State R) (rs : List R) :
    (s.popAll rs).rsp = s.rsp + 8 * BitVec.ofNat 64 rs.length := by
  induction rs generalizing s with
  | nil => simp [popAll]
  | cons r rs ih =>
      rw [popAll, List.foldl_cons, ← popAll, ih, pop, List.length_cons]
      bv_omega

/-- What is left on the stack. -/
theorem Stack.popAll {s : State R} {vs ws : List Word} {rs : List R} (h : s.Stack (vs ++ ws))
    (hlen : vs.length = rs.length) : (s.popAll rs).Stack ws := by
  have hws := (wordsAt_append.mp h).2
  rw [Stack, popAll_mem, popAll_rsp, ← hlen]
  exact hws

end State

end Machine
