import Mathlib.Tactic

set_option autoImplicit false

/-! # Softirqs

`do_softirq` looks at the 64 bits of `softirq_status` from the lowest one on. A bit that is set is
cleared, and its action is run. Interrupts are on, and may set further bits while an action is run.

The mask `~(1 << i)` is an `int`. From bit 31 on it does not clear the bit `i` alone, and the pass
is right if and only if what that does is made up for (`do_softirq_handled`).
-/

namespace Talios

/-! ## The code -/

/-- `GetBits(num, pos, count)`. -/
def getBits64 (num : BitVec 64) (pos count : Nat) : BitVec 64 :=
  num >>> pos &&& (1#64 <<< count - 1#64)

/-- `~(1 << i)`, an `int` whose shift takes the count modulo 32, as an operand of 64 bits. -/
def clearMask (i : Nat) : BitVec 64 := (~~~(1#32 <<< (i % 32))).signExtend 64

/-- `add_softirq_status`. -/
def addSoftirqStatus (softirqStatus status : BitVec 64) : BitVec 64 := softirqStatus ||| status

/-- The body of the loop, of `softirq_status` and the actions run so far. Those bits of `raised i`
are set while the action of bit `i` is run. -/
def softirqStep (raised : Nat → BitVec 64) (s : BitVec 64 × List Nat) (i : Nat) :
    BitVec 64 × List Nat :=
  if getBits64 s.1 i 1 = 0 then s
  else (addSoftirqStatus (s.1 &&& clearMask i) (raised i), s.2 ++ [i])

/-- The first `k` turns of the loop. -/
def softirqTurns (raised : Nat → BitVec 64) (status : BitVec 64) (k : Nat) : BitVec 64 × List Nat :=
  (List.range k).foldl (softirqStep raised) (status, [])

/-- `do_softirq`: the status it leaves behind, and the actions it runs. -/
def doSoftirq (raised : Nat → BitVec 64) (status : BitVec 64) : BitVec 64 × List Nat :=
  softirqTurns raised status 64

/-! ## What a pass should do -/

/-- Each bit that is set when its turn comes is run once, in order, and the bits that have been set
and not been run since are those that remain. -/
structure SoftirqsHandled (raised : Nat → BitVec 64) (status : BitVec 64)
    (r : BitVec 64 × List Nat) : Prop where
  order : r.2.Pairwise (· < ·)
  run : ∀ b, b ∈ r.2 ↔
    b < 64 ∧ (status.getLsbD b = true ∨ ∃ i ∈ r.2, i < b ∧ (raised i).getLsbD b = true)
  remain : ∀ b, r.1.getLsbD b = true ↔
    status.getLsbD b = true ∧ b ∉ r.2 ∨
      ∃ i ∈ r.2, (raised i).getLsbD b = true ∧ ¬ (i < b ∧ b ∈ r.2)

/-- The bits that have been set when the turn of bit `k` comes. -/
def setBefore (raised : Nat → BitVec 64) (status : BitVec 64) : Nat → BitVec 64
  | 0 => status
  | k + 1 =>
      if (setBefore raised status k).getLsbD k = true then setBefore raised status k ||| raised k
      else setBefore raised status k

/-- Bit `b` is set when its turn comes. -/
def Due (raised : Nat → BitVec 64) (status : BitVec 64) (b : Nat) : Prop :=
  b < 64 ∧ (setBefore raised status b).getLsbD b = true

/-- Bit `b` is set while an action is run whose number is from `lo` on and below `hi`. -/
def RaisedIn (raised : Nat → BitVec 64) (status : BitVec 64) (lo hi b : Nat) : Prop :=
  ∃ i, lo ≤ i ∧ i < hi ∧ Due raised status i ∧ (raised i).getLsbD b = true

/-- What the masks from bit 31 on do is made up for. -/
structure MasksHarmless (raised : Nat → BitVec 64) (status : BitVec 64) : Prop where
  /-- Bit 31 clears all bits above it. They are set again before their turn. -/
  middle : Due raised status 31 → ∀ b, 31 < b → Due raised status b → RaisedIn raised status 31 b b
  /-- Bit 63 clears the bits from 31 on. What has been set of them is set again by its action. -/
  last : Due raised status 63 → ∀ b, 31 ≤ b → b < 63 → RaisedIn raised status b 63 b →
    (raised 63).getLsbD b = true
  /-- The other upper bits stay set, unless bit 63 clears them. -/
  stay : ¬ Due raised status 63 → ∀ b, 31 < b → b < 63 → Due raised status b →
    RaisedIn raised status b 63 b
  /-- They clear the bit 32 below them. If it has been set after its turn, then it is set again. -/
  lower : ∀ b, b < 31 → Due raised status (b + 32) → RaisedIn raised status b (b + 32) b →
    RaisedIn raised status (b + 32) 64 b

/-! ## One turn -/

theorem getBits64_eq_zero_iff (num : BitVec 64) (pos : Nat) :
    getBits64 num pos 1 = 0 ↔ num.getLsbD pos = false := by
  have hone : (1#64 <<< 1 - 1#64) = 1#64 := by decide
  rw [getBits64, hone]
  constructor
  · intro h
    -- bit 0 decides: all the others are masked out
    have hbit := congrArg (fun x => BitVec.getLsbD x 0) h
    simpa using hbit
  · intro h
    refine BitVec.eq_of_getLsbD_eq fun j hj => ?_
    rcases Nat.eq_zero_or_pos j with rfl | hpos
    · simp [h]
    · simp [BitVec.getLsbD_one, hpos.ne']

/-- The bits that the mask of bit `i` clears. -/
theorem getLsbD_clearMask {i c : Nat} (hc : c < 64) :
    (clearMask i).getLsbD c = false ↔ if i % 32 = 31 then 31 ≤ c else c = i % 32 := by
  have hshift {j : Nat} (hj : j < 32) : (1#32 <<< (i % 32)).getLsbD j = decide (j = i % 32) := by
    rw [BitVec.getLsbD_shiftLeft, BitVec.getLsbD_one]
    have := Nat.mod_lt i (by norm_num : 0 < 32)
    by_cases hlt : j < i % 32
    · simp [hlt, hlt.ne]
    · rw [Bool.eq_iff_iff]
      simp [hj, hlt]
      omega
  rw [clearMask, BitVec.getLsbD_signExtend, BitVec.msb_eq_getLsbD_last]
  -- The bits from 32 on are copies of bit 31 of the `int`, which is clear in one mask only.
  by_cases h : c < 32
  · simp only [hc, h, decide_true, Bool.true_and, if_true, BitVec.getLsbD_not, hshift h]
    split_ifs
    · simp
      omega
    · simp
  · simp only [hc, h, decide_true, Bool.true_and, if_false, BitVec.getLsbD_not,
      hshift (by norm_num : 32 - 1 < 32)]
    split_ifs <;> simp <;> omega

variable (raised : Nat → BitVec 64) (status : BitVec 64)

/-- The action of bit `b` is run. -/
def Taken (b : Nat) : Prop := (softirqTurns raised status b).1.getLsbD b = true

theorem softirqTurns_succ (k : Nat) :
    softirqTurns raised status (k + 1) = softirqStep raised (softirqTurns raised status k) k := by
  rw [softirqTurns, List.range_succ, List.foldl_append]
  rfl

theorem softirqTurns_not_taken {k : Nat} (h : ¬ Taken raised status k) :
    softirqTurns raised status (k + 1) = softirqTurns raised status k := by
  rw [softirqTurns_succ, softirqStep, if_pos]
  rwa [getBits64_eq_zero_iff, ← Bool.not_eq_true]

theorem softirqTurns_taken {k : Nat} (h : Taken raised status k) :
    softirqTurns raised status (k + 1) =
      ((softirqTurns raised status k).1 &&& clearMask k ||| raised k,
        (softirqTurns raised status k).2 ++ [k]) := by
  rw [softirqTurns_succ, softirqStep, if_neg]
  · rfl
  · rwa [getBits64_eq_zero_iff, ← Bool.not_eq_true, not_not]

/-! ## The pass -/

/-- The actions that are run. -/
theorem mem_softirqTurns {k b : Nat} :
    b ∈ (softirqTurns raised status k).2 ↔ b < k ∧ Taken raised status b := by
  induction k with
  | zero => simp [softirqTurns]
  | succ k ih =>
    by_cases h : Taken raised status k
    · rw [softirqTurns_taken raised status h, List.mem_append, ih, List.mem_singleton]
      constructor
      · rintro (⟨hlt, ht⟩ | rfl)
        · exact ⟨by omega, ht⟩
        · exact ⟨by omega, h⟩
      · rintro ⟨hlt, ht⟩
        rcases Nat.lt_succ_iff_lt_or_eq.mp hlt with hlt | rfl
        · exact .inl ⟨hlt, ht⟩
        · exact .inr rfl
    · rw [softirqTurns_not_taken raised status h, ih]
      refine and_congr_left fun ht => ⟨fun hlt => by omega, fun hlt => ?_⟩
      rcases Nat.lt_succ_iff_lt_or_eq.mp hlt with hlt | rfl
      · exact hlt
      · exact absurd ht h

/-- They are run in order. -/
theorem softirqTurns_sorted (k : Nat) : (softirqTurns raised status k).2.Pairwise (· < ·) := by
  induction k with
  | zero => exact List.Pairwise.nil
  | succ k ih =>
    by_cases h : Taken raised status k
    · rw [softirqTurns_taken raised status h, List.pairwise_append]
      refine ⟨ih, List.pairwise_singleton _ _, fun a ha b hb => ?_⟩
      rw [List.mem_singleton.mp hb]
      exact ((mem_softirqTurns raised status).mp ha).1
    · rwa [softirqTurns_not_taken raised status h]

/-- A bit is set after turn `k` if it was set at turn `m`, or an action between has set it, and no
mask after that has cleared it. -/
theorem softirqTurns_bit {m k c : Nat} (hmk : m ≤ k) :
    (softirqTurns raised status k).1.getLsbD c = true ↔
      ((softirqTurns raised status m).1.getLsbD c = true ∧
        ∀ i, m ≤ i → i < k → Taken raised status i → (clearMask i).getLsbD c = true) ∨
      ∃ j, m ≤ j ∧ j < k ∧ Taken raised status j ∧ (raised j).getLsbD c = true ∧
        ∀ i, j < i → i < k → Taken raised status i → (clearMask i).getLsbD c = true := by
  induction k, hmk using Nat.le_induction with
  | base =>
    constructor
    · intro h
      exact .inl ⟨h, fun i h1 h2 => absurd h2 (by omega)⟩
    · rintro (⟨h, -⟩ | ⟨j, h1, h2, -⟩)
      · exact h
      · omega
  | succ k hmk ih =>
    by_cases h : Taken raised status k
    · rw [softirqTurns_taken raised status h, BitVec.getLsbD_or, BitVec.getLsbD_and,
        Bool.or_eq_true, Bool.and_eq_true, ih]
      constructor
      · rintro (⟨⟨h0, hk⟩ | ⟨j, h1, h2, ht, hr, hk⟩, hmask⟩ | hr)
        · refine .inl ⟨h0, fun i h1 h2 hi => ?_⟩
          rcases Nat.lt_succ_iff_lt_or_eq.mp h2 with h2 | rfl
          · exact hk i h1 h2 hi
          · exact hmask
        · refine .inr ⟨j, h1, by omega, ht, hr, fun i h1 h2 hi => ?_⟩
          rcases Nat.lt_succ_iff_lt_or_eq.mp h2 with h2 | rfl
          · exact hk i h1 h2 hi
          · exact hmask
        · exact .inr ⟨k, hmk, by omega, h, hr, fun i h1 h2 => absurd h2 (by omega)⟩
      · rintro (⟨h0, hk⟩ | ⟨j, h1, h2, ht, hr, hk⟩)
        · exact .inl ⟨.inl ⟨h0, fun i h1 h2 => hk i h1 (by omega)⟩, hk k hmk (by omega) h⟩
        · rcases Nat.lt_succ_iff_lt_or_eq.mp h2 with h2 | rfl
          · exact .inl ⟨.inr ⟨j, h1, h2, ht, hr, fun i h1 h2 => hk i h1 (by omega)⟩,
              hk k h2 (by omega) h⟩
          · exact .inr hr
    -- a turn that is not taken changes no bit, and has no mask
    · rw [softirqTurns_not_taken raised status h, ih]
      have hlast {a : Nat} : (∀ i, a ≤ i → i < k → Taken raised status i →
          (clearMask i).getLsbD c = true) ↔
          ∀ i, a ≤ i → i < k + 1 → Taken raised status i → (clearMask i).getLsbD c = true := by
        refine ⟨fun hk i h1 h2 hi => ?_, fun hk i h1 h2 => hk i h1 (by omega)⟩
        rcases Nat.lt_succ_iff_lt_or_eq.mp h2 with h2 | rfl
        · exact hk i h1 h2 hi
        · exact absurd hi h
      refine or_congr (and_congr_right fun _ => hlast) (exists_congr fun j => ?_)
      constructor
      · rintro ⟨h1, h2, ht, hr, hk⟩
        exact ⟨h1, by omega, ht, hr, hlast.mp hk⟩
      · rintro ⟨h1, h2, ht, hr, hk⟩
        rcases Nat.lt_succ_iff_lt_or_eq.mp h2 with h2 | rfl
        · exact ⟨h1, h2, ht, hr, hlast.mpr hk⟩
        · exact absurd ht h

/-! ## What is due -/

/-- A bit has been set by the turn of bit `k` if it was set at first, or an action has set it. -/
theorem setBefore_bit {k c : Nat} :
    (setBefore raised status k).getLsbD c = true ↔
      status.getLsbD c = true ∨ ∃ i < k, (setBefore raised status i).getLsbD i = true ∧
        (raised i).getLsbD c = true := by
  induction k with
  | zero => simp [setBefore]
  | succ k ih =>
    rw [setBefore]
    split_ifs with h
    · rw [BitVec.getLsbD_or, Bool.or_eq_true, ih, or_assoc]
      refine or_congr_right ⟨?_, ?_⟩
      · rintro (⟨i, hi, hd, hr⟩ | hr)
        · exact ⟨i, by omega, hd, hr⟩
        · exact ⟨k, by omega, h, hr⟩
      · rintro ⟨i, hi, hd, hr⟩
        rcases Nat.lt_succ_iff_lt_or_eq.mp hi with hi | rfl
        · exact .inl ⟨i, hi, hd, hr⟩
        · exact .inr hr
    · rw [ih]
      refine or_congr_right (exists_congr fun i => ?_)
      refine and_congr_left fun hd => ⟨fun hi => by omega, fun hi => ?_⟩
      rcases Nat.lt_succ_iff_lt_or_eq.mp hi with hi | rfl
      · exact hi
      · exact absurd hd.1 h

theorem due_iff {b : Nat} (hb : b < 64) :
    Due raised status b ↔ status.getLsbD b = true ∨ RaisedIn raised status 0 b b := by
  rw [Due, setBefore_bit, and_iff_right hb]
  refine or_congr_right (exists_congr fun i => ⟨?_, ?_⟩)
  · rintro ⟨hi, hd, hr⟩
    exact ⟨Nat.zero_le i, hi, ⟨by omega, hd⟩, hr⟩
  · rintro ⟨-, hi, hd, hr⟩
    exact ⟨hi, hd.2, hr⟩

variable {raised status} in
/-- The masks of the bits below `b` spare `b`, but for that of bit 31. -/
theorem clearMask_spares {i b : Nat} (hi : i < b) (hb : b < 64) :
    (clearMask i).getLsbD b = true ↔ i ≠ 31 := by
  rw [← not_iff_not, Bool.not_eq_true, getLsbD_clearMask hb]
  split_ifs <;> omega

/-- A bit is run if it is set and bit 31 is not run, or an action has set it since. -/
theorem taken_iff {b : Nat} (hb : b < 64) :
    Taken raised status b ↔
      (status.getLsbD b = true ∧ (31 < b → ¬ Taken raised status 31)) ∨
      ∃ j < b, Taken raised status j ∧ (raised j).getLsbD b = true ∧
        (j < 31 → 31 < b → ¬ Taken raised status 31) := by
  -- only the mask of bit 31 reaches a bit above its own
  have hkeep {a : Nat} : (∀ i, a ≤ i → i < b → Taken raised status i →
      (clearMask i).getLsbD b = true) ↔ (a ≤ 31 → 31 < b → ¬ Taken raised status 31) := by
    constructor
    · intro h h1 h2 ht
      exact (clearMask_spares h2 hb).mp (h 31 h1 h2 ht) rfl
    · intro h i h1 h2 ht
      refine (clearMask_spares h2 hb).mpr ?_
      rintro rfl
      exact h h1 h2 ht
  rw [Taken, softirqTurns_bit raised status (Nat.zero_le b), hkeep]
  refine or_congr (by simp [softirqTurns]) (exists_congr fun j => ?_)
  have hj : (∀ i, j < i → i < b → Taken raised status i → (clearMask i).getLsbD b = true) ↔
      (j < 31 → 31 < b → ¬ Taken raised status 31) := hkeep (a := j + 1)
  rw [hj]
  exact and_iff_right (Nat.zero_le j)

/-- The actions that are run are those whose turn finds the bit set, if and only if what bit 31 has
cleared is set again. -/
theorem taken_iff_due :
    (∀ b < 64, Taken raised status b ↔ Due raised status b) ↔
      (Due raised status 31 → ∀ b, 31 < b → Due raised status b → RaisedIn raised status 31 b b) := by
  constructor
  · intro h h31 b hb hd
    have ht31 : Taken raised status 31 := (h 31 (by norm_num)).mpr h31
    rcases (taken_iff raised status hd.1).mp ((h b hd.1).mpr hd) with ⟨-, hn⟩ | ⟨j, hj, ht, hr, hn⟩
    · exact absurd ht31 (hn hb)
    -- what has set the bit came after the turn of bit 31
    · have h31j : 31 ≤ j := by
        by_contra hlt
        exact hn (by omega) hb ht31
      exact ⟨j, h31j, hj, (h j (by have := hd.1; omega)).mp ht, hr⟩
  · intro h b
    -- By strong induction: whether `b` is set depends on the actions below it.
    induction b using Nat.strong_induction_on with
    | _ b ih =>
      intro hb
      rw [taken_iff raised status hb]
      constructor
      · rintro (⟨hs, -⟩ | ⟨j, hj, ht, hr, -⟩)
        · exact (due_iff raised status hb).mpr (.inl hs)
        · exact (due_iff raised status hb).mpr
            (.inr ⟨j, Nat.zero_le j, hj, (ih j hj (by omega)).mp ht, hr⟩)
      · intro hd
        by_cases hcleared : 31 < b ∧ Due raised status 31
        · obtain ⟨j, hlo, hj, hdj, hr⟩ := h hcleared.2 b hcleared.1 hd
          exact .inr ⟨j, hj, (ih j hj (by omega)).mpr hdj, hr, fun hlt => absurd hlt (by omega)⟩
        · have hn : 31 < b → ¬ Taken raised status 31 := fun h31 ht =>
            hcleared ⟨h31, (ih 31 h31 (by norm_num)).mp ht⟩
          rcases (due_iff raised status hb).mp hd with hs | ⟨j, -, hj, hdj, hr⟩
          · exact .inl ⟨hs, hn⟩
          · exact .inr ⟨j, hj, (ih j hj (by omega)).mpr hdj, hr, fun _ => hn⟩

/-! ## What remains -/

variable {raised status} in
/-- When the actions that are run are those that are due, a bit is still set at the end if it was
due, or has been set after its turn, and has not been cleared since. -/
theorem doSoftirq_bit (hrun : ∀ b < 64, Taken raised status b ↔ Due raised status b) {b : Nat}
    (hb : b < 64) :
    (doSoftirq raised status).1.getLsbD b = true ↔
      (Due raised status b ∧
        ∀ i, b ≤ i → Due raised status i → (clearMask i).getLsbD b = true) ∨
      ∃ j, b ≤ j ∧ Due raised status j ∧ (raised j).getLsbD b = true ∧
        ∀ i, j < i → Due raised status i → (clearMask i).getLsbD b = true := by
  have hkeep {a : Nat} : (∀ i, a ≤ i → i < 64 → Taken raised status i →
      (clearMask i).getLsbD b = true) ↔
      ∀ i, a ≤ i → Due raised status i → (clearMask i).getLsbD b = true :=
    ⟨fun h i hi hd => h i hi hd.1 ((hrun i hd.1).mpr hd),
      fun h i hi h64 ht => h i hi ((hrun i h64).mp ht)⟩
  rw [doSoftirq, softirqTurns_bit raised status hb.le, hkeep]
  refine or_congr (and_congr_left fun _ => hrun b hb) (exists_congr fun j => ?_)
  refine and_congr_right fun _ => ?_
  rw [← and_assoc]
  refine and_congr ⟨fun h => (hrun j h.1).mp h.2, fun h => ⟨h.1, (hrun j h.1).mpr h⟩⟩ ?_
  exact and_congr_right fun _ => hkeep (a := j + 1)

variable {raised status} in
/-- A bit that has been set and not been run since is one that an action has set after its turn. -/
theorem remain_iff (hrun : ∀ b < 64, Taken raised status b ↔ Due raised status b) (b : Nat) :
    (status.getLsbD b = true ∧ b ∉ (doSoftirq raised status).2 ∨
      ∃ i ∈ (doSoftirq raised status).2, (raised i).getLsbD b = true ∧
        ¬ (i < b ∧ b ∈ (doSoftirq raised status).2)) ↔ RaisedIn raised status b 64 b := by
  have hmem {i : Nat} : i ∈ (doSoftirq raised status).2 ↔ Due raised status i := by
    rw [doSoftirq, mem_softirqTurns]
    exact ⟨fun h => (hrun i h.1).mp h.2, fun h => ⟨h.1, (hrun i h.1).mpr h⟩⟩
  simp only [hmem]
  constructor
  · rintro (⟨hs, hd⟩ | ⟨i, hi, hr, hd⟩)
    · have hb : b < 64 := BitVec.lt_of_getLsbD hs
      exact absurd ((due_iff raised status hb).mpr (.inl hs)) hd
    · have hb : b < 64 := BitVec.lt_of_getLsbD hr
      refine ⟨i, ?_, hi.1, hi, hr⟩
      by_contra hlt
      exact hd ⟨by omega, (due_iff raised status hb).mpr (.inr ⟨i, Nat.zero_le i, by omega, hi, hr⟩)⟩
  · rintro ⟨i, hlo, -, hi, hr⟩
    exact .inr ⟨i, hi, hr, fun h => absurd h.1 (by omega)⟩

variable {raised status} in
/-- The lower bits. The mask of the bit 32 above clears them once more. -/
theorem remain_lower (hrun : ∀ b < 64, Taken raised status b ↔ Due raised status b) {b : Nat}
    (hb : b < 31) :
    ((doSoftirq raised status).1.getLsbD b = true ↔ RaisedIn raised status b 64 b) ↔
      (Due raised status (b + 32) → RaisedIn raised status b (b + 32) b →
        RaisedIn raised status (b + 32) 64 b) := by
  -- of the turns from `b` on, its own and the one 32 above have masks that clear it
  have hmask {i : Nat} (hi : b ≤ i) (h64 : i < 64) :
      (clearMask i).getLsbD b = true ↔ i ≠ b ∧ i ≠ b + 32 := by
    rw [← not_iff_not, Bool.not_eq_true, getLsbD_clearMask (by omega)]
    split_ifs <;> omega
  have hbit : (doSoftirq raised status).1.getLsbD b = true ↔
      ∃ j, b ≤ j ∧ Due raised status j ∧ (raised j).getLsbD b = true ∧
        (j < b + 32 → ¬ Due raised status (b + 32)) := by
    rw [doSoftirq_bit hrun (by omega)]
    constructor
    · rintro (⟨hd, hk⟩ | ⟨j, hj, hd, hr, hk⟩)
      · exact absurd rfl ((hmask le_rfl hd.1).mp (hk b le_rfl hd)).1
      · exact ⟨j, hj, hd, hr, fun hlt h32 =>
          ((hmask (by omega) h32.1).mp (hk (b + 32) hlt h32)).2 rfl⟩
    · rintro ⟨j, hj, hd, hr, hk⟩
      refine .inr ⟨j, hj, hd, hr, fun i hi hdi => (hmask (by omega) hdi.1).mpr ⟨by omega, ?_⟩⟩
      rintro rfl
      exact hk hi hdi
  rw [hbit]
  constructor
  · intro h h32 ⟨i, hlo, hhi, hd, hr⟩
    obtain ⟨j, hj, hdj, hrj, hk⟩ := h.mpr ⟨i, hlo, hd.1, hd, hr⟩
    refine ⟨j, ?_, hdj.1, hdj, hrj⟩
    by_contra hlt
    exact hk (by omega) h32
  · intro h
    constructor
    · rintro ⟨j, hj, hd, hr, -⟩
      exact ⟨j, hj, hd.1, hd, hr⟩
    · rintro ⟨j, hj, h64, hd, hr⟩
      by_cases hcleared : j < b + 32 ∧ Due raised status (b + 32)
      · obtain ⟨i, hi, -, hdi, hri⟩ := h hcleared.2 ⟨j, hj, hcleared.1, hd, hr⟩
        exact ⟨i, by omega, hdi, hri, fun hlt => absurd hlt (by omega)⟩
      · exact ⟨j, hj, hd, hr, fun hlt h32 => hcleared ⟨hlt, h32⟩⟩

variable {raised status} in
/-- The upper bits. Their own masks do not clear them, but for that of bit 31, and the mask of
bit 63 clears them all. -/
theorem remain_upper (hrun : ∀ b < 64, Taken raised status b ↔ Due raised status b) {b : Nat}
    (h31 : 31 ≤ b) (h63 : b < 63) :
    ((doSoftirq raised status).1.getLsbD b = true ↔ RaisedIn raised status b 64 b) ↔
      (Due raised status 63 → RaisedIn raised status b 63 b → (raised 63).getLsbD b = true) ∧
      (¬ Due raised status 63 → 31 < b → Due raised status b → RaisedIn raised status b 63 b) := by
  -- here only the masks of bits 31 and 63 do, whose sign is extended
  have hmask {i : Nat} (hi : b ≤ i) (h64 : i < 64) :
      (clearMask i).getLsbD b = true ↔ i ≠ 31 ∧ i ≠ 63 := by
    rw [← not_iff_not, Bool.not_eq_true, getLsbD_clearMask (by omega)]
    split_ifs <;> omega
  have hbit : (doSoftirq raised status).1.getLsbD b = true ↔
      (31 < b ∧ Due raised status b ∧ ¬ Due raised status 63) ∨
      ∃ j, b ≤ j ∧ Due raised status j ∧ (raised j).getLsbD b = true ∧
        (j < 63 → ¬ Due raised status 63) := by
    rw [doSoftirq_bit hrun (by omega)]
    refine or_congr ⟨?_, ?_⟩ (exists_congr fun j => and_congr_right fun hj =>
      and_congr_right fun hd => and_congr_right fun _ => ⟨?_, ?_⟩)
    · rintro ⟨hd, hk⟩
      have hne := ((hmask le_rfl hd.1).mp (hk b le_rfl hd)).1
      exact ⟨by omega, hd, fun hd63 => ((hmask (by omega) hd63.1).mp (hk 63 (by omega) hd63)).2 rfl⟩
    · rintro ⟨hlt, hd, hd63⟩
      refine ⟨hd, fun i hi hdi => (hmask hi hdi.1).mpr ⟨by omega, ?_⟩⟩
      rintro rfl
      exact hd63 hdi
    · intro hk hlt hd63
      exact ((hmask (by omega) hd63.1).mp (hk 63 hlt hd63)).2 rfl
    · intro hk i hi hdi
      refine (hmask (by omega) hdi.1).mpr ⟨by omega, ?_⟩
      rintro rfl
      exact hk hi hdi
  rw [hbit]
  by_cases hd63 : Due raised status 63
  · simp only [hd63, not_true_eq_false, and_false, false_or, forall_const, IsEmpty.forall_iff,
      and_true, imp_false, not_lt]
    constructor
    · intro h ⟨i, hlo, hhi, hd, hr⟩
      obtain ⟨j, -, hdj, hrj, hj⟩ := h.mpr ⟨i, hlo, hd.1, hd, hr⟩
      obtain rfl : j = 63 := by
        have := hdj.1
        omega
      exact hrj
    · intro h
      constructor
      · rintro ⟨j, hj, hd, hr, -⟩
        exact ⟨j, hj, hd.1, hd, hr⟩
      · rintro ⟨j, hj, h64, hd, hr⟩
        by_cases hlt : j < 63
        · exact ⟨63, by omega, hd63, h ⟨j, hj, hlt, hd, hr⟩, le_rfl⟩
        · exact ⟨j, hj, hd, hr, by omega⟩
  · simp only [hd63, not_false_eq_true, and_true, IsEmpty.forall_iff, implies_true, true_and,
      forall_const]
    have hraised : (∃ j, b ≤ j ∧ Due raised status j ∧ (raised j).getLsbD b = true) ↔
        RaisedIn raised status b 63 b := by
      refine exists_congr fun j => and_congr_right fun hj => ⟨fun h => ⟨?_, h⟩, fun h => h.2⟩
      have hne : j ≠ 63 := by
        rintro rfl
        exact hd63 h.1
      have := h.1.1
      omega
    have hraised' : RaisedIn raised status b 64 b ↔ RaisedIn raised status b 63 b := by
      rw [← hraised]
      exact exists_congr fun j => and_congr_right fun hj =>
        ⟨fun h => h.2, fun h => ⟨h.1.1, h⟩⟩
    rw [hraised, hraised']
    constructor
    · intro h hlt hd
      exact h.mp (.inl ⟨hlt, hd⟩)
    · intro h
      exact ⟨fun h' => h'.elim (fun h' => h h'.1 h'.2) id, .inr⟩

variable {raised status} in
/-- Bit 63. -/
theorem remain_top (hrun : ∀ b < 64, Taken raised status b ↔ Due raised status b) :
    (doSoftirq raised status).1.getLsbD 63 = true ↔ RaisedIn raised status 63 64 63 := by
  have hmask : (clearMask 63).getLsbD 63 = false := (getLsbD_clearMask (by norm_num)).mpr (by norm_num)
  rw [doSoftirq_bit hrun (by norm_num)]
  constructor
  · rintro (⟨hd, hk⟩ | ⟨j, hj, hd, hr, -⟩)
    · exact absurd (hk 63 le_rfl hd) (by rw [hmask]; exact Bool.false_ne_true)
    · exact ⟨j, hj, hd.1, hd, hr⟩
  · rintro ⟨j, hj, h64, hd, hr⟩
    exact .inr ⟨j, hj, hd, hr, fun i hi hdi => absurd hdi.1 (by omega)⟩

/-! ## The whole pass -/

/-- The clause on what is run, in terms of single bits. -/
theorem run_iff :
    (∀ b, b ∈ (doSoftirq raised status).2 ↔ b < 64 ∧ (status.getLsbD b = true ∨
      ∃ i ∈ (doSoftirq raised status).2, i < b ∧ (raised i).getLsbD b = true)) ↔
      ∀ b < 64, Taken raised status b ↔ Due raised status b := by
  have hmem {i : Nat} : i ∈ (doSoftirq raised status).2 ↔ i < 64 ∧ Taken raised status i :=
    mem_softirqTurns raised status
  simp only [hmem]
  constructor
  · intro h b
    -- The clause speaks of the actions that are run, on both sides; below `b` they are those that are due.
    induction b using Nat.strong_induction_on with
    | _ b ih =>
      intro hb
      have hb' := h b
      rw [and_iff_right hb, and_iff_right hb] at hb'
      rw [hb', due_iff raised status hb]
      refine or_congr_right (exists_congr fun i => ⟨?_, ?_⟩)
      · rintro ⟨⟨h64, ht⟩, hi, hr⟩
        exact ⟨Nat.zero_le i, hi, (ih i hi h64).mp ht, hr⟩
      · rintro ⟨-, hi, hd, hr⟩
        exact ⟨⟨hd.1, (ih i hi hd.1).mpr hd⟩, hi, hr⟩
  · intro h b
    refine and_congr_right fun hb => ?_
    rw [h b hb, due_iff raised status hb]
    refine or_congr_right (exists_congr fun i => ⟨?_, ?_⟩)
    · rintro ⟨-, hi, hd, hr⟩
      exact ⟨⟨hd.1, (h i hd.1).mpr hd⟩, hi, hr⟩
    · rintro ⟨⟨h64, ht⟩, hi, hr⟩
      exact ⟨Nat.zero_le i, hi, (h i h64).mp ht, hr⟩

/-- `do_softirq` runs each softirq that is set when its turn comes once and in order, and leaves
those that have been set since, if and only if what the masks from bit 31 on do is made up for. -/
theorem do_softirq_handled :
    SoftirqsHandled raised status (doSoftirq raised status) ↔ MasksHarmless raised status := by
  -- there are no bits from 64 on
  have hout {b : Nat} (hb : 64 ≤ b) :
      (doSoftirq raised status).1.getLsbD b = true ↔ RaisedIn raised status b 64 b :=
    ⟨fun h => absurd (BitVec.lt_of_getLsbD h) (by omega), fun ⟨i, h1, h2, _⟩ => by omega⟩
  constructor
  · intro h
    have hrun := (run_iff raised status).mp h.run
    have hremain (b : Nat) := (h.remain b).trans (remain_iff hrun b)
    exact {
      middle := (taken_iff_due raised status).mp hrun
      last := fun h63 b h1 h2 => ((remain_upper hrun h1 h2).mp (hremain b)).1 h63
      stay := fun h63 b h1 h2 => ((remain_upper hrun h1.le h2).mp (hremain b)).2 h63 h1
      lower := fun b hb => (remain_lower hrun hb).mp (hremain b) }
  · intro h
    have hrun := (taken_iff_due raised status).mpr h.middle
    refine ⟨softirqTurns_sorted raised status 64, (run_iff raised status).mpr hrun, fun b => ?_⟩
    rw [remain_iff hrun b]
    rcases lt_or_ge b 31 with hlow | hup
    · exact (remain_lower hrun hlow).mpr (h.lower b hlow)
    · rcases lt_trichotomy b 63 with hlt | rfl | hgt
      · exact (remain_upper hrun hup hlt).mpr
          ⟨fun h63 => h.last h63 b hup hlt, fun h63 h31 => h.stay h63 b h31 hlt⟩
      · exact remain_top hrun
      · exact hout (by omega)

/-- Bits 31 and 32 together: the second one is lost. -/
theorem bit32_lost :
    doSoftirq (fun _ => 0) 0x180000000#64 = (0, [31]) ∧
      ¬ SoftirqsHandled (fun _ => 0) 0x180000000#64 (doSoftirq (fun _ => 0) 0x180000000#64) := by
  have hresult : doSoftirq (fun _ => 0) 0x180000000#64 = (0, [31]) := by decide +kernel
  refine ⟨hresult, fun h => ?_⟩
  have hrun := (h.run 32).mpr ⟨by norm_num, .inl (by decide)⟩
  rw [hresult] at hrun
  simp at hrun

/-- When no bit is set during the pass, a bit is due if it was set at first. -/
theorem due_quiet {b : Nat} : Due (fun _ => 0) status b ↔ status.getLsbD b = true := by
  constructor
  · intro h
    rcases (due_iff _ status h.1).mp h with hs | ⟨i, -, -, -, hr⟩
    · exact hs
    · simp at hr
  · intro h
    exact (due_iff _ status (BitVec.lt_of_getLsbD h)).mpr (.inl h)

/-- When no bit is set during the pass, it is right if no bit from 32 on is set, or bit 63 is set and
bit 31 is not. -/
theorem masksHarmless_quiet :
    MasksHarmless (fun _ => 0) status ↔
      (∀ b, 31 < b → status.getLsbD b = false) ∨
        status.getLsbD 63 = true ∧ status.getLsbD 31 = false := by
  have hnone {lo hi b : Nat} : ¬ RaisedIn (fun _ => 0) status lo hi b := by
    rintro ⟨i, -, -, -, hr⟩
    simp at hr
  constructor
  · rintro ⟨hmiddle, -, hstay, -⟩
    by_cases h63 : status.getLsbD 63 = true
    · refine .inr ⟨h63, ?_⟩
      by_contra h31
      have hd31 := (due_quiet status).mpr (Bool.not_eq_false _ ▸ h31)
      exact hnone (hmiddle hd31 63 (by norm_num) ((due_quiet status).mpr h63))
    · refine .inl fun b hb => ?_
      by_contra hset
      have hd := (due_quiet status).mpr (Bool.not_eq_false _ ▸ hset)
      have hne : b ≠ 63 := by
        rintro rfl
        exact h63 ((due_quiet status).mp hd)
      have h64 := hd.1
      exact hnone (hstay (fun h => h63 ((due_quiet status).mp h)) b hb (by omega) hd)
  · intro h
    refine ⟨fun h31 b hb hd => ?_, fun _ b _ _ hr => absurd hr hnone, fun h63 b hb _ hd => ?_,
      fun b _ _ hr => absurd hr hnone⟩
    · have hs31 := (due_quiet status).mp h31
      have hs := (due_quiet status).mp hd
      rcases h with h | ⟨-, h⟩
      · exact (Bool.false_ne_true ((h b hb).symm.trans hs)).elim
      · exact (Bool.false_ne_true (h.symm.trans hs31)).elim
    · have hs := (due_quiet status).mp hd
      rcases h with h | ⟨h, -⟩
      · exact (Bool.false_ne_true ((h b hb).symm.trans hs)).elim
      · exact absurd ((due_quiet status).mpr h) h63

end Talios
