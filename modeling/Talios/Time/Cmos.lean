import Talios.Mm.PageTable
import Mathlib.Tactic

set_option autoImplicit false

/-! # The time of day

`get_cmos_time` of `timer.c`. The clock goes on while its registers are read one after the other, so the
loop reads them until the second is the same before and behind. `BCD_TO_BIN` is a macro that names
`CMOS_READ` twice: the two digits of a register come from two reads, and C leaves open which of them is the
first, as it does for the two terms of the year. A turn of the loop is therefore the seconds in which its
eighteen reads happen, in any order the statements allow.

The time that is returned is one the clock had, all of it at once (`getCmosTime_snapshot`).
-/

namespace Talios.Cmos

/-! ## The clock -/

/-- The clock, whose seconds are numbered. What is above the second is a function of the number of the
minute, and changes together with the second that is 0 again. -/
structure Clock where
  minute : Nat → Fin 100
  hour : Nat → Fin 100
  week : Nat → Fin 100
  day : Nat → Fin 100
  month : Nat → Fin 100
  yearOfCentury : Nat → Fin 100
  century : Nat → Fin 100

/-- What is behind the index of a register in second `n`. -/
def Clock.register (c : Clock) (n index : Nat) : Nat :=
  match index with
  | 0x00 => n % 60
  | 0x02 => c.minute (n / 60)
  | 0x04 => c.hour (n / 60)
  | 0x06 => c.week (n / 60)
  | 0x07 => c.day (n / 60)
  | 0x08 => c.month (n / 60)
  | 0x09 => c.yearOfCentury (n / 60)
  | 0x32 => c.century (n / 60)
  | _ => 0

/-- The two decimal digits of a byte. -/
def toBcd (v : Nat) : Nat := v / 10 * 16 + v % 10

/-! ## `timer.c` -/

structure Time where
  second : Nat
  minute : Nat
  hour : Nat
  week : Nat
  day : Nat
  month : Nat
  year : Nat
  deriving DecidableEq

/-- `CMOS_READ(index)` in second `n`. -/
def Clock.cmosRead (c : Clock) (n index : Nat) : Nat := toBcd (c.register n index)

/-- `BCD_TO_BIN(CMOS_READ(index))`: the upper digit is read in second `tens`, the lower in second `units`. -/
def Clock.bcdToBin (c : Clock) (tens units index : Nat) : Nat :=
  getBits (c.cmosRead tens index) 4 4 * 10 + getBits (c.cmosRead units index) 0 4

/-- The seconds in which the reads of a turn of the loop happen, by the index of the register, and those of
the two reads in its condition. -/
structure Turn where
  tens : Nat → Nat
  units : Nat → Nat
  checkTens : Nat
  checkUnits : Nat

/-- The body of the loop. -/
def Turn.time (c : Clock) (r : Turn) : Time :=
  let read := fun index => c.bcdToBin (r.tens index) (r.units index) index
  { second := read 0x00
    minute := read 0x02
    hour := read 0x04
    week := read 0x06
    day := read 0x07
    month := read 0x08
    year := read 0x09 + read 0x32 * 100 }

/-- `get_cmos_time`, over the turns there are: the time, and the turn that was the last. -/
def getCmosTime (c : Clock) : List Turn → Option (Time × Turn)
  | [] => none
  | r :: rs =>
      let time := r.time c
      if time.second ≠ c.bcdToBin r.checkTens r.checkUnits 0x00 then getCmosTime c rs
      else some (time, r)

/-! ## What is wanted -/

/-- What the clock shows in second `n`. -/
def Clock.time (c : Clock) (n : Nat) : Time where
  second := n % 60
  minute := c.minute (n / 60)
  hour := c.hour (n / 60)
  week := c.week (n / 60)
  day := c.day (n / 60)
  month := c.month (n / 60)
  year := (c.yearOfCentury (n / 60) : Nat) + c.century (n / 60) * 100

/-- The registers that are read between the second and the condition. -/
def BETWEEN : List Nat := [0x02, 0x04, 0x06, 0x07, 0x08, 0x09, 0x32]

def Turn.first (r : Turn) : Nat := min (r.tens 0x00) (r.units 0x00)

def Turn.last (r : Turn) : Nat := max r.checkTens r.checkUnits

/-- The order of the statements: both reads of the second come before all others, both reads of the condition
after them. -/
structure Turn.Ordered (r : Turn) : Prop where
  ends : max (r.tens 0x00) (r.units 0x00) ≤ min r.checkTens r.checkUnits
  tens : ∀ i ∈ BETWEEN, max (r.tens 0x00) (r.units 0x00) ≤ r.tens i ∧ r.tens i ≤ min r.checkTens r.checkUnits
  units : ∀ i ∈ BETWEEN, max (r.tens 0x00) (r.units 0x00) ≤ r.units i ∧ r.units i ≤ min r.checkTens r.checkUnits

/-- The turns follow one another from second `start` on, and are over in second `stop`. -/
def Follow (stop : Nat) : Nat → List Turn → Prop
  | start, [] => start ≤ stop
  | start, r :: rs => r.Ordered ∧ start ≤ r.first ∧ Follow stop r.last rs

/-! ## A register -/

theorem getBits_tens {v : Nat} (h : v < 100) : getBits (toBcd v) 4 4 = v / 10 := by
  simp only [getBits, toBcd]
  omega

theorem getBits_units (v : Nat) : getBits (toBcd v) 0 4 = v % 10 := by
  simp only [getBits, toBcd]
  omega

theorem register_lt (c : Clock) (n index : Nat) : c.register n index < 100 := by
  unfold Clock.register
  split <;> omega

/-- One digit each of the two reads. -/
theorem bcdToBin_eq (c : Clock) (tens units index : Nat) :
    c.bcdToBin tens units index = c.register tens index / 10 * 10 + c.register units index % 10 := by
  simp only [Clock.bcdToBin, Clock.cmosRead]
  rw [getBits_tens (register_lt c tens index), getBits_units]

/-- Above the second, a register is the same during a minute. -/
theorem register_congr (c : Clock) {m n index : Nat} (hi : index ∈ BETWEEN) (h : m / 60 = n / 60) :
    c.register m index = c.register n index := by
  simp only [BETWEEN, List.mem_cons, List.not_mem_nil, or_false] at hi
  rcases hi with rfl | rfl | rfl | rfl | rfl | rfl | rfl <;> simp only [Clock.register, h]

/-- Two reads in one minute fit together. -/
theorem bcdToBin_same (c : Clock) {tens units n index : Nat} (hi : index ∈ BETWEEN) (ht : tens / 60 = n / 60)
    (hu : units / 60 = n / 60) : c.bcdToBin tens units index = c.register n index := by
  rw [bcdToBin_eq, register_congr c hi ht, register_congr c hi hu]
  omega

/-! ## A turn of the loop -/

/-- The second that two reads of a turn show is one of the clock, in the minute in which everything in
between is read: equal tens are those of one span of ten seconds, since the turn is no longer than 50. -/
theorem accepted_second {a u b v : Nat} (ho : max a u ≤ min b v) (hfast : max b v ≤ min a u + 50)
    (h : a % 60 / 10 * 10 + u % 60 % 10 = b % 60 / 10 * 10 + v % 60 % 10) :
    ∃ n, min a u ≤ n ∧ n ≤ max b v ∧ n % 60 = a % 60 / 10 * 10 + u % 60 % 10 ∧
      ∀ k, max a u ≤ k → k ≤ min b v → k / 60 = n / 60 := by
  rw [max_le_iff, le_min_iff, le_min_iff] at ho
  rw [max_le_iff, ← Nat.sub_le_iff_le_add, ← Nat.sub_le_iff_le_add, le_min_iff, le_min_iff] at hfast
  obtain ⟨⟨hab, hav⟩, hub, huv⟩ := ho
  have hten : a / 10 = b / 10 := by omega
  have hunit : u % 10 = v % 10 := by omega
  have hsecond : a / 10 * 10 + u % 10 ≤ max b v := by
    rcases le_total b v with hle | hle
    · rw [max_eq_right hle]
      omega
    · rw [max_eq_left hle]
      omega
  refine ⟨a / 10 * 10 + u % 10, ?_, hsecond, ?_, ?_⟩
  · rcases le_total a u with hle | hle
    · rw [min_eq_left hle]
      omega
    · rw [min_eq_right hle]
      omega
  · omega
  · intro k hk hk'
    rw [max_le_iff] at hk
    rw [le_min_iff] at hk'
    omega

/-- A turn that the loop accepts has read one second of the clock. -/
theorem turn_snapshot (c : Clock) {r : Turn} (ho : r.Ordered) (hfast : r.last ≤ r.first + 50)
    (h : (r.time c).second = c.bcdToBin r.checkTens r.checkUnits 0x00) :
    ∃ n, r.first ≤ n ∧ n ≤ r.last ∧ r.time c = c.time n := by
  simp only [Turn.time, bcdToBin_eq, Clock.register] at h
  obtain ⟨n, hn, hn', hs, hmin⟩ := accepted_second ho.ends hfast h
  refine ⟨n, hn, hn', ?_⟩
  have key : ∀ i ∈ BETWEEN, c.bcdToBin (r.tens i) (r.units i) i = c.register n i := by
    intro i hi
    apply bcdToBin_same c hi
    · exact hmin _ (ho.tens i hi).1 (ho.tens i hi).2
    · exact hmin _ (ho.units i hi).1 (ho.units i hi).2
  have h0 : c.bcdToBin (r.tens 0x00) (r.units 0x00) 0x00 = n % 60 := by
    rw [bcdToBin_eq, hs]
    rfl
  simp only [Turn.time, Clock.time, h0, key 0x02 (by simp [BETWEEN]), key 0x04 (by simp [BETWEEN]),
    key 0x06 (by simp [BETWEEN]), key 0x07 (by simp [BETWEEN]), key 0x08 (by simp [BETWEEN]),
    key 0x09 (by simp [BETWEEN]), key 0x32 (by simp [BETWEEN])]
  rfl

/-- A turn that the loop does not accept has seen the clock go on. -/
theorem rejected_tick (c : Clock) {r : Turn} (ho : r.Ordered)
    (h : (r.time c).second ≠ c.bcdToBin r.checkTens r.checkUnits 0x00) : r.first < r.last := by
  have hends := ho.ends
  by_contra hcon
  simp only [Turn.first, Turn.last] at hcon
  apply h
  have hb : r.checkTens = r.tens 0x00 := by omega
  have hv : r.checkUnits = r.units 0x00 := by omega
  rw [hb, hv]
  rfl

/-! ## The loop -/

theorem getCmosTime_accepts (c : Clock) {rs : List Turn} {t : Time} {r : Turn}
    (h : getCmosTime c rs = some (t, r)) :
    r ∈ rs ∧ t = r.time c ∧ (r.time c).second = c.bcdToBin r.checkTens r.checkUnits 0x00 := by
  induction rs with
  | nil => cases h
  | cons r' rs ih =>
      simp only [getCmosTime] at h
      split at h
      · exact ⟨List.mem_cons_of_mem _ (ih h).1, (ih h).2⟩
      · rename_i hacc
        injection h with h
        injection h with ht hr
        subst hr
        exact ⟨List.mem_cons_self, ht.symm, not_not.mp hacc⟩

theorem follow_ordered {start stop : Nat} {rs : List Turn} (h : Follow stop start rs) :
    ∀ r ∈ rs, r.Ordered := by
  induction rs generalizing start with
  | nil => simp
  | cons r rs ih =>
      intro r' hr'
      rcases List.mem_cons.mp hr' with rfl | hr'
      · exact h.1
      · exact ih h.2.2 r' hr'

/-- Each turn that is not accepted takes a second of the clock. -/
theorem getCmosTime_none (c : Clock) {start stop : Nat} {rs : List Turn} (hrun : Follow stop start rs)
    (h : getCmosTime c rs = none) : start + rs.length ≤ stop := by
  induction rs generalizing start with
  | nil => exact hrun
  | cons r rs ih =>
      obtain ⟨ho, hstart, hrest⟩ := hrun
      simp only [getCmosTime] at h
      split at h
      · rename_i hrej
        have htick : r.first < r.last := rejected_tick c ho hrej
        have hlen : r.last + rs.length ≤ stop := ih hrest h
        calc start + (r :: rs).length = start + 1 + rs.length := by simp only [List.length_cons]; omega
          _ ≤ r.last + rs.length := by omega
          _ ≤ stop := hlen
      · cases h

/-- Whatever the order of the two reads in `BCD_TO_BIN`: the time that `get_cmos_time` returns is what the
clock showed in one second of the turn that was accepted, where that turn did not take more than 50 seconds;
and the loop ends as soon as there were more turns than seconds. -/
theorem getCmosTime_snapshot (c : Clock) (rs : List Turn) (start stop : Nat) (hrun : Follow stop start rs) :
    (∀ t r, getCmosTime c rs = some (t, r) → r.last ≤ r.first + 50 →
      r ∈ rs ∧ ∃ n, r.first ≤ n ∧ n ≤ r.last ∧ t = c.time n) ∧
    (stop < start + rs.length → (getCmosTime c rs).isSome = true) := by
  constructor
  · intro t r h hfast
    obtain ⟨hr, rfl, hacc⟩ := getCmosTime_accepts c h
    exact ⟨hr, turn_snapshot c (follow_ordered hrun r hr) hfast hacc⟩
  · intro hlong
    by_contra hnone
    rw [Bool.not_eq_true, Option.isSome_eq_false_iff, Option.isNone_iff_eq_none] at hnone
    have hle := getCmosTime_none c hrun hnone
    omega

/-- A clock that starts at midnight, on the last day of a century. -/
def eveClock : Clock where
  minute := fun m => ⟨m % 60, by omega⟩
  hour := fun m => ⟨m / 60 % 24, by omega⟩
  week := fun m => ⟨m / 1440 % 7 + 1, by omega⟩
  day := fun m => if m < 1440 then 31 else 1
  month := fun m => if m < 1440 then 12 else 1
  yearOfCentury := fun m => if m < 1440 then 99 else 0
  century := fun m => if m < 1440 then 20 else 21

/-- The second of the first turn is read before midnight, everything else after it. -/
def eveTurns : List Turn :=
  [{ tens := fun i => if i = 0x00 then 86399 else 86400, units := fun i => if i = 0x00 then 86399 else 86400
     checkTens := 86400, checkUnits := 86400 },
   { tens := fun _ => 86400, units := fun _ => 86400, checkTens := 86400, checkUnits := 86400 }]

/-- The first turn shows an hour of the new day behind a second of the old one, and is not accepted. -/
example : (getCmosTime eveClock eveTurns).map (fun p => p.1) = some ⟨0, 0, 0, 2, 1, 1, 2100⟩ := by decide

theorem getCmosTime_snapshot_eve :
    (∀ t r, getCmosTime eveClock eveTurns = some (t, r) → r.last ≤ r.first + 50 →
      r ∈ eveTurns ∧ ∃ n, r.first ≤ n ∧ n ≤ r.last ∧ t = eveClock.time n) ∧
    (getCmosTime eveClock eveTurns).isSome = true := by
  have hrun : Follow 86400 86399 eveTurns := by
    refine ⟨⟨?_, ?_, ?_⟩, ?_, ⟨?_, ?_, ?_⟩, ?_, Nat.le_refl 86400⟩ <;> decide
  have h := getCmosTime_snapshot eveClock eveTurns 86399 86400 hrun
  exact ⟨h.1, h.2 (by decide)⟩

end Talios.Cmos
