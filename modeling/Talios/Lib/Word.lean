import Mathlib.Tactic

set_option autoImplicit false

/-! # 64-bit unsigned arithmetic

Values of `unsigned long` are natural numbers below `2^64`; `add64` and `sub64` wrap around.
The lemmas give the wrap-free value where there is no wrap, so that a development that bounds
its counters can compute with `+` and `-`. Alignment to a power of two is stated with `/` and
`%`.
-/

namespace Word

/-- Addition of `unsigned long` values. -/
def add64 (a b : Nat) : Nat := (a + b) % 2 ^ 64

/-- Subtraction of `unsigned long` values. -/
def sub64 (a b : Nat) : Nat := (a + 2 ^ 64 - b % 2 ^ 64) % 2 ^ 64

/-- The `unsigned long` a value of type `int` is converted to, from its low 32 bits. -/
def signExtend32 (a : Nat) : Nat :=
  if a % 2 ^ 32 < 2 ^ 31 then a % 2 ^ 32 else a % 2 ^ 32 + (2 ^ 64 - 2 ^ 32)

/-- The `unsigned long` a signed value is converted to. -/
def ulong (a : Int) : Nat := (a % 2 ^ 64).toNat

/-- The `int` a value is converted to, and what `int` arithmetic wraps around to. -/
def int32 (a : Int) : Int := a.bmod (2 ^ 32)

/-- The largest multiple of `m` not above `a`. -/
def alignDown (m a : Nat) : Nat := a / m * m

/-- The least multiple of `m` not below `a`, computed as `(a + m - 1)` rounded down, with the
addition wrapping around. -/
def alignUp64 (m a : Nat) : Nat := alignDown m (add64 a (m - 1))

theorem add64_eq {a b : Nat} (h : a + b < 2 ^ 64) : add64 a b = a + b := Nat.mod_eq_of_lt h

theorem sub64_eq {a b : Nat} (h : b ≤ a) (ha : a < 2 ^ 64) : sub64 a b = a - b := by
  unfold sub64
  omega

theorem ulong_eq {a : Nat} (ha : a < 2 ^ 64) : ulong a = a := by
  unfold ulong
  omega

theorem int32_eq {a : Int} (h1 : -2 ^ 31 ≤ a) (h2 : a < 2 ^ 31) : int32 a = a :=
  Int.bmod_eq_of_le (by omega) (by omega)

theorem dvd_alignDown (m a : Nat) : m ∣ alignDown m a := Nat.dvd_mul_left m (a / m)

end Word
