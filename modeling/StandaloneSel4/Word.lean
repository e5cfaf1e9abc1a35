import Mathlib.Algebra.Group.Int.Defs
import Mathlib.Algebra.Group.Nat.Defs

/-!
# 64-bit words

The words of the machine, `size_t`, `seL4_Word` and the pointers, are natural numbers
below `2 ^ 64`; their arithmetic wraps around.
-/

namespace Word

/-- The sum of two words. -/
def add (a b : ℕ) : ℕ :=
  (a + b) % 2 ^ 64

/-- The difference of two words. -/
def sub (a b : ℕ) : ℕ :=
  (a + (2 ^ 64 - b % 2 ^ 64)) % 2 ^ 64

/-- The product of two words. -/
def mul (a b : ℕ) : ℕ :=
  a * b % 2 ^ 64

/-- The conversion of a signed integer. -/
def ofInt (n : ℤ) : ℕ :=
  (n % 2 ^ 64).toNat

theorem add_of_lt {a b : ℕ} (h : a + b < 2 ^ 64) :
  add a b = a + b
  := Nat.mod_eq_of_lt h

theorem sub_of_le {a b : ℕ} (ha : a < 2 ^ 64) (h : b ≤ a) :
  sub a b = a - b
  := by
  unfold sub
  omega

theorem mul_of_lt {a b : ℕ} (h : a * b < 2 ^ 64) :
  mul a b = a * b
  := Nat.mod_eq_of_lt h

theorem ofInt_natCast {n : ℕ} (h : n < 2 ^ 64) :
  ofInt n = n
  := by
  unfold ofInt
  omega

end Word
