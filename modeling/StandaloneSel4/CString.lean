import StandaloneSel4.Lib.Bytes

/-!
# Copying and filling bytes

`memcpy` (cstubs.c) and `memset` (lib/cstring.h): both write one byte after another, in
ascending order, and `memcpy` reads each byte from the memory as it then is.
-/

namespace CString

open Bytes

/-- The memory after `memcpy(dest, src, n)`. -/
def memcpy (m : Mem) (dest src : ℕ) : ℕ → Mem
  | 0 => m
  | n + 1 =>
      let m' := memcpy m dest src n
      fun b => if b = dest + n then m' (src + n) else m' b

/-- The memory after `memset(s, c, len)`. -/
def memset (m : Mem) (s : ℕ) (c : UInt8) : ℕ → Mem
  | 0 => m
  | len + 1 =>
      let m' := memset m s c len
      fun b => if b = s + len then c else m' b

variable {m : Mem} {dest src s n len b i : ℕ}

/-- `memcpy` writes to its destination only. -/
theorem memcpy_outside (h : b < dest ∨ dest + n ≤ b) :
  memcpy m dest src n b = m b
  := by
  induction n with
  | zero => rfl
  | succ n ih =>
      have hne : b ≠ dest + n := by omega
      simp only [memcpy, if_neg hne]
      apply ih
      omega

/-- Each byte is written once, with what is then in its place in the source. -/
theorem memcpy_written (hi : i < n) :
  memcpy m dest src n (dest + i) = memcpy m dest src i (src + i)
  := by
  induction n with
  | zero => omega
  | succ n ih =>
      simp only [memcpy]
      rcases Nat.eq_or_lt_of_le (Nat.le_of_lt_succ hi) with rfl | hlt
      · rw [if_pos rfl]
      · rw [if_neg (by omega)]
        apply ih hlt

/-- `memcpy` may as well copy its first byte first. -/
theorem memcpy_succ (m : Mem) (dest src n : ℕ) :
  memcpy m dest src (n + 1)
    = memcpy (fun b => if b = dest then m src else m b) (dest + 1) (src + 1) n
  := by
  induction n with
  | zero => rfl
  | succ n ih =>
      rw [memcpy, ih]
      simp only [memcpy, Nat.add_right_comm _ 1 n, Nat.add_assoc]

/-- A byte of the source that is not overwritten before it is read is read as it was. -/
theorem memcpy_source (h : dest ≤ src ∨ src + i < dest) :
  memcpy m dest src i (src + i) = m (src + i)
  := by
  apply memcpy_outside
  omega

/-- A byte of the source that is overwritten before it is read is read as one that was copied before
it. -/
theorem memcpy_source_of_le (hlt : src < dest) (hle : dest ≤ src + i) :
  memcpy m dest src i (src + i)
    = memcpy m dest src (src + i - dest) (src + (src + i - dest))
  := by
  have hindex : src + i = dest + (src + i - dest) := by omega
  nth_rewrite 1 [hindex]
  apply memcpy_written
  omega

/-- `memcpy` copies if the source is not overwritten before it is read: if the bytes do not overlap,
or the destination is in front. -/
theorem memcpy_apply (h : src + n ≤ dest ∨ dest ≤ src) (hi : i < n) :
  memcpy m dest src n (dest + i) = m (src + i)
  := by
  rw [memcpy_written hi]
  apply memcpy_source
  omega

/-- `memset` writes to the bytes it fills only. -/
theorem memset_outside {c : UInt8} (h : b < s ∨ s + len ≤ b) :
  memset m s c len b = m b
  := by
  induction len with
  | zero => rfl
  | succ len ih =>
      have hne : b ≠ s + len := by omega
      simp only [memset, if_neg hne]
      apply ih
      omega

/-- `memset` fills its bytes. -/
theorem memset_apply {c : UInt8} (hs : s ≤ b) (hb : b < s + len) :
  memset m s c len b = c
  := by
  induction len with
  | zero => omega
  | succ len ih =>
      simp only [memset]
      split
      · rfl
      · apply ih
        omega

end CString
