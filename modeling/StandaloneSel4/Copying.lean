import StandaloneSel4.CString
import Mathlib.Algebra.Group.Int.Defs
import Mathlib.Algebra.Group.Nat.Defs

/-!
# Copying bytes that overlap

`memmove` (cstubs.c) copies from the end if the destination is behind the source, by less than the
length, as an `int`, says, and counts down with an `int`.
-/

namespace CString

open Bytes

/-- The conversion of a `size_t` to an `int`. -/
def toInt (n : ℕ) : ℤ :=
  Int.bmod n (2 ^ 32)

/-- The difference of two pointers. -/
def ptrdiff (a b : ℕ) : ℤ :=
  Int.bmod (a - b) (2 ^ 64)

/-- The memory after `for (i = k - 1; i >= 0; i--) to[i] = from[i]`. -/
def copyDown (m : Mem) (dest src : ℕ) : ℕ → Mem
  | 0 => m
  | k + 1 => copyDown (fun b => if b = dest + k then m (src + k) else m b) dest src k

/-- The memory after `memmove(dest, src, n)`. -/
def memmove (m : Mem) (dest src n : ℕ) : Mem :=
  if src = dest ∨ n = 0 then m
  else if src < dest ∧ ptrdiff dest src < toInt n then
    copyDown m dest src (toInt (n - 1) + 1).toNat
  else if dest < src ∧ ptrdiff src dest < toInt n then
    -- The loop here is that of `memcpy`.
    memcpy m dest src n
  else memcpy m dest src n

/-- `memmove` copies as if through a temporary, whatever the memory: at the destination are the
bytes that were at the source, and no others have changed. -/
def Moves (dest src n : ℕ) : Prop :=
  ∀ m : Mem, (∀ i < n, memmove m dest src n (dest + i) = m (src + i))
    ∧ ∀ b, b < dest ∨ dest + n ≤ b → memmove m dest src n b = m b

variable {m : Mem} {dest src n k b i : ℕ}

/-! ### Integers -/

theorem toInt_eq (n : ℕ) :
  toInt n = if n % 2 ^ 32 < 2 ^ 31 then ((n % 2 ^ 32 : ℕ) : ℤ) else (n % 2 ^ 32 : ℕ) - 2 ^ 32
  := by
  unfold toInt
  rw [Int.bmod_def]
  split_ifs <;> omega

theorem toInt_of_lt (h : n < 2 ^ 31) :
  toInt n = n
  := by
  rw [toInt_eq, Nat.mod_eq_of_lt (by omega), if_pos h]

/-- The difference of pointers that are far apart wraps around. -/
theorem ptrdiff_of_lt (h : src < dest) (hdest : dest ≤ 2 ^ 64) :
  ptrdiff dest src
    = if dest - src < 2 ^ 63 then ((dest - src : ℕ) : ℤ) else (dest - src : ℕ) - 2 ^ 64
  := by
  unfold ptrdiff
  rw [Int.bmod_def]
  split_ifs <;> omega

/-! ### Copying from the end -/

theorem copyDown_outside (h : b < dest ∨ dest + k ≤ b) :
  copyDown m dest src k b = m b
  := by
  induction k generalizing m with
  | zero => rfl
  | succ k ih =>
      have hne : b ≠ dest + k := by omega
      rw [copyDown, ih (by omega)]
      simp only [if_neg hne]

/-- From the end bytes are copied if the destination is behind the source. -/
theorem copyDown_apply (h : src ≤ dest) (hi : i < k) :
  copyDown m dest src k (dest + i) = m (src + i)
  := by
  induction k generalizing m with
  | zero => omega
  | succ k ih =>
      rw [copyDown]
      rcases Nat.eq_or_lt_of_le (Nat.le_of_lt_succ hi) with rfl | hlt
      · rw [copyDown_outside (.inr (Nat.le_refl _)), if_pos rfl]
      · have hne : src + i ≠ dest + k := by omega
        rw [ih hlt, if_neg hne]

/-! ### Moving -/

/-- `memmove` either copies from the end, or is `memcpy`. -/
theorem memmove_eq (hne : src ≠ dest) (hn : n ≠ 0) :
  memmove m dest src n = if src < dest ∧ ptrdiff dest src < toInt n then
    copyDown m dest src (toInt (n - 1) + 1).toNat else memcpy m dest src n
  := by
  unfold memmove
  rw [if_neg (by omega), ite_self]

/-- Copying from the end is right if no byte is left out. -/
theorem moves_of_down (hlt : src < dest) (hdown : ptrdiff dest src < toInt n) (hn : n ≠ 0)
    (hcount : (toInt (n - 1) + 1).toNat = n) :
  Moves dest src n
  := by
  intro m
  rw [memmove_eq (Nat.ne_of_lt hlt) hn, if_pos ⟨hlt, hdown⟩, hcount]
  exact ⟨fun i hi => copyDown_apply (Nat.le_of_lt hlt) hi, fun b hb => copyDown_outside hb⟩

/-- `memcpy` is right if the bytes do not overlap, or the destination is in front. -/
theorem moves_of_up (hup : ¬ (src < dest ∧ ptrdiff dest src < toInt n)) (hne : src ≠ dest)
    (hn : n ≠ 0) (h : src + n ≤ dest ∨ dest ≤ src) :
  Moves dest src n
  := by
  intro m
  rw [memmove_eq hne hn, if_neg hup]
  exact ⟨fun i hi => memcpy_apply h hi, fun b hb => memcpy_outside hb⟩

/-- Otherwise the first byte of the source is copied over and over again. -/
theorem not_moves_of_up (hup : ¬ (src < dest ∧ ptrdiff dest src < toInt n)) (hlt : src < dest)
    (hoverlap : dest < src + n) :
  ¬ Moves dest src n
  := by
  intro h
  obtain ⟨hcopied, -⟩ := h fun b => if b = src then 1 else 0
  have hbyte := hcopied (dest - src) (by omega)
  have hindex : src + (dest - src) = dest := Nat.add_sub_cancel' (Nat.le_of_lt hlt)
  rw [memmove_eq (Nat.ne_of_lt hlt) (by omega), if_neg hup, memcpy_written (by omega),
    memcpy_source_of_le hlt (by omega), hindex, Nat.sub_self, memcpy, Nat.add_zero, if_pos rfl,
    if_neg (by omega)] at hbyte
  cases hbyte

/-- Where bytes are left out, they are not copied. -/
theorem not_moves_of_down (hlt : src < dest) (hdown : ptrdiff dest src < toInt n)
    (hcount : (toInt (n - 1) + 1).toNat < n) :
  ¬ Moves dest src n
  := by
  intro h
  obtain ⟨hcopied, -⟩ := h fun b => if b = src + (n - 1) then 1 else 0
  have hbyte := hcopied (n - 1) (by omega)
  rw [memmove_eq (Nat.ne_of_lt hlt) (by omega), if_pos ⟨hlt, hdown⟩,
    copyDown_outside (.inr (by omega)), if_pos rfl, if_neg (by omega)] at hbyte
  cases hbyte

theorem moves_of_eq (h : src = dest ∨ n = 0) :
  Moves dest src n
  := by
  intro m
  rw [memmove, if_pos h]
  refine ⟨fun i hi => ?_, fun _ _ => rfl⟩
  rw [h.resolve_right (by omega)]

/-- Counting down with an `int` all bytes are copied up to a length of `2 ^ 31`, and no further. -/
theorem count_eq_iff (hn : n ≠ 0) :
  ((toInt (n - 1) + 1).toNat = n ↔ n ≤ 2 ^ 31) ∧ (toInt (n - 1) + 1).toNat ≤ n
  := by
  rw [toInt_eq]
  split_ifs <;> omega

/-- A length from `2 ^ 31` on is a negative `int`, or one that is too small, so that the bytes do
not overlap where `memmove` thinks so at the length `2 ^ 31`. -/
theorem ptrdiff_lt_toInt (hlt : src < dest) (hdest : dest + 2 ^ 31 ≤ 2 ^ 64)
    (hdown : ptrdiff dest src < toInt (2 ^ 31)) :
  src + 2 ^ 31 ≤ dest
  := by
  have hint : toInt (2 ^ 31) = -2 ^ 31 := by decide
  rw [hint, ptrdiff_of_lt hlt (by omega)] at hdown
  split at hdown <;> omega

/-- `memmove` copies as if through a temporary exactly if the length is that of an `int`, or the
destination is not behind the source, or the bytes do not overlap and the length as an `int` does
not make `memmove` think that they do. -/
theorem moves_iff (hdest : dest + n ≤ 2 ^ 64) (hsrc : src + n ≤ 2 ^ 64) :
  Moves dest src n ↔ n < 2 ^ 31 ∨ dest ≤ src
    ∨ src + n ≤ dest ∧ (n = 2 ^ 31 ∨ toInt n ≤ ptrdiff dest src)
  := by
  by_cases htrivial : src = dest ∨ n = 0
  · exact iff_of_true (moves_of_eq htrivial) (by omega)
  · obtain ⟨hne, hn⟩ := not_or.mp htrivial
    obtain ⟨hcount, hle⟩ := count_eq_iff hn
    by_cases hdown : src < dest ∧ ptrdiff dest src < toInt n
    · obtain ⟨hlt, hdown⟩ := hdown
      by_cases hlength : n ≤ 2 ^ 31
      · apply iff_of_true (moves_of_down hlt hdown hn (hcount.mpr hlength))
        rcases Nat.lt_or_eq_of_le hlength with hlength | rfl
        · exact .inl hlength
        · exact .inr (.inr ⟨ptrdiff_lt_toInt hlt hdest hdown, .inl rfl⟩)
      · have hless : (toInt (n - 1) + 1).toNat < n :=
          Nat.lt_of_le_of_ne hle fun heq => hlength (hcount.mp heq)
        exact iff_of_false (not_moves_of_down hlt hdown hless) (by omega)
    · by_cases hlt : src < dest
      · have hup : toInt n ≤ ptrdiff dest src := Int.not_lt.mp fun h => hdown ⟨hlt, h⟩
        by_cases hoverlap : src + n ≤ dest
        · exact iff_of_true (moves_of_up hdown hne hn (.inl hoverlap))
            (.inr (.inr ⟨hoverlap, .inr hup⟩))
        · apply iff_of_false (not_moves_of_up hdown hlt (by omega))
          have hlarge : ¬ n < 2 ^ 31 := by
            intro hsmall
            rw [toInt_of_lt hsmall, ptrdiff_of_lt hlt (by omega)] at hup
            split at hup <;> omega
          omega
      · exact iff_of_true (moves_of_up hdown hne hn (.inr (by omega))) (by omega)

/-- Two bytes further, by three bytes that overlap. -/
theorem moves_three :
  Moves 18 16 3
  := (moves_iff (by decide) (by decide)).mpr (.inl (by decide))

/-- One byte further, by a length that is a negative `int`. -/
theorem not_moves_next :
  ¬ Moves 17 16 (2 ^ 31)
  := not_moves_of_up (by decide) (by decide) (by decide)

end CString
