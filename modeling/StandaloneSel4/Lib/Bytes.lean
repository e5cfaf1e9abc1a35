import Mathlib.Data.Nat.Basic
import Mathlib.Algebra.Order.Ring.Nat
import Mathlib.Tactic.Ring

/-!
# Memories of bytes

A memory gives every address a byte. `load m a k` is the number in the `k` bytes from
`a` on, the least significant byte first, and `store m a v k` the memory in which these
bytes hold `v`. A load sees what was stored at its own bytes, and nothing of what was
stored at others.
-/

namespace Bytes

/-- A memory: a byte at every address. -/
abbrev Mem : Type := ℕ → UInt8

/-- The number in the `k` bytes from `a` on, the least significant first. -/
def load (m : Mem) (a : ℕ) : ℕ → ℕ
  | 0 => 0
  | k + 1 => (m a).toNat + 256 * load m (a + 1) k

/-- The memory `m` with the `k` lowest bytes of `v` from `a` on. -/
def store (m : Mem) (a v : ℕ) : ℕ → Mem
  | 0 => m
  | k + 1 => fun b => if b = a then UInt8.ofNat v else store m (a + 1) (v / 256) k b

theorem store_succ_apply (m : Mem) (a v k b : ℕ) :
  store m a v (k + 1) b = if b = a then UInt8.ofNat v else store m (a + 1) (v / 256) k b
  := rfl

theorem load_lt (m : Mem) (a k : ℕ) :
  load m a k < 256 ^ k
  := by
  induction k generalizing a with
  | zero => simp [load]
  | succ k ih =>
      have hb := (m a).toNat_lt
      have hk := ih (a + 1)
      rw [load, pow_succ]
      omega

/-- A load depends on its own bytes only. -/
theorem load_congr {m m' : Mem} {a k : ℕ} (h : ∀ b, a ≤ b → b < a + k → m b = m' b) :
  load m a k = load m' a k
  := by
  induction k generalizing a with
  | zero => rfl
  | succ k ih =>
      rw [load, load, h a le_rfl (by omega), ih]
      intro b hab hb
      apply h b (by omega) (by omega)

/-- Loads of the same bytes at different addresses are the same. -/
theorem load_congr_add {m m' : Mem} {a a' k : ℕ} (h : ∀ i < k, m (a + i) = m' (a' + i)) :
  load m a k = load m' a' k
  := by
  induction k generalizing a a' with
  | zero => rfl
  | succ k ih =>
      have hfirst : m a = m' a' := h 0 (by omega)
      rw [load, load, hfirst, ih]
      intro i hi
      rw [Nat.add_right_comm a, Nat.add_right_comm a', Nat.add_assoc, Nat.add_assoc]
      apply h (i + 1) (by omega)

/-- A byte outside the stored ones keeps its value. -/
theorem store_of_outside (m : Mem) {a k b : ℕ} (v : ℕ) (h : b < a ∨ a + k ≤ b) :
  store m a v k b = m b
  := by
  induction k generalizing a v with
  | zero => rfl
  | succ k ih =>
      have hne : b ≠ a := by omega
      rw [store_succ_apply, if_neg hne]
      apply ih
      omega

/-- Loading the bytes just stored gives the stored number, cut to their width. -/
theorem load_store (m : Mem) (a v k : ℕ) :
  load (store m a v k) a k = v % 256 ^ k
  := by
  induction k generalizing a v with
  | zero => simp [load, Nat.mod_one]
  | succ k ih =>
      have hrest : load (store m a v (k + 1)) (a + 1) k
          = load (store m (a + 1) (v / 256) k) (a + 1) k := by
        apply load_congr
        intro b hab hb
        have hne : b ≠ a := by omega
        rw [store_succ_apply, if_neg hne]
      have hbyte : (store m a v (k + 1) a).toNat = v % 256 := by
        rw [store_succ_apply, if_pos rfl]
        simp
      rw [load, hrest, ih, hbyte, pow_succ, mul_comm (256 ^ k) 256, Nat.mod_mul]

/-- A load of bytes apart from the stored ones is unchanged. -/
theorem load_store_of_apart (m : Mem) {a k b j : ℕ} (v : ℕ) (h : a + k ≤ b ∨ b + j ≤ a) :
  load (store m a v k) b j = load m b j
  := by
  apply load_congr
  intro c hbc hc
  apply store_of_outside
  omega

/-- Storing what is there changes nothing. -/
theorem store_load_self (m : Mem) (a k : ℕ) :
  store m a (load m a k) k = m
  := by
  induction k generalizing a with
  | zero => rfl
  | succ k ih =>
      have hlt := (m a).toNat_lt
      have hrest : ((m a).toNat + 256 * load m (a + 1) k) / 256 = load m (a + 1) k := by omega
      funext b
      rw [store_succ_apply, load, hrest, ih]
      split
      · rename_i heq
        rw [heq]
        apply UInt8.toNat.inj
        rw [UInt8.toNat_ofNat']
        omega
      · rfl

/-- What a store makes of a byte depends on the byte only when it is not stored to. -/
theorem store_congr {m m' : Mem} {a k b : ℕ} (v : ℕ)
    (h : b < a ∨ a + k ≤ b → m b = m' b) :
  store m a v k b = store m' a v k b
  := by
  induction k generalizing a v with
  | zero =>
      apply h
      omega
  | succ k ih =>
      rw [store_succ_apply, store_succ_apply]
      split
      · rfl
      · apply ih
        intro hout
        apply h
        omega

/-- Storing again to the same bytes leaves nothing of what was stored first. -/
theorem store_store_self (m : Mem) (a v w k : ℕ) :
  store (store m a v k) a w k = store m a w k
  := by
  funext b
  apply store_congr
  intro hout
  apply store_of_outside m v hout

/-- A load is zero exactly when all its bytes are. -/
theorem load_eq_zero_iff {m : Mem} {a k : ℕ} :
  load m a k = 0 ↔ ∀ b, a ≤ b → b < a + k → m b = 0
  := by
  induction k generalizing a with
  | zero =>
      simp only [load, true_iff]
      omega
  | succ k ih =>
      have hbyte : (m a).toNat = 0 ↔ m a = 0 := by
        rw [← UInt8.toNat_inj]
        rfl
      have hmul : 256 * load m (a + 1) k = 0 ↔ load m (a + 1) k = 0 := by omega
      rw [load, Nat.add_eq_zero_iff, hbyte, hmul, ih]
      constructor
      · rintro ⟨ha, hrest⟩ b hab hb
        rcases Nat.eq_or_lt_of_le hab with rfl | hlt
        · exact ha
        · apply hrest b hlt (by omega)
      · intro hall
        use hall a le_rfl (by omega)
        intro b hab hb
        apply hall b (by omega) (by omega)

end Bytes
