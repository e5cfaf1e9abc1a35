import StandaloneSel4.Console.Numerals
import Mathlib.Data.Nat.Digits.Lemmas

/-!
# Decimal numbers

What `strtol` reads of a number in decimal: all of it, behind any blanks.
-/

namespace CString

/-- The digits of the number, the most significant first. -/
def decimalDigits (n : ℕ) : List ℕ :=
  if n = 0 then [0] else (Nat.digits 10 n).reverse

/-- The number in decimal. -/
def decimal (n : ℕ) : List UInt8 :=
  (decimalDigits n).map fun d => UInt8.ofNat (0x30 + d)

variable {s bl ds rest : List UInt8} {scan : Scan} {c : UInt8} {b d i k n pos v : ℕ} {sign : ℤ}

/-! ### Decimal digits -/

theorem isDigit_ten_iff :
  IsDigit 10 c ↔ 0x30 ≤ c.toNat ∧ c.toNat ≤ 0x39
  := by
  unfold IsDigit
  rw [number_eq]
  split_ifs <;> omega

theorem number_ofNat (h : d < 10) :
  number (UInt8.ofNat (0x30 + d)) = d
  := by
  rw [number_eq, UInt8.toNat_ofNat']
  split_ifs <;> omega

theorem decimalDigits_lt (n : ℕ) :
  ∀ d ∈ decimalDigits n, d < 10
  := by
  intro d hd
  unfold decimalDigits at hd
  split at hd
  · rw [List.mem_singleton.mp hd]
    decide
  · apply Nat.digits_lt_base (by decide) (List.mem_reverse.mp hd)

theorem decimal_isDigit (n : ℕ) :
  ∀ c ∈ decimal n, IsDigit 10 c
  := by
  intro c hc
  obtain ⟨d, hd, rfl⟩ := List.mem_map.mp hc
  have hlt := decimalDigits_lt n d hd
  unfold IsDigit
  rw [number_ofNat hlt]
  omega

/-- The first digit is zero for the number zero only. -/
theorem exists_decimalDigits (n : ℕ) :
  ∃ d L, decimalDigits n = d :: L ∧ (n ≠ 0 → d ≠ 0)
  := by
  unfold decimalDigits
  split
  · rename_i hn
    exact ⟨0, [], rfl, fun h => absurd hn h⟩
  · rename_i hn
    have hne : Nat.digits 10 n ≠ [] := Nat.digits_ne_nil_iff_ne_zero.mpr hn
    refine ⟨(Nat.digits 10 n).getLast hne, (Nat.digits 10 n).dropLast.reverse, ?_, ?_⟩
    · calc (Nat.digits 10 n).reverse
        _ = ((Nat.digits 10 n).dropLast ++ [(Nat.digits 10 n).getLast hne]).reverse := by
            rw [List.dropLast_append_getLast]
        _ = (Nat.digits 10 n).getLast hne :: (Nat.digits 10 n).dropLast.reverse := by
            rw [List.reverse_append, List.reverse_singleton, List.singleton_append]
    · intro _
      exact Nat.getLast_digit_ne_zero 10 hn

/-- Digits in the usual order, taken in one after the other. -/
theorem foldl_decimalDigits (n : ℕ) :
  (decimalDigits n).foldl (fun v d => v * 10 + d) 0 = n
  := by
  unfold decimalDigits
  split
  · rename_i hn
    exact hn.symm
  · have hdigits := Nat.ofDigits_digits 10 n
    rw [Nat.ofDigits_eq_foldr] at hdigits
    rw [List.foldl_reverse]
    simp only [Nat.cast_id, Nat.mul_comm 10] at hdigits
    simp only [Nat.add_comm]
    apply hdigits

theorem valueFrom_map {L : List ℕ} (h : ∀ d ∈ L, d < 10) :
  valueFrom 10 v (L.map fun d => UInt8.ofNat (0x30 + d)) = L.foldl (fun v d => v * 10 + d) v
  := by
  induction L generalizing v with
  | nil => rfl
  | cons d L ih =>
      obtain ⟨hd, hL⟩ := List.forall_mem_cons.mp h
      simp only [valueFrom, List.map_cons, List.foldl_cons, number_ofNat hd, Int.toNat_natCast]
      apply ih hL

/-- The decimal of a number stands for it. -/
theorem valueFrom_decimal (n : ℕ) :
  valueFrom 10 0 (decimal n) = n
  := by
  rw [decimal, valueFrom_map (decimalDigits_lt n), foldl_decimalDigits]

theorem decimal_ne_nil (n : ℕ) :
  decimal n ≠ []
  := by
  obtain ⟨d, L, hdigits, -⟩ := exists_decimalDigits n
  rw [decimal, hdigits]
  apply List.cons_ne_nil

theorem valueFrom_cons (b v : ℕ) (c : UInt8) (ds : List UInt8) :
  valueFrom b v (c :: ds) = valueFrom b (v * b + (number c).toNat) ds
  := rfl

/-- Digits behind a number shift it. -/
theorem valueFrom_eq (b v : ℕ) (ds : List UInt8) :
  valueFrom b v ds = v * b ^ ds.length + valueFrom b 0 ds
  := by
  induction ds generalizing v with
  | nil => simp [valueFrom]
  | cons c ds ih =>
      rw [valueFrom_cons, valueFrom_cons, ih, ih (0 * b + _), List.length_cons, Nat.pow_succ]
      ring

/-- Without its first digit a number that is not zero becomes smaller. -/
theorem valueFrom_tail_lt (h : n ≠ 0) :
  valueFrom 10 0 (decimal n).tail < n
  := by
  obtain ⟨d, L, hdigits, hd⟩ := exists_decimalDigits n
  have hlt : d < 10 := by
    apply decimalDigits_lt n
    rw [hdigits]
    apply List.mem_cons_self
  have hn := valueFrom_decimal n
  rw [decimal, hdigits, List.map_cons, valueFrom_cons, valueFrom_eq, number_ofNat hlt,
    Int.toNat_natCast, Nat.zero_mul, Nat.zero_add] at hn
  rw [decimal, hdigits, List.map_cons, List.tail_cons]
  have hpos : 0 < d * 10 ^ (L.map fun d => UInt8.ofNat (0x30 + d)).length :=
    Nat.mul_pos (Nat.pos_of_ne_zero (hd h)) (Nat.pow_pos (by decide))
  omega

/-! ### Converting -/

/-- Digits and what is no digit behind them, behind any blanks, are converted. -/
theorem strtol_digits (hs : s.drop i = bl ++ (ds ++ c :: rest)) (hbl : ∀ x ∈ bl, isspace x)
    (hds : ∀ x ∈ ds, IsDigit 10 x) (hne : ds ≠ []) (hc : ¬ IsDigit 10 c)
    (hfits : valueFrom 10 0 ds ≤ limit 1) :
  strtol s i 10 = some ⟨valueFrom 10 0 ds, some (i + bl.length + ds.length), none⟩
  := by
  have hbase : ¬ (10 = 16 ∧ ds = [0x30] ∧ isX c) := nofun
  obtain ⟨scan, hreads, hstrtol⟩ := exists_strtol_numeral (b := 10) .absent
    (by decide) (by decide) hs hbl hds hne hc hbase
  have hvalue : scan.sum = valueFrom 10 0 ds := by
    rw [hreads.sum, Sign.value, Int.one_mul, Nat.min_eq_left hfits]
  have herrno : scan.errno = none := by
    rw [hreads.errno]
    exact if_neg (Nat.not_lt.mpr hfits)
  rw [strtol_eq_some_iff, and_iff_left rfl]
  apply hstrtol.trans
  rw [hvalue, herrno, Sign.text, List.length_nil, Nat.add_zero]

end CString
