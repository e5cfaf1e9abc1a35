import StandaloneSel4.CString

/-!
# Copying a text

`strncpy` (lib/cstring.h) copies the characters of the source, but no more than it is told, and
writes a terminator behind them. When it stops at the number there is no room for the terminator.
When the destination lies in the source, behind its first character, the loop overwrites the
terminator that it looks for, and goes on.
-/

namespace CString

open Bytes

/-- The memory and `destination` after the loop of `strncpy`. -/
def strncpyLoop (m : Mem) (destination source : ℕ) : ℕ → Mem × ℕ
  -- The source is looked at first, but nothing is written in the last test either way.
  | 0 => (m, destination)
  | num + 1 =>
      if m source = 0 then (m, destination)
      else
        strncpyLoop (fun b => if b = destination then m source else m b) (destination + 1)
          (source + 1) num

/-- The memory after `strncpy(destination, source, num)`, and what is returned. -/
def strncpy (m : Mem) (destination source num : ℕ) : Mem × ℕ :=
  if destination = 0 then (m, 0)
  else
    let r := strncpyLoop m destination source num
    (fun b => if b = r.2 then 0 else r.1 b, destination)

/-- There is a text of that length at the address. -/
structure TextAt (m : Mem) (s len : ℕ) : Prop where
  ne_zero : ∀ i < len, m (s + i) ≠ 0
  terminated : m (s + len) = 0

/-- Of a source of that length `strncpy` copies the first characters, as many as there are or as it
is told, and changes no byte outside the `num` bytes at the destination. -/
structure StaysWithin (m : Mem) (destination source num len : ℕ) : Prop where
  outside : ∀ b, b < destination ∨ destination + num ≤ b →
    (strncpy m destination source num).1 b = m b
  count : (strncpyLoop m destination source num).2 = destination + min num len
  copied : ∀ i < min num len,
    (strncpy m destination source num).1 (destination + i) = m (source + i)

variable {m : Mem} {destination source num len k b i : ℕ}

/-! ### Rounds -/

/-- The loop copies `k` bytes. -/
structure Rounds (m : Mem) (destination source num k : ℕ) : Prop where
  le : k ≤ num
  loop : strncpyLoop m destination source num = (memcpy m destination source k, destination + k)
  goes_on : ∀ i < k, memcpy m destination source i (source + i) ≠ 0
  ends : k < num → memcpy m destination source k (source + k) = 0

/-- Behind a first round come those of the rest. -/
theorem Rounds.succ (hne : m source ≠ 0)
    (h : Rounds (fun b => if b = destination then m source else m b) (destination + 1)
      (source + 1) num k) :
  Rounds m destination source (num + 1) (k + 1)
  := by
  refine ⟨Nat.succ_le_succ h.le, ?_, ?_, ?_⟩
  · rw [strncpyLoop, if_neg hne, h.loop, memcpy_succ, Nat.add_right_comm, Nat.add_assoc]
  · intro i hi
    cases i with
    | zero => exact hne
    | succ i =>
        rw [memcpy_succ, ← Nat.add_assoc, Nat.add_right_comm]
        apply h.goes_on i (Nat.lt_of_succ_lt_succ hi)
  · intro hlt
    rw [memcpy_succ, ← Nat.add_assoc, Nat.add_right_comm]
    apply h.ends (Nat.lt_of_succ_lt_succ hlt)

/-- The loop copies byte after byte, until it finds the end of the source or has copied as many as
it was told. -/
theorem exists_rounds (m : Mem) (destination source num : ℕ) :
  ∃ k, Rounds m destination source num k
  := by
  induction num generalizing m destination source with
  | zero =>
      refine ⟨0, Nat.le_refl 0, rfl, ?_, ?_⟩
      · intro i hi
        cases hi
      · intro hlt
        cases hlt
  | succ num ih =>
      by_cases hzero : m source = 0
      · refine ⟨0, Nat.zero_le _, ?_, ?_, fun _ => hzero⟩
        · rw [strncpyLoop, if_pos hzero]
          rfl
        · intro i hi
          cases hi
      · obtain ⟨k, hrounds⟩ :=
          ih (fun b => if b = destination then m source else m b) (destination + 1) (source + 1)
        exact ⟨k + 1, hrounds.succ hzero⟩

/-- A source apart from the destination is copied up to its end. -/
theorem Rounds.of_apart (h : Rounds m destination source num k) (htext : TextAt m source len)
    (hapart : destination ≤ source ∨ source + len < destination) :
  k = min num len
  := by
  have hle : k ≤ len := by
    by_contra hlt
    apply h.goes_on len (by omega)
    rw [memcpy_source hapart, htext.terminated]
  have hlt : ¬ (k < num ∧ k < len) := by
    rintro ⟨hnum, hlen⟩
    apply htext.ne_zero k hlen
    rw [← h.ends hnum, memcpy_source (by omega)]
  have hnum := h.le
  omega

/-- When the destination lies in the source, behind its first character, the end is never found. -/
theorem memcpy_source_ne_zero (htext : TextAt m source len) (hlt : source < destination)
    (hle : destination ≤ source + len) (i : ℕ) :
  memcpy m destination source i (source + i) ≠ 0
  := by
  induction i using Nat.strong_induction_on with
  | h i ih =>
      by_cases hover : destination ≤ source + i
      · rw [memcpy_source_of_le hlt hover]
        apply ih
        omega
      · rw [memcpy_source (by omega)]
        apply htext.ne_zero
        omega

theorem Rounds.of_overlap (h : Rounds m destination source num k) (htext : TextAt m source len)
    (hlt : source < destination) (hle : destination ≤ source + len) :
  k = num
  := by
  have hend : ¬ k < num := fun hlt' => memcpy_source_ne_zero htext hlt hle k (h.ends hlt')
  exact Nat.le_antisymm h.le (Nat.not_lt.mp hend)

/-- What is copied is the source exactly if what is overwritten of the source is overwritten with
itself. -/
theorem memcpy_source_iff (hlt : source < destination) :
  (∀ i < num, memcpy m destination source i (source + i) = m (source + i))
    ↔ ∀ i, destination + i < source + num → m (destination + i) = m (source + i)
  := by
  constructor
  · intro h i hi
    have hindex : source + (destination + i - source) = destination + i := by omega
    have hread := h (destination + i - source) (by omega)
    rw [memcpy_source_of_le hlt (by omega), hindex, Nat.add_sub_cancel_left,
      h i (by omega)] at hread
    exact hread.symm
  · intro h i
    induction i using Nat.strong_induction_on with
    | h i ih =>
        intro hi
        by_cases hover : destination ≤ source + i
        · have hindex : destination + (source + i - destination) = source + i := by omega
          have hsame := h (source + i - destination) (by omega)
          rw [memcpy_source_of_le hlt hover, ih _ (by omega) (by omega), ← hsame, hindex]
        · apply memcpy_source
          omega

/-! ### Bounds -/

theorem strncpy_apply (hdest : destination ≠ 0) (h : Rounds m destination source num k) (b : ℕ) :
  (strncpy m destination source num).1 b
    = if b = destination + k then 0 else memcpy m destination source k b
  := by
  simp only [strncpy, if_neg hdest, h.loop]

/-- What is copied is what is read. -/
theorem strncpy_copied (hdest : destination ≠ 0) (h : Rounds m destination source num k)
    (hi : i < k) :
  (strncpy m destination source num).1 (destination + i)
    = memcpy m destination source i (source + i)
  := by
  rw [strncpy_apply hdest h, if_neg (by omega), memcpy_written hi]

/-- Up to the number the terminator is the only byte that may be outside. -/
theorem strncpy_outside_iff (hdest : destination ≠ 0) (h : Rounds m destination source num k) :
  (∀ b, b < destination ∨ destination + num ≤ b → (strncpy m destination source num).1 b = m b)
    ↔ k < num ∨ m (destination + num) = 0
  := by
  have hle := h.le
  constructor
  · intro hout
    rcases Nat.lt_or_eq_of_le hle with hlt | rfl
    · exact .inl hlt
    · have hbyte := hout (destination + k) (.inr (Nat.le_refl _))
      rw [strncpy_apply hdest h, if_pos rfl] at hbyte
      exact .inr hbyte.symm
  · intro hroom b hb
    rw [strncpy_apply hdest h]
    split
    · rename_i heq
      have hnum : k = num := by omega
      rw [heq, hnum, hroom.resolve_left (by omega)]
    · apply memcpy_outside
      omega

/-- What `strncpy` is to do, said of the rounds of its loop. -/
theorem Rounds.staysWithin_iff (hdest : destination ≠ 0)
    (h : Rounds m destination source num k) :
  StaysWithin m destination source num len
    ↔ k = min num len ∧ (k < num ∨ m (destination + num) = 0)
      ∧ ∀ i < k, memcpy m destination source i (source + i) = m (source + i)
  := by
  constructor
  · rintro ⟨hout, hcount, hcopied⟩
    have hk : k = min num len := by
      rw [h.loop] at hcount
      exact Nat.add_left_cancel hcount
    refine ⟨hk, (strncpy_outside_iff hdest h).mp hout, fun i hi => ?_⟩
    rw [← strncpy_copied hdest h hi]
    apply hcopied
    omega
  · rintro ⟨hk, hroom, hread⟩
    refine ⟨(strncpy_outside_iff hdest h).mpr hroom, ?_, fun i hi => ?_⟩
    · rw [h.loop, hk]
    · rw [← hk] at hi
      rw [strncpy_copied hdest h hi, hread i hi]

/-- `strncpy` copies the source, and changes no byte outside the `num` bytes at the destination,
exactly if the number leaves room for the terminator and the destination is not in the source behind
its first character, or the byte behind the `num` bytes is a terminator already, and what is
overwritten of the source is overwritten with itself. -/
theorem strncpy_staysWithin_iff (hdest : destination ≠ 0) (htext : TextAt m source len) :
  StaysWithin m destination source num len
    ↔ (len < num ∧ (destination ≤ source ∨ source + len < destination))
      ∨ (num ≤ len ∧ m (destination + num) = 0
        ∧ (source < destination →
          ∀ i, destination + i < source + num → m (destination + i) = m (source + i)))
  := by
  obtain ⟨k, hrounds⟩ := exists_rounds m destination source num
  rw [hrounds.staysWithin_iff hdest]
  by_cases hapart : destination ≤ source ∨ source + len < destination
  · have hk := hrounds.of_apart htext hapart
    have hread : ∀ i < k, memcpy m destination source i (source + i) = m (source + i) := by
      intro i hi
      apply memcpy_source
      omega
    constructor
    · rintro ⟨-, hroom, -⟩
      rcases Nat.lt_or_ge len num with hlt | hge
      · exact .inl ⟨hlt, hapart⟩
      · refine .inr ⟨hge, hroom.resolve_left (by omega), fun hlt i hi => ?_⟩
        omega
    · rintro (⟨hlt, -⟩ | ⟨-, hzero, -⟩)
      · exact ⟨hk, .inl (by omega), hread⟩
      · exact ⟨hk, .inr hzero, hread⟩
  · obtain ⟨hlt, hle⟩ : source < destination ∧ destination ≤ source + len := by omega
    obtain rfl := hrounds.of_overlap htext hlt hle
    rw [memcpy_source_iff hlt]
    constructor
    · rintro ⟨hk, hroom, hsame⟩
      exact .inr ⟨by omega, hroom.resolve_left (Nat.lt_irrefl _), fun _ => hsame⟩
    · rintro (⟨-, hapart'⟩ | ⟨hnum, hzero, hsame⟩)
      · exact absurd hapart' hapart
      · exact ⟨by omega, .inr hzero, hsame hlt⟩

/-- A text of so many characters, all the same one, and the same everywhere else. -/
def characters (n : ℕ) : Mem :=
  fun b => if b = 16 + n then 0 else 0x61

theorem textAt_characters (n : ℕ) :
  TextAt (characters n) 16 n
  := by
  refine ⟨fun i hi => ?_, if_pos rfl⟩
  have hne : 16 + i ≠ 16 + n := by omega
  rw [characters, if_neg hne]
  decide

/-- Eight bytes have room for five characters. -/
theorem strncpy_staysWithin_eight :
  StaysWithin (characters 5) 32 16 8 5
  := (strncpy_staysWithin_iff (by decide) (textAt_characters 5)).mpr
    (.inl ⟨by decide, .inr (by decide)⟩)

/-- One byte has no room for one character: the next byte is overwritten. -/
theorem not_staysWithin_one :
  TextAt (characters 1) 16 1 ∧ ¬ StaysWithin (characters 1) 32 16 1 1
  := by
  refine ⟨textAt_characters 1, fun h => ?_⟩
  have hbyte := h.outside 33 (.inr (by decide))
  revert hbyte
  decide

end CString
