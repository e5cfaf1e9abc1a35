import StandaloneSel4.Console.Numerals

/-!
# The grammar of numbers

The C standard says what is a number, and that `strtol` is to read the longest number that the
text begins with. Other texts have to be passed over. What `strtol` takes in instead is computed
here from the text alone, and compared with the length of the longest number.
-/

namespace CString

/-- One or more digits of the base. -/
def Digits (b : ℕ) (p : List UInt8) : Prop :=
  p ≠ [] ∧ ∀ c ∈ p, DigitOf b c

/-- A number in the base, without blanks and sign. In the base zero the prefix tells the base. -/
inductive IsUnsigned (b : ℕ) : List UInt8 → Prop
  | digits {ds} : 2 ≤ b → Digits b ds → IsUnsigned b ds
  | hex {x ds} : b = 16 ∨ b = 0 → isX x → Digits 16 ds → IsUnsigned b (0x30 :: x :: ds)
  | octal {ds} : b = 0 → Digits 8 (0x30 :: ds) → IsUnsigned b (0x30 :: ds)
  | decimal {c ds} : b = 0 → c ≠ 0x30 → Digits 10 (c :: ds) → IsUnsigned b (c :: ds)

/-- A number in the base: blanks, at most one sign, and a number without sign. -/
def IsNumber (b : ℕ) (p : List UInt8) : Prop :=
  ∃ bl, ∃ sg : Sign, ∃ q,
    p = bl ++ (sg.text ++ q) ∧ (∀ x ∈ bl, isspace x) ∧ IsUnsigned b q

/-- The longest number that the text begins with. -/
def LongestNumber (b : ℕ) (text p : List UInt8) : Prop :=
  p <+: text ∧ IsNumber b p ∧ ∀ q, q <+: text → IsNumber b q → q.length ≤ p.length

/-- What `strtol` has found in the text at `nPtr` is the longest number that it begins with. If it
begins with none, what has been found is 0, and the end is the start. -/
structure Converted.Accepts (r : Converted) (b : ℕ) (text : List UInt8) (nPtr : ℕ) : Prop where
  number : ∀ p, LongestNumber b text p → r.endPtr = some (nPtr + p.length)
  none : (∀ p, p <+: text → ¬ IsNumber b p) → r.value = 0 ∧ r.endPtr = some nPtr

/-- The bases that `strtol` knows. -/
def IsBase (b : ℕ) : Prop :=
  b = 0 ∨ 2 ≤ b ∧ b ≤ 36

instance (b : ℕ) (c : UInt8) : Decidable (DigitOf b c) :=
  decidable_of_iff ((digitValue c).any (· < b)) (by simp [DigitOf, Option.any_eq_true])

/-- The character that the text begins with, or its terminator. -/
def first (t : List UInt8) : UInt8 :=
  t.headD 0

/-- How many digits of the base the text begins with. -/
def run (b : ℕ) (t : List UInt8) : ℕ :=
  (t.takeWhile fun c => decide (DigitOf b c)).length

/-- The text begins with what may be the prefix of the base 16. -/
def HexPrefix (t : List UInt8) : Prop :=
  first t = 0x30 ∧ isX (first t.tail)

/-- The text begins with a letter from `H` on, behind which `strtol` goes back. -/
def Beyond (t : List UInt8) : Prop :=
  16 < number (first t)

instance (t : List UInt8) : Decidable (HexPrefix t) :=
  inferInstanceAs (Decidable (_ ∧ _))

instance (t : List UInt8) : Decidable (Beyond t) :=
  inferInstanceAs (Decidable (_ < _))

/-- The base without a prefix of the base 16. -/
def plainBase (b : ℕ) (t : List UInt8) : ℕ :=
  if b = 0 then if first t = 0x30 then 8 else 10 else b

/-- The length of the longest number without sign that the text begins with, or zero. -/
def numberLength (b : ℕ) (t : List UInt8) : ℕ :=
  if (b = 16 ∨ b = 0) ∧ HexPrefix t then
    if run 16 (t.drop 2) = 0 then 1 else 2 + run 16 (t.drop 2)
  else run (plainBase b t) t

/-- How much `strtol` takes in behind an `x`, which is itself given back before some letters. -/
def takenBehind (k : ℕ) (t : List UInt8) : ℕ :=
  if Beyond t then k - 1 else k + run 16 t

/-- How much of the text behind the sign `strtol` takes in. -/
def taken (b : ℕ) (t : List UInt8) : ℕ :=
  if (b = 16 ∨ b = 0) ∧ HexPrefix t then takenBehind 2 (t.drop 2)
  else if b = 16 ∧ isX (first t) then takenBehind 1 t.tail
  else run (plainBase b t) t

/-- The text begins with what `strtol` takes in as a part of a number. -/
def Begins (b : ℕ) (t : List UInt8) : Prop :=
  DigitOf (if b = 0 then 10 else b) (first t) ∨ b = 16 ∧ isX (first t) ∧ ¬ Beyond t.tail

/-- The text begins with an `x` that `strtol` takes for the prefix of the base 16 although there is
no zero before or no digit behind it. -/
def Hangs (b : ℕ) (t : List UInt8) : Prop :=
  b = 16 ∧ isX (first t) ∧ ¬ Beyond t.tail
    ∨ (b = 16 ∨ b = 0) ∧ HexPrefix t ∧ ¬ Beyond (t.drop 2) ∧ ¬ DigitOf 16 (first (t.drop 2))

/-- The text behind the blanks. -/
def behindBlanks (text : List UInt8) : List UInt8 :=
  text.dropWhile isspace

/-- The sign that the text begins with. -/
def signOf (t : List UInt8) : Sign :=
  if first t = 0x2D then .minus else if first t = 0x2B then .plus else .absent

/-- The text behind the sign. -/
def behindSign (t : List UInt8) : List UInt8 :=
  t.drop (signOf t).text.length

variable {t u p q ds text : List UInt8} {r : Converted} {sg : Sign} {c x : UInt8} {b i n : ℕ}

/-! ### Runs of digits -/

theorem exists_cons_of_first (h : first t ≠ 0) :
  ∃ u, t = first t :: u
  := by
  cases t with
  | nil => exact absurd rfl h
  | cons c u => exact ⟨u, rfl⟩

theorem not_digitOf_zero (b : ℕ) :
  ¬ DigitOf b 0
  := fun h => (digitOf_iff.mp h).ne_zero rfl

theorem run_pos_iff :
  0 < run b t ↔ DigitOf b (first t)
  := by
  cases t with
  | nil => exact iff_of_false (Nat.lt_irrefl 0) (not_digitOf_zero b)
  | cons c u =>
      change 0 < run b (c :: u) ↔ DigitOf b c
      rw [run, List.takeWhile_cons]
      by_cases hc : DigitOf b c <;> simp [hc]

theorem run_eq_zero_iff :
  run b t = 0 ↔ ¬ DigitOf b (first t)
  := by
  rw [← run_pos_iff]
  omega

/-- The text is a run of digits and a rest that does not begin with a digit. -/
theorem exists_run (b : ℕ) (t : List UInt8) :
  ∃ ds u, t = ds ++ u ∧ ds.length = run b t ∧ (∀ c ∈ ds, DigitOf b c) ∧ ¬ DigitOf b (first u)
  := by
  refine ⟨_, t.dropWhile fun c => decide (DigitOf b c), List.takeWhile_append_dropWhile.symm, rfl,
    ?_, ?_⟩
  · intro c hc
    simpa using List.all_eq_true.mp List.all_takeWhile c hc
  · intro hfirst
    have hne : t.dropWhile (fun c => decide (DigitOf b c)) ≠ [] := by
      intro hnil
      rw [hnil] at hfirst
      exact not_digitOf_zero b hfirst
    have hhead := List.head_dropWhile_not (fun c => decide (DigitOf b c)) hne
    rw [decide_eq_false_iff_not] at hhead
    apply hhead
    rwa [first, List.headD_eq_head?_getD, List.head?_eq_some_head hne] at hfirst

theorem take_run (b : ℕ) (t : List UInt8) :
  ∀ c ∈ t.take (run b t), DigitOf b c
  := by
  obtain ⟨ds, u, heq, hlen, hds, -⟩ := exists_run b t
  intro c hc
  apply hds
  rwa [← hlen, heq, List.take_left] at hc

theorem run_le_length (b : ℕ) (t : List UInt8) :
  run b t ≤ t.length
  := (List.takeWhile_sublist _).length_le

/-- A part of the text that consists of digits is within the run. -/
theorem length_le_run (h : ds <+: t) (hds : ∀ c ∈ ds, DigitOf b c) :
  ds.length ≤ run b t
  := by
  obtain ⟨u, rfl⟩ := h
  have hds' : ∀ c ∈ ds, decide (DigitOf b c) = true := by simpa using hds
  rw [run, List.takeWhile_append_of_pos hds', List.length_append]
  apply Nat.le_add_right

theorem digitOf_zero (hb : 0 < b) :
  DigitOf b 0x30
  := ⟨0, rfl, hb⟩

/-- `x` is no hexadecimal digit. -/
theorem not_digitOf_isX (hb : b ≤ 33) (hx : isX x) :
  ¬ DigitOf b x
  := by
  intro h
  have hlt := (digitOf_iff.mp h).2
  rw [number_isX hx] at hlt
  omega

/-- Nor is a letter from `H` on. -/
theorem run_of_beyond (h : Beyond t) :
  run 16 t = 0
  := by
  rw [run_eq_zero_iff]
  intro hdigit
  have hlt := (digitOf_iff.mp hdigit).2
  unfold Beyond at h
  omega

theorem exists_cons_of_isX (h : isX (first t)) :
  ∃ x u, t = x :: u ∧ isX x
  := by
  have hne : first t ≠ 0 := by
    intro hzero
    rw [hzero] at h
    cases h
  obtain ⟨u, hu⟩ := exists_cons_of_first hne
  exact ⟨first t, u, hu, h⟩

theorem HexPrefix.exists_cons (h : HexPrefix t) :
  ∃ x u, t = 0x30 :: x :: u ∧ isX x
  := by
  obtain ⟨h0, hx⟩ := h
  obtain ⟨u, hu⟩ := exists_cons_of_first (t := t) (by rw [h0]; decide)
  rw [h0] at hu
  rw [hu, List.tail_cons] at hx
  obtain ⟨x, u', rfl, hx⟩ := exists_cons_of_isX hx
  exact ⟨x, u', hu, hx⟩

/-! ### What is taken in and what should be -/

/-- `strtol` takes something in where the text begins with a digit, or the `x` of a prefix. -/
theorem taken_pos_iff :
  0 < taken b t ↔ Begins b t
  := by
  unfold taken Begins
  by_cases hhex : (b = 16 ∨ b = 0) ∧ HexPrefix t
  · obtain ⟨hb, h0, hx⟩ := hhex
    rw [if_pos ⟨hb, h0, hx⟩, h0]
    apply iff_of_true
    · unfold takenBehind
      split <;> omega
    · left
      apply digitOf_zero
      split <;> omega
  · rw [if_neg hhex]
    by_cases hx : b = 16 ∧ isX (first t)
    · obtain ⟨rfl, hx⟩ := hx
      have hnot : ¬ DigitOf 16 (first t) := not_digitOf_isX (by decide) hx
      have h16 : ¬ (16 = 0) := by decide
      rw [if_pos ⟨rfl, hx⟩, if_neg h16, takenBehind]
      by_cases hbeyond : Beyond t.tail <;> simp [hbeyond, hnot, hx]
    · rw [if_neg hx, run_pos_iff, plainBase]
      have hright : ¬ (b = 16 ∧ isX (first t) ∧ ¬ Beyond t.tail) := fun h => hx ⟨h.1, h.2.1⟩
      rw [or_iff_left hright]
      by_cases hb : b = 0
      · rw [if_pos hb, if_pos hb]
        split
        · rename_i h0
          rw [h0]
          exact iff_of_true (digitOf_zero (by decide)) (digitOf_zero (by decide))
        · rfl
      · rw [if_neg hb, if_neg hb]

/-- `strtol` takes in what it should where no `x` hangs. -/
theorem taken_eq_iff :
  taken b t = numberLength b t ↔ ¬ Hangs b t
  := by
  unfold taken numberLength Hangs
  by_cases hhex : (b = 16 ∨ b = 0) ∧ HexPrefix t
  · obtain ⟨hb, hhexed⟩ := hhex
    have hx : ¬ isX (first t) := by
      rw [hhexed.1]
      decide
    rw [if_pos ⟨hb, hhexed⟩, if_pos ⟨hb, hhexed⟩, takenBehind, ← run_eq_zero_iff]
    by_cases hbeyond : Beyond (t.drop 2)
    · simp [hbeyond, run_of_beyond hbeyond, hx]
    · by_cases hrun : run 16 (t.drop 2) = 0 <;> simp [hbeyond, hrun, hx, hb, hhexed]
  · have hright : ¬ ((b = 16 ∨ b = 0) ∧ HexPrefix t ∧ ¬ Beyond (t.drop 2)
        ∧ ¬ DigitOf 16 (first (t.drop 2))) := fun h => hhex ⟨h.1, h.2.1⟩
    rw [if_neg hhex, if_neg hhex, or_iff_left hright]
    by_cases hx : b = 16 ∧ isX (first t)
    · obtain ⟨rfl, hx⟩ := hx
      have hrun : run (plainBase 16 t) t = 0 :=
        run_eq_zero_iff.mpr (not_digitOf_isX (b := 16) (by decide) hx)
      rw [if_pos ⟨rfl, hx⟩, hrun, takenBehind]
      by_cases hbeyond : Beyond t.tail <;> simp [hbeyond, hx]
    · rw [if_neg hx]
      exact iff_of_true rfl fun h => hx ⟨h.1, h.2.1⟩

/-- Where nothing is taken in there is no number. -/
theorem numberLength_eq_zero (h : taken b t = 0) :
  numberLength b t = 0
  := by
  unfold taken at h
  unfold numberLength
  by_cases hhex : (b = 16 ∨ b = 0) ∧ HexPrefix t
  · rw [if_pos hhex, takenBehind] at h
    split at h <;> omega
  · rw [if_neg hhex] at h ⊢
    by_cases hx : b = 16 ∧ isX (first t)
    · obtain ⟨rfl, hx⟩ := hx
      apply run_eq_zero_iff.mpr (not_digitOf_isX (b := 16) (by decide) hx)
    · rwa [if_neg hx] at h

/-- Only digits and letters are taken in. -/
theorem taken_alnum :
  ∀ c ∈ t.take (taken b t), isdigit c ∨ isalpha c
  := by
  intro c hc
  have hdigit : ∀ {b} {u : List UInt8}, c ∈ u.take (run b u) → isdigit c ∨ isalpha c :=
    fun h => (digitOf_iff.mp (take_run _ _ c h)).alnum
  have hX : ∀ {x}, isX x → isdigit x ∨ isalpha x := by
    intro x hx
    simp only [isX, Bool.or_eq_true, decide_eq_true_eq] at hx
    rcases hx with rfl | rfl <;> exact .inr rfl
  unfold taken at hc
  split at hc
  · rename_i hhex
    obtain ⟨x, u, rfl, hx⟩ := hhex.2.exists_cons
    have hle : takenBehind 2 u ≤ 2 + run 16 u := by
      unfold takenBehind
      split <;> omega
    have hmem := List.take_subset_take_left _ hle hc
    rw [Nat.add_comm, List.take_succ_cons, List.take_succ_cons] at hmem
    rcases List.mem_cons.mp hmem with rfl | hmem
    · exact .inl rfl
    · rcases List.mem_cons.mp hmem with rfl | hmem
      · apply hX hx
      · apply hdigit hmem
  · split at hc
    · rename_i hx
      obtain ⟨rfl, hx⟩ := hx
      obtain ⟨x, u, rfl, hx⟩ := exists_cons_of_isX hx
      have hle : takenBehind 1 u ≤ 1 + run 16 u := by
        unfold takenBehind
        split <;> omega
      rw [List.tail_cons] at hc
      have hmem := List.take_subset_take_left _ hle hc
      rw [Nat.add_comm, List.take_succ_cons] at hmem
      rcases List.mem_cons.mp hmem with rfl | hmem
      · apply hX hx
      · apply hdigit hmem
    · apply hdigit hc

theorem taken_le_length :
  taken b t ≤ t.length
  := by
  unfold taken takenBehind
  split
  · rename_i hhex
    obtain ⟨x, u, rfl, -⟩ := hhex.2.exists_cons
    have hle := run_le_length 16 u
    simp only [List.drop_succ_cons, List.drop_zero, List.length_cons]
    split <;> omega
  · split
    · rename_i hx
      obtain ⟨x, u, rfl, -⟩ := exists_cons_of_isX hx.2
      have hle := run_le_length 16 u
      rw [List.tail_cons, List.length_cons]
      split <;> omega
    · apply run_le_length

/-! ### The longest number -/

/-- A number begins with a digit. -/
theorem IsUnsigned.exists_cons (h : IsUnsigned b q) :
  ∃ c u b', q = c :: u ∧ DigitOf b' c
  := by
  cases h with
  | @digits _ hb hds =>
      obtain ⟨c, u, rfl⟩ := List.exists_cons_of_ne_nil hds.1
      exact ⟨c, u, b, rfl, hds.2 c List.mem_cons_self⟩
  | hex hb hx hds => exact ⟨0x30, _, 16, rfl, digitOf_zero (by decide)⟩
  | octal hb hds => exact ⟨0x30, _, 8, rfl, digitOf_zero (by decide)⟩
  | @decimal c ds hb hc hds => exact ⟨c, ds, 10, rfl, hds.2 c List.mem_cons_self⟩

/-- No number that the text begins with is longer. -/
theorem IsUnsigned.length_le (h : IsUnsigned b q) (hq : q <+: t) :
  q.length ≤ numberLength b t
  := by
  -- In front of an `x` there is one digit at most.
  have hfirst : ∀ b' ≤ 33, HexPrefix t → run b' t ≤ 1 := by
    intro b' hb' hhexed
    obtain ⟨x, u, rfl, hx⟩ := hhexed.exists_cons
    have hnot := not_digitOf_isX hb' hx
    rw [run, List.takeWhile_cons, List.takeWhile_cons]
    by_cases h0 : DigitOf b' 0x30 <;> simp [hnot, h0]
  unfold numberLength
  cases h with
  | digits hb hds =>
      have hle := length_le_run hq hds.2
      split
      · rename_i hhex
        have hone := hfirst b (by omega) hhex.2
        split <;> omega
      · rwa [plainBase, if_neg (by omega)]
  | @hex x ds hb hx hds =>
      obtain ⟨w, rfl⟩ := hq
      have hhexed : HexPrefix (0x30 :: x :: ds ++ w) := ⟨rfl, hx⟩
      have hle : ds.length ≤ run 16 (ds ++ w) := length_le_run (List.prefix_append ds w) hds.2
      have hpos := List.length_pos_iff.mpr hds.1
      rw [if_pos ⟨hb, hhexed⟩]
      change _ ≤ if run 16 (ds ++ w) = 0 then 1 else 2 + run 16 (ds ++ w)
      rw [if_neg (by omega), List.length_cons, List.length_cons]
      omega
  | octal hb hds =>
      have hle := length_le_run hq hds.2
      split
      · rename_i hhex
        have hone := hfirst 8 (by decide) hhex.2
        split <;> omega
      · obtain ⟨w, rfl⟩ := hq
        rw [plainBase, if_pos hb]
        exact hle
  | @decimal c ds hb hc hds =>
      have hle := length_le_run hq hds.2
      obtain ⟨w, rfl⟩ := hq
      have hnot : ¬ HexPrefix (c :: ds ++ w) := fun h => hc h.1
      have hbase : plainBase b (c :: ds ++ w) = 10 := by
        rw [plainBase, if_pos hb]
        exact if_neg hc
      rw [if_neg fun h => hnot h.2, hbase]
      exact hle

/-- There is one of that length. -/
theorem isUnsigned_take (hb : IsBase b) (h : 0 < numberLength b t) :
  IsUnsigned b (t.take (numberLength b t))
  := by
  have hdigits : ∀ {b' n u}, 0 < n → n = run b' u → Digits b' (u.take n) := by
    rintro b' n u hpos rfl
    refine ⟨?_, take_run b' u⟩
    apply List.ne_nil_of_length_pos
    rw [List.length_take_of_le (run_le_length b' u)]
    exact hpos
  unfold numberLength at h ⊢
  by_cases hhex : (b = 16 ∨ b = 0) ∧ HexPrefix t
  · obtain ⟨hb16, hhexed⟩ := hhex
    rw [if_pos ⟨hb16, hhexed⟩]
    obtain ⟨x, u, rfl, hx⟩ := hhexed.exists_cons
    rw [List.drop_succ_cons, List.drop_succ_cons, List.drop_zero]
    split
    · rcases hb16 with rfl | rfl
      · exact .digits (by decide) ⟨List.cons_ne_nil _ _, List.forall_mem_singleton.mpr
          (digitOf_zero (by decide))⟩
      · exact .octal rfl ⟨List.cons_ne_nil _ _, List.forall_mem_singleton.mpr
          (digitOf_zero (by decide))⟩
    · rename_i hrun
      rw [Nat.add_comm, List.take_succ_cons, List.take_succ_cons]
      exact .hex hb16 hx (hdigits (Nat.pos_of_ne_zero hrun) rfl)
  · rw [if_neg hhex] at h ⊢
    have hds := hdigits h rfl
    rcases hb with rfl | ⟨hlo, -⟩
    · obtain ⟨c, u, rfl⟩ : ∃ c u, t = c :: u := by
        cases t with
        | nil => exact absurd h (Nat.lt_irrefl 0)
        | cons c u => exact ⟨c, u, rfl⟩
      obtain ⟨n, hn⟩ := Nat.exists_eq_add_of_lt h
      rw [Nat.zero_add] at hn
      rw [hn, List.take_succ_cons] at hds ⊢
      by_cases hc : c = 0x30
      · obtain rfl := hc
        exact .octal rfl hds
      · rw [plainBase, if_pos rfl, first, List.headD_cons, if_neg hc] at hds
        exact .decimal rfl hc hds
    · rw [plainBase, if_neg (by omega)] at hds ⊢
      exact .digits hlo hds

/-- How long the blanks and the sign are that the text begins with. -/
def start (text : List UInt8) : ℕ :=
  (text.takeWhile isspace).length + (signOf (behindBlanks text)).text.length

theorem signOf_append (t : List UInt8) :
  t = (signOf t).text ++ behindSign t
  := by
  unfold behindSign signOf
  split
  · rename_i h
    obtain ⟨u, hu⟩ := exists_cons_of_first (t := t) (by rw [h]; decide)
    rw [h] at hu
    rw [hu]
    rfl
  · split
    · rename_i h
      obtain ⟨u, hu⟩ := exists_cons_of_first (t := t) (by rw [h]; decide)
      rw [h] at hu
      rw [hu]
      rfl
    · rfl

theorem start_append (text : List UInt8) :
  text = text.takeWhile isspace ++ ((signOf (behindBlanks text)).text
    ++ behindSign (behindBlanks text))
  := by
  rw [← signOf_append]
  exact List.takeWhile_append_dropWhile.symm

/-- What is before a number can be told from the text. -/
theorem IsNumber.exists_unsigned (h : IsNumber b p) (hp : p <+: text) :
  ∃ q, p.length = start text + q.length ∧ q <+: behindSign (behindBlanks text)
    ∧ IsUnsigned b q
  := by
  obtain ⟨bl, sg, q, rfl, hbl, hq⟩ := h
  obtain ⟨w, rfl⟩ := hp
  obtain ⟨c, u, b', rfl, hc⟩ := hq.exists_cons
  obtain ⟨hspace, hminus, hplus⟩ := (digitOf_iff.mp hc).plain
  have hrest : (sg.text ++ c :: u ++ w).takeWhile isspace = []
      ∧ (sg.text ++ c :: u ++ w).dropWhile isspace = sg.text ++ c :: u ++ w := by
    cases sg with
    | absent => exact ⟨List.takeWhile_cons_of_neg hspace, List.dropWhile_cons_of_neg hspace⟩
    | minus => exact ⟨rfl, rfl⟩
    | plus => exact ⟨rfl, rfl⟩
  have hblanks : (bl ++ (sg.text ++ c :: u) ++ w).takeWhile isspace = bl := by
    rw [List.append_assoc, List.takeWhile_append_of_pos hbl, hrest.1, List.append_nil]
  have hbehind : behindBlanks (bl ++ (sg.text ++ c :: u) ++ w) = sg.text ++ c :: u ++ w := by
    rw [behindBlanks, List.append_assoc, List.dropWhile_append_of_pos hbl, hrest.2]
  have hsign : signOf (sg.text ++ c :: u ++ w) = sg := by
    cases sg with
    | absent =>
        apply (if_neg hminus).trans
        exact if_neg hplus
    | minus => rfl
    | plus => rfl
  refine ⟨c :: u, ?_, ?_, hq⟩
  · rw [start, hblanks, hbehind, hsign, List.length_append, List.length_append, Nat.add_assoc]
  · rw [hbehind, behindSign, hsign, List.append_assoc, List.drop_left]
    apply List.prefix_append

theorem numberLength_le_length :
  numberLength b t ≤ t.length
  := by
  unfold numberLength
  split
  · rename_i hhex
    obtain ⟨x, u, rfl, -⟩ := hhex.2.exists_cons
    have hle := run_le_length 16 u
    simp only [List.drop_succ_cons, List.drop_zero, List.length_cons]
    split <;> omega
  · apply run_le_length

/-- The text begins with a number where there is one behind the sign. -/
theorem exists_number (hb : IsBase b) (hn : n = numberLength b (behindSign (behindBlanks text)))
    (hpos : 0 < n) :
  ∃ p, p <+: text ∧ IsNumber b p ∧ p.length = start text + n
  := by
  have hunsigned := isUnsigned_take hb (hn ▸ hpos)
  have hlen : ((behindSign (behindBlanks text)).take n).length = n := by
    apply List.length_take_of_le
    rw [hn]
    apply numberLength_le_length
  rw [← hn] at hunsigned
  refine ⟨text.takeWhile isspace ++ ((signOf (behindBlanks text)).text
    ++ (behindSign (behindBlanks text)).take n), ?_, ⟨_, _, _, rfl, ?_, hunsigned⟩, ?_⟩
  · conv_rhs => rw [start_append text]
    rw [List.prefix_append_right_inj, List.prefix_append_right_inj]
    apply List.take_prefix
  · intro x hx
    exact List.all_eq_true.mp List.all_takeWhile x hx
  · rw [List.length_append, List.length_append, hlen, start, Nat.add_assoc]

/-- What is accepted in a text, by the length of the longest number behind its sign. -/
theorem accepts_iff (hb : IsBase b) (hn : n = numberLength b (behindSign (behindBlanks text))) :
  r.Accepts b text i ↔
    if n = 0 then r.value = 0 ∧ r.endPtr = some i else r.endPtr = some (i + (start text + n))
  := by
  have hle : ∀ p, p <+: text → IsNumber b p → 0 < n ∧ p.length ≤ start text + n := by
    intro p hp hnumber
    obtain ⟨q, hlen, hq, hunsigned⟩ := hnumber.exists_unsigned hp
    have hle := hunsigned.length_le hq
    obtain ⟨c, u, -, rfl, -⟩ := hunsigned.exists_cons
    rw [List.length_cons] at hlen hle
    omega
  by_cases hzero : n = 0
  · have hnone : ∀ p, p <+: text → ¬ IsNumber b p := by
      intro p hp hnumber
      have hpos := (hle p hp hnumber).1
      omega
    rw [if_pos hzero]
    constructor
    · intro h
      apply h.none hnone
    · intro h
      exact ⟨fun p hp => absurd hp.2.1 (hnone p hp.1), fun _ => h⟩
  · obtain ⟨p, hp, hnumber, hlen⟩ := exists_number hb hn (Nat.pos_of_ne_zero hzero)
    rw [if_neg hzero]
    constructor
    · intro h
      rw [← hlen]
      apply h.number p ⟨hp, hnumber, ?_⟩
      intro q hq hqnumber
      rw [hlen]
      apply (hle q hq hqnumber).2
    · intro h
      constructor
      · rintro q ⟨hq, hqnumber, hmax⟩
        have hge := hmax p hp hnumber
        have hlen' : q.length = start text + n := by
          apply Nat.le_antisymm (hle q hq hqnumber).2
          rwa [← hlen]
        rw [h, hlen']
      · intro hnone
        exact absurd hnumber (hnone p hp)

end CString
