import StandaloneSel4.Console.Strtol
import Mathlib.Data.List.Induction
import Mathlib.Data.Nat.Digits.Defs

/-!
# Numerals

What `strtol` makes of a numeral in its base, behind blanks and a sign: the number that the numeral
stands for, as far as a `long` goes.
-/

namespace CString

/-- The value of a character as a digit, if it is one in any base. -/
def digitValue (c : UInt8) : Option ℕ :=
  if 0x30 ≤ c.toNat ∧ c.toNat ≤ 0x39 then some (c.toNat - 0x30)
  else if 0x41 ≤ c.toNat ∧ c.toNat ≤ 0x5A then some (c.toNat - 0x41 + 10)
  else if 0x61 ≤ c.toNat ∧ c.toNat ≤ 0x7A then some (c.toNat - 0x61 + 10)
  else none

/-- The character is valid as a digit in the base. -/
def DigitOf (b : ℕ) (c : UInt8) : Prop :=
  ∃ d, digitValue c = some d ∧ d < b

/-- The number that digits stand for in the base. -/
def numeral (b : ℕ) (ds : List UInt8) : ℕ :=
  Nat.ofDigits b (ds.reverse.map fun c => (digitValue c).getD 0)

/-- The sign of a number, which may be left out. -/
inductive Sign where
  | absent
  | minus
  | plus
  deriving DecidableEq

/-- The text of the sign. -/
def Sign.text : Sign → List UInt8
  | absent => []
  | minus => [0x2D]
  | plus => [0x2B]

/-- What the sign multiplies by. -/
def Sign.value : Sign → ℤ
  | absent => 1
  | minus => -1
  | plus => 1

/-- The closest number that is a `long`. -/
def clamp (x : ℤ) : ℤ :=
  max longMin (min longMax x)

/-- `x`, in either case. -/
def isX (c : UInt8) : Bool :=
  c = 0x78 || c = 0x58

variable {s t bl ds rest : List UInt8} {scan : Scan} {sg : Sign} {sign base : ℤ} {c x y : UInt8}
  {b d i pos pos₁ pos₂ v : ℕ}

/-! ### Digits -/

/-- The characters that `strtol` takes for digits are the digits, with their values. -/
theorem digitValue_eq_some_iff :
  digitValue c = some d ↔ number c = d
  := by
  rw [number_eq, digitValue]
  split_ifs <;> grind

theorem digitOf_iff :
  DigitOf b c ↔ IsDigit b c
  := by
  constructor
  · rintro ⟨d, hd, hlt⟩
    rw [digitValue_eq_some_iff] at hd
    unfold IsDigit
    omega
  · rintro ⟨hlo, hhi⟩
    refine ⟨(number c).toNat, ?_, by omega⟩
    rw [digitValue_eq_some_iff, Int.toNat_of_nonneg hlo]

theorem DigitOf.getD (h : DigitOf b c) :
  (digitValue c).getD 0 = (number c).toNat
  := by
  obtain ⟨d, hd, -⟩ := h
  have hnum := digitValue_eq_some_iff.mp hd
  rw [hd, Option.getD_some, hnum, Int.toNat_natCast]

/-- A digit more. -/
theorem numeral_append (ds : List UInt8) (c : UInt8) :
  numeral b (ds ++ [c]) = (digitValue c).getD 0 + b * numeral b ds
  := by
  rw [numeral, List.reverse_append, List.reverse_singleton, List.singleton_append, List.map_cons,
    Nat.ofDigits_cons]
  rfl

/-- The loop over the digits computes the number that they stand for. -/
theorem valueFrom_eq_numeral (hds : ∀ c ∈ ds, DigitOf b c) :
  valueFrom b 0 ds = numeral b ds
  := by
  induction ds using List.reverseRecOn with
  | nil => rfl
  | append_singleton ds c ih =>
      have hc : DigitOf b c := hds c (List.mem_append_right ds List.mem_cons_self)
      have hinit : ∀ c ∈ ds, DigitOf b c := fun c hc => hds c (List.mem_append_left _ hc)
      rw [numeral_append, hc.getD, ← ih hinit, valueFrom, List.foldl_append, Nat.mul_comm,
        Nat.add_comm]
      rfl

/-- A digit is a character that stands behind a number, for `strtol`. -/
theorem IsDigit.alnum (h : IsDigit b c) :
  isdigit c ∨ isalpha c
  := by
  have hlo := h.1
  rw [number_eq] at hlo
  simp only [isdigit, isalpha, Bool.or_eq_true, Bool.and_eq_true, decide_eq_true_eq,
    UInt8.le_iff_toNat_le, UInt8.reduceToNat]
  split_ifs at hlo <;> omega

/-- A digit is neither a blank nor a sign. -/
theorem IsDigit.plain (h : IsDigit b c) :
  ¬ isspace c ∧ c ≠ 0x2D ∧ c ≠ 0x2B
  := by
  have hlo := h.1
  refine ⟨?_, ?_, ?_⟩
  · intro hspace
    simp only [isspace, Bool.or_eq_true, decide_eq_true_eq] at hspace
    rcases hspace with rfl | rfl <;> exact absurd hlo (by decide)
  · rintro rfl
    exact absurd hlo (by decide)
  · rintro rfl
    exact absurd hlo (by decide)

/-- `x` has the value 33. -/
theorem number_isX (h : isX c) :
  number c = 33
  := by
  simp only [isX, Bool.or_eq_true, decide_eq_true_eq] at h
  rcases h with rfl | rfl <;> rfl

/-- The limits are those of a `long`. -/
theorem clamp_signed (sg : Sign) (v : ℕ) :
  clamp (sg.value * v) = sg.value * (min v (limit sg.value) : ℕ)
    ∧ (limit sg.value < v ↔ clamp (sg.value * v) ≠ sg.value * v)
  := by
  have hmin : longMin = -2 ^ 63 := rfl
  have hmax : longMax = 2 ^ 63 - 1 := rfl
  have hplus : limit 1 = 2 ^ 63 - 1 := rfl
  have hminus : limit (-1) = 2 ^ 63 := rfl
  unfold clamp
  cases sg <;> simp only [Sign.value, hmin, hmax, hplus, hminus] <;> omega

/-- What has been read is the number, as far as a `long` goes. -/
theorem Scan.Reads.clamp (h : scan.Reads sg.value v) :
  scan.sum = CString.clamp (sg.value * v)
    ∧ scan.errno = if CString.clamp (sg.value * v) = sg.value * v then none else some .erange
  := by
  obtain ⟨hclamp, hiff⟩ := clamp_signed sg v
  rw [hclamp] at hiff ⊢
  rw [h.sum, h.errno]
  refine ⟨rfl, ?_⟩
  by_cases hlt : limit sg.value < v
  · rw [if_pos hlt, if_neg (hiff.mp hlt)]
  · rw [if_neg hlt, if_pos (not_not.mp (mt hiff.mpr hlt))]

/-! ### Reading on -/

theorem get_of_drop (hs : s.drop pos = c :: rest) :
  s[pos]? = some c
  := by
  rw [← Nat.add_zero pos, ← List.getElem?_drop, hs]
  rfl

theorem drop_of_append (hs : s.drop pos = t ++ rest) :
  s.drop (pos + t.length) = rest
  := by
  rw [← List.drop_drop, hs, List.drop_left]

theorem skipIf_of_drop {p : UInt8 → Bool} (hs : s.drop pos = c :: rest) :
  skipIf s p pos = some (if p c then pos + 1 else pos)
  := by
  rw [skipIf, get_of_drop hs]
  rfl

/-- `skipBlanks` goes over the blanks. -/
theorem skipBlanks_append (hbl : ∀ x ∈ bl, isspace x) (hc : ¬ isspace c) :
  skipBlanks (bl ++ c :: rest) pos = some (pos + bl.length)
  := by
  induction bl generalizing pos with
  | nil =>
      rw [List.nil_append, skipBlanks, if_neg hc]
      rfl
  | cons x bl ih =>
      obtain ⟨hx, hbl⟩ := List.forall_mem_cons.mp hbl
      rw [List.cons_append, skipBlanks, if_pos hx, ih hbl, List.length_cons]
      congr 1
      omega

/-- A sign is read if it is not followed by another one that `strtol` would take for its own. -/
theorem readSign_text (hs : s.drop pos = sg.text ++ c :: rest)
    (hminus : sg = .absent → c ≠ 0x2D) (hplus : sg ≠ .plus → c ≠ 0x2B) :
  readSign s pos = some (sg.value, pos + sg.text.length)
  := by
  unfold readSign
  cases sg with
  | absent =>
      have hs : s.drop pos = c :: rest := hs
      have hplus : ¬ decide (c = 0x2B) := by simpa using hplus nofun
      simp only [get_of_drop hs, Option.bind_eq_bind, Option.bind_some, if_neg (hminus rfl),
        skipIf_of_drop hs, if_neg hplus]
      rfl
  | minus =>
      have hs : s.drop pos = 0x2D :: c :: rest := hs
      have hs' : s.drop (pos + 1) = c :: rest := drop_of_append (t := [0x2D]) hs
      have hplus : ¬ decide (c = 0x2B) := by simpa using hplus nofun
      simp only [get_of_drop hs, Option.bind_eq_bind, Option.bind_some, if_true,
        skipIf_of_drop hs', if_neg hplus]
      rfl
  | plus =>
      have hs : s.drop pos = 0x2B :: c :: rest := hs
      have hne : (0x2B : UInt8) ≠ 0x2D := by decide
      simp only [get_of_drop hs, Option.bind_eq_bind, Option.bind_some, if_neg hne,
        skipIf_of_drop hs]
      rfl

/-- A zero in front is skipped in the bases 8 and 16, and makes the base 0 the base 8, if it is not
the beginning of a prefix. -/
theorem readBase_zero (hs : s.drop pos = 0x30 :: c :: rest)
    (hbase : base = 8 ∨ (base = 16 ∨ base = 0) ∧ ¬ isX c) :
  readBase s base pos = some (if base = 0 then 8 else base, pos + 1)
  := by
  have hs' : s.drop (pos + 1) = c :: rest := drop_of_append (t := [0x30]) hs
  unfold readBase
  rcases hbase with rfl | ⟨rfl | rfl, hx⟩
  · have h8 : ¬ (8 : ℤ) = 16 := by decide
    have h0 : ¬ (8 : ℤ) = 0 := by decide
    simp only [if_neg h8, if_true, if_neg h0, skipIf_of_drop hs, Option.bind_eq_bind,
      Option.bind_some]
    rfl
  · have h0 : ¬ (16 : ℤ) = 0 := by decide
    simp only [if_true, if_neg h0, skipIf_of_drop hs, decide_true, skipIf_of_drop hs',
      Option.bind_eq_bind, Option.bind_some]
    rw [isX] at hx
    rw [if_neg hx]
    rfl
  · have h16 : ¬ (0 : ℤ) = 16 := by decide
    have h8 : ¬ (0 : ℤ) = 8 := by decide
    have hx' : ¬ (c = 0x78 ∨ c = 0x58) := by simpa [isX] using hx
    simp only [if_neg h16, if_neg h8, if_true, get_of_drop hs, get_of_drop hs',
      Option.bind_eq_bind, Option.bind_some, if_neg hx']
    rfl

/-- Otherwise, without a prefix, nothing is skipped, and the base 0 becomes the base 10. -/
theorem readBase_none (hs : s.drop pos = c :: rest)
    (hzero : base = 16 ∨ base = 8 ∨ base = 0 → c ≠ 0x30) (hx : base = 16 → ¬ isX c) :
  readBase s base pos = some (if base = 0 then 10 else base, pos)
  := by
  have hskip : skipIf s (· = 0x30) pos = some (if c = 0x30 then pos + 1 else pos) := by
    simpa using skipIf_of_drop (p := (· = 0x30)) hs
  unfold readBase
  by_cases h16 : base = 16
  · obtain rfl := h16
    have h0 : ¬ (16 : ℤ) = 0 := by decide
    have hx := hx rfl
    rw [isX] at hx
    simp only [if_true, if_neg h0, hskip, if_neg (hzero (.inl rfl)), skipIf_of_drop hs, if_neg hx,
      Option.bind_eq_bind, Option.bind_some]
    rfl
  · rw [if_neg h16]
    by_cases h8 : base = 8
    · obtain rfl := h8
      have h0 : ¬ (8 : ℤ) = 0 := by decide
      simp only [if_true, if_neg h0, hskip, if_neg (hzero (.inr (.inl rfl))), Option.bind_eq_bind,
        Option.bind_some]
      rfl
    · rw [if_neg h8]
      by_cases h0 : base = 0
      · simp only [if_pos h0, get_of_drop hs, if_neg (hzero (.inr (.inr h0))), Option.bind_eq_bind,
          Option.bind_some]
        rfl
      · simp only [if_neg h0, Option.bind_eq_bind, Option.bind_some]
        rfl

/-- Nothing has been read. -/
theorem reads_zero (sign : ℤ) (pos : ℕ) :
  (⟨pos, 0, none⟩ : Scan).Reads sign 0
  := by
  constructor
  · rw [Nat.zero_min]
    exact (Int.mul_zero sign).symm
  · rw [if_neg (Nat.not_lt_zero _)]

/-- What is before the end of a part of the text is its last character. -/
theorem before_append (hs : s.drop pos = ds ++ rest) (hne : ds ≠ []) :
  before s (pos + ds.length) = some (ds.getLast hne)
  := by
  have hpos : 0 < ds.length := List.length_pos_iff.mpr hne
  have hindex : pos + ds.length - 1 = pos + (ds.length - 1) := by omega
  rw [before, if_neg (by omega), hindex, ← List.getElem?_drop, hs,
    List.getElem?_append_left (by omega), List.getLast_eq_getElem]
  apply List.getElem?_eq_getElem

/-- A character that is not a digit ends the loop, unless it is a letter behind an `x`. -/
theorem readDigits_end (hc : ¬ IsDigit b c)
    (hprev : b = 16 → 16 < number c → ∃ y, before s scan.pos = some y ∧ ¬ isX y) :
  readDigits some s b sign (c :: rest) scan = some scan
  := by
  by_cases hhex : b = 16 ∧ 16 < number c
  · obtain ⟨rfl, hlt⟩ := hhex
    obtain ⟨y, hy, hx⟩ := hprev rfl hlt
    have hne : c ≠ 0 := by
      rintro rfl
      exact absurd hlt (by decide)
    have hnot : ¬ (number c < (16 : ℕ) ∧ number c ≠ -1) := by omega
    have hx' : ¬ (y = 0x78 ∨ y = 0x58) := by simpa [isX] using hx
    rw [readDigits, if_neg hne, if_neg hnot, if_pos ⟨rfl, hlt⟩, hy, Option.bind_eq_bind,
      Option.bind_some, if_neg hx']
    rfl
  · have hnot : ¬ (number c < b ∧ number c ≠ -1) := by
      rintro ⟨hlt, hne⟩
      have hge : -1 ≤ number c := by
        rw [number_eq]
        split_ifs <;> omega
      exact hc ⟨by omega, hlt⟩
    have hhex : ¬ ((b : ℤ) = 16 ∧ (b : ℤ) < number c) := by
      rintro ⟨hb, hlt⟩
      exact hhex ⟨by omega, by omega⟩
    unfold readDigits
    rw [if_neg hnot, if_neg hhex]
    split <;> rfl

/-- The loop reads the digits up to a character that is not one. -/
theorem readDigits_run (sg : Sign) (hb : 2 ≤ b) (hb' : b ≤ 36) (hs : s.drop pos = ds ++ c :: rest)
    (hds : ∀ x ∈ ds, IsDigit b x) (hc : ¬ IsDigit b c)
    (hprev : b = 16 → 16 < number c → ∃ y, before s (pos + ds.length) = some y ∧ ¬ isX y) :
  ∃ scan, readDigits some s b sg.value (s.drop pos) ⟨pos, 0, none⟩ = some scan
    ∧ scan.pos = pos + ds.length ∧ scan.Reads sg.value (valueFrom b 0 ds)
  := by
  have hsign : sg.value = 1 ∨ sg.value = -1 := by cases sg <;> simp [Sign.value]
  obtain ⟨scan, hloop, hpos, hreads⟩ :=
    readDigits_append (s := s) (c :: rest) hb hb' hsign hds (reads_zero sg.value pos)
  refine ⟨scan, ?_, hpos, hreads⟩
  rw [hs, hloop]
  apply readDigits_end hc
  rw [hpos]
  apply hprev

/-- What `strtol` does from the digits on. -/
theorem strtol_eq (hc : s[i]? = some c) (hne : c ≠ 0)
    (hskip : skipBlanks (s.drop i) i = some pos₁)
    (hsign : readSign s pos₁ = some (sign, pos₂))
    (hbase : readBase s base pos₂ = some ((b : ℤ), pos)) (hb : 2 ≤ b) (hb' : b ≤ 36) :
  strtolWith some s i base = (readDigits some s b sign (s.drop pos) ⟨pos, 0, none⟩).bind fun scan =>
    (before s scan.pos).map fun prev =>
      ⟨scan.sum, some (if isdigit prev ∨ isalpha prev then scan.pos else i), scan.errno⟩
  := by
  have hvalid : ¬ (((b : ℤ) < 2 ∨ 36 < (b : ℤ)) ∧ (b : ℤ) ≠ 0) := by omega
  unfold strtolWith
  simp only [hc, if_neg hne, hskip, hsign, hbase, if_neg hvalid, Option.bind_eq_bind,
    Option.bind_some]
  congr 1
  funext scan
  cases before s scan.pos with
  | none => rfl
  | some prev =>
      rw [Option.bind_some, Option.map_some]
      split_ifs <;> first | rfl | tauto

/-- The prefix of a numeral, a zero if any, does not change what is read. -/
theorem exists_readBase (hb : 2 ≤ b) (hs : s.drop pos = ds ++ c :: rest)
    (hds : ∀ x ∈ ds, IsDigit b x) (hne : ds ≠ [])
    (hx : ¬ (b = 16 ∧ ds = [0x30] ∧ isX c)) :
  ∃ z ds', readBase s b pos = some ((b : ℤ), pos + z) ∧ s.drop (pos + z) = ds' ++ c :: rest
    ∧ z + ds'.length = ds.length ∧ (∀ x ∈ ds', IsDigit b x)
    ∧ valueFrom b 0 ds' = valueFrom b 0 ds
  := by
  have h0 : ¬ (b : ℤ) = 0 := by omega
  obtain ⟨x, ds, rfl⟩ := List.exists_cons_of_ne_nil hne
  obtain ⟨hx0, hds'⟩ := List.forall_mem_cons.mp hds
  have hcons : s.drop pos = x :: (ds ++ c :: rest) := hs
  by_cases hzero : (b = 16 ∨ b = 8) ∧ x = 0x30
  · obtain ⟨hb16, rfl⟩ := hzero
    obtain ⟨y, rest', hy⟩ : ∃ y rest', ds ++ c :: rest = y :: rest' := by
      cases ds <;> exact ⟨_, _, rfl⟩
    have hbase : (b : ℤ) = 8 ∨ ((b : ℤ) = 16 ∨ (b : ℤ) = 0) ∧ ¬ isX y := by
      rcases hb16 with rfl | rfl
      · refine .inr ⟨.inl rfl, ?_⟩
        intro hxy
        cases ds with
        | nil =>
            obtain ⟨rfl, -⟩ := List.cons.inj hy
            exact hx ⟨rfl, rfl, hxy⟩
        | cons y' ds =>
            obtain ⟨rfl, -⟩ := List.cons.inj hy
            have hlt := (hds' y' List.mem_cons_self).2
            rw [number_isX hxy] at hlt
            exact absurd hlt (by decide)
      · exact .inl rfl
    refine ⟨1, ds, ?_, drop_of_append (t := [0x30]) hcons, ?_, hds', ?_⟩
    · rw [readBase_zero (by rw [hcons, hy]) hbase, if_neg h0]
    · rw [List.length_cons, Nat.add_comm]
    · rw [valueFrom, valueFrom, List.foldl_cons, Nat.zero_mul]
      rfl
  · refine ⟨0, x :: ds, ?_, hs, Nat.zero_add _, hds, rfl⟩
    rw [readBase_none hcons, if_neg h0, Nat.add_zero]
    · rintro hb16 rfl
      exact hzero ⟨by omega, rfl⟩
    · intro hb16 hxx
      have hlt := hx0.2
      rw [number_isX hxx] at hlt
      omega

/-- What is behind the blanks is no blank and does not end the text, whether there is a sign or
not. -/
theorem exists_behind (sg : Sign) (hds : ∀ x ∈ ds, IsDigit b x) (hne : ds ≠ [])
    (rest : List UInt8) :
  ∃ y rest', sg.text ++ (ds ++ rest) = y :: rest' ∧ ¬ isspace y ∧ y ≠ 0
  := by
  obtain ⟨x, ds', rfl⟩ := List.exists_cons_of_ne_nil hne
  have hx := hds x List.mem_cons_self
  cases sg with
  | absent => exact ⟨x, _, rfl, hx.plain.1, hx.ne_zero⟩
  | minus => exact ⟨0x2D, _, rfl, by decide, by decide⟩
  | plus => exact ⟨0x2B, _, rfl, by decide, by decide⟩

/-- The first character of a text that begins with blanks does not end it either. -/
theorem exists_first (hs : s.drop i = bl ++ y :: rest) (hbl : ∀ x ∈ bl, isspace x) (hy : y ≠ 0) :
  ∃ z, s[i]? = some z ∧ z ≠ 0
  := by
  cases bl with
  | nil => exact ⟨y, get_of_drop hs, hy⟩
  | cons z bl =>
      refine ⟨z, get_of_drop hs, ?_⟩
      rintro rfl
      exact absurd (hbl 0 List.mem_cons_self) (by decide)

/-- A numeral behind blanks and a sign is converted, and the end is behind the numeral. -/
theorem exists_strtol_numeral (sg : Sign) (hb : 2 ≤ b) (hb' : b ≤ 36)
    (hs : s.drop i = bl ++ (sg.text ++ (ds ++ c :: rest))) (hbl : ∀ x ∈ bl, isspace x)
    (hds : ∀ x ∈ ds, IsDigit b x) (hne : ds ≠ []) (hc : ¬ IsDigit b c)
    (hx : ¬ (b = 16 ∧ ds = [0x30] ∧ isX c)) :
  ∃ scan : Scan, scan.Reads sg.value (valueFrom b 0 ds)
    ∧ strtolWith some s i b = some
        ⟨scan.sum, some (i + bl.length + sg.text.length + ds.length), scan.errno⟩
  := by
  have hs₁ : s.drop (i + bl.length) = sg.text ++ (ds ++ c :: rest) := drop_of_append hs
  have hs₂ : s.drop (i + bl.length + sg.text.length) = ds ++ c :: rest := drop_of_append hs₁
  -- the blanks and the sign
  obtain ⟨y, rest', hy, hyspace, hy0⟩ := exists_behind sg hds hne (c :: rest)
  have hskip : skipBlanks (s.drop i) i = some (i + bl.length) := by
    rw [hs, hy]
    apply skipBlanks_append hbl hyspace
  have hsign : readSign s (i + bl.length) = some (sg.value, i + bl.length + sg.text.length) := by
    obtain ⟨x, ds', rfl⟩ := List.exists_cons_of_ne_nil hne
    obtain ⟨-, hminus, hplus⟩ := (hds x List.mem_cons_self).plain
    apply readSign_text hs₁ (fun _ => hminus) (fun _ => hplus)
  -- the base and the digits
  obtain ⟨z, ds', hbase, hs₃, hlen, hds', hvalue⟩ := exists_readBase hb hs₂ hds hne hx
  have hlast : before s (i + bl.length + sg.text.length + ds.length) = some (ds.getLast hne) :=
    before_append hs₂ hne
  have hdigit := hds _ (List.getLast_mem hne)
  have hend : i + bl.length + sg.text.length + z + ds'.length
      = i + bl.length + sg.text.length + ds.length := by omega
  obtain ⟨scan, hread, hpos, hreads⟩ := readDigits_run sg hb hb' hs₃ hds' hc <| by
    intro hb16 _
    rw [hend]
    refine ⟨_, hlast, ?_⟩
    intro hlastx
    have hlt := hdigit.2
    rw [number_isX hlastx] at hlt
    omega
  rw [hvalue] at hreads
  rw [hend] at hpos
  rw [hy] at hs
  obtain ⟨z, hz, hz0⟩ := exists_first hs hbl hy0
  refine ⟨scan, hreads, ?_⟩
  rw [strtol_eq hz hz0 hskip hsign hbase hb hb', hread, Option.bind_some, hpos, hlast,
    Option.map_some, if_pos hdigit.alnum]


/-- With an `errno` the conversion is exact, as far as a `long` goes: behind blanks and a sign the
digits in the base are given the number that they stand for, or the closest `long`, with `errno` set
exactly then, and the end is behind the digits. Since there is a result, no `long` overflows. -/
theorem strtolWith_clamped (hb : 2 ≤ b) (hb' : b ≤ 36)
    (hs : s.drop i = bl ++ (sg.text ++ (ds ++ c :: rest))) (hbl : ∀ x ∈ bl, isspace x)
    (hds : ∀ x ∈ ds, DigitOf b x) (hne : ds ≠ []) (hc : ¬ DigitOf b c)
    (hx : ¬ (b = 16 ∧ ds = [0x30] ∧ isX c)) :
  strtolWith some s i b = some
    { value := clamp (sg.value * numeral b ds)
      endPtr := some (i + bl.length + sg.text.length + ds.length)
      errno := if clamp (sg.value * numeral b ds) = sg.value * numeral b ds then none
        else some .erange }
  := by
  have hds' : ∀ x ∈ ds, IsDigit b x := fun x hx => digitOf_iff.mp (hds x hx)
  obtain ⟨scan, hreads, hstrtol⟩ := exists_strtol_numeral sg hb hb' hs hbl hds' hne
    (fun h => hc (digitOf_iff.mpr h)) hx
  obtain ⟨hsum, herrno⟩ := hreads.clamp
  rw [hstrtol, ← valueFrom_eq_numeral hds, hsum, herrno]

/-- The closest `long` is the number itself if that is one. -/
theorem clamp_eq_iff {n : ℤ} :
  clamp n = n ↔ longMin ≤ n ∧ n ≤ longMax
  := by
  have hle : longMin ≤ longMax := by decide
  unfold clamp
  omega

/-- In the program the conversion is exact, with the closest `long` and `errno` set where the number
is not one, exactly if it is one: where `errno` would have to be set there is no result. -/
theorem strtol_clamped_iff (hb : 2 ≤ b) (hb' : b ≤ 36)
    (hs : s.drop i = bl ++ (sg.text ++ (ds ++ c :: rest))) (hbl : ∀ x ∈ bl, isspace x)
    (hds : ∀ x ∈ ds, DigitOf b x) (hne : ds ≠ []) (hc : ¬ DigitOf b c)
    (hx : ¬ (b = 16 ∧ ds = [0x30] ∧ isX c)) :
  strtol s i b = some
      { value := clamp (sg.value * numeral b ds)
        endPtr := some (i + bl.length + sg.text.length + ds.length)
        errno := if clamp (sg.value * numeral b ds) = sg.value * numeral b ds then none
          else some .erange }
    ↔ longMin ≤ sg.value * numeral b ds ∧ sg.value * numeral b ds ≤ longMax
  := by
  have hstrtol := strtolWith_clamped hb hb' hs hbl hds hne hc hx
  rw [strtol_eq_some_iff, and_iff_right hstrtol, ← clamp_eq_iff]
  dsimp only
  split
  · rename_i heq
    exact iff_of_true rfl heq
  · rename_i hne
    exact iff_of_false nofun hne

/-- The least `long`, in base 16. -/
theorem strtol_clamped_min :
  strtol ([0x09] ++ ([0x2D] ++ ([0x38] ++ List.replicate 15 0x30 ++ [0x67, 0]))) 0 16
    = some ⟨-2 ^ 63, some 18, none⟩
  := by
  have hds : ∀ x ∈ [0x38] ++ List.replicate 15 0x30, DigitOf 16 x := by
    intro x hx
    have hcases : x = 0x38 ∨ x = 0x30 := by
      simpa using hx
    rcases hcases with rfl | rfl
    · exact ⟨8, rfl, by decide⟩
    · exact ⟨0, rfl, by decide⟩
  have hc : ¬ DigitOf 16 0x67 := by
    rintro ⟨d, hd, hlt⟩
    obtain rfl : 16 = d := Option.some.inj hd
    exact absurd hlt (by decide)
  have hs (ds : List UInt8) : List.drop 0 ([0x09] ++ ([0x2D] ++ (ds ++ [0x67, 0])))
      = [0x09] ++ (Sign.minus.text ++ (ds ++ 0x67 :: [0])) := rfl
  have hiff := strtol_clamped_iff (b := 16) (by decide) (by decide) (hs _)
    (List.forall_mem_singleton.mpr rfl) hds (by simp) hc (by simp)
  exact hiff.mpr (by decide)

/-- Of twenty nines, which do not stand for a `long`, nothing comes back. -/
theorem not_strtol_clamped :
  ¬ strtol (List.replicate 20 0x39 ++ [0]) 0 10 = some
      { value := clamp (Sign.absent.value * numeral 10 (List.replicate 20 0x39))
        endPtr := some 20
        errno := if clamp (Sign.absent.value * numeral 10 (List.replicate 20 0x39))
            = Sign.absent.value * numeral 10 (List.replicate 20 0x39) then none
          else some .erange }
  := nofun

end CString
