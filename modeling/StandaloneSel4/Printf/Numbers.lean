import StandaloneSel4.Console.Decimal
import StandaloneSel4.Console.Scanning
import StandaloneSel4.Printf.Language
import Mathlib.Data.List.TakeWhile

/-!
# Numbers read back

What `strtol` makes of the text of an integer, in the base that it was put out in: the integer,
unless the buffer of `_ntoa_long` has cut off its sign or its first digits, or it is no `long`. A
zero may have no digit at all, and comes back nevertheless.
-/

namespace Printf

open CString (IsDigit isspace number valueFrom Sign strtol)

variable {D : Doubles} {s rest ds : List UInt8} {flags : Flags} {negative : Bool}
  {base prec width value i : ℕ} {c : UInt8}

/-! ### Digits -/

theorem number_digitChar {d : ℕ} (flags : Flags) (hd : d < 36) :
  number (digitChar flags d) = d
  := by
  rw [digitChar, CString.number_eq]
  split
  · rw [UInt8.toNat_ofNat']
    split_ifs <;> omega
  · cases flags.uppercase
    · simp only [Bool.false_eq_true, if_false, UInt8.toNat_ofNat']
      split_ifs <;> omega
    · simp only [if_true, UInt8.toNat_ofNat']
      split_ifs <;> omega

theorem digitChar_isDigit {d : ℕ} (flags : Flags) (hd : d < base) (hbase : base ≤ 36) :
  IsDigit base (digitChar flags d)
  := by
  unfold IsDigit
  rw [number_digitChar flags (by omega)]
  omega

theorem digitsOf_lt (hbase : 1 < base) (value : ℕ) :
  ∀ d ∈ digitsOf base value, d < base
  := by
  intro d hd
  unfold digitsOf at hd
  split at hd
  · rw [List.mem_singleton.mp hd]
    omega
  · apply Nat.digits_lt_base hbase hd

theorem valueFrom_digitChars (flags : Flags) (hbase : base ≤ 36) {L : List ℕ}
    (h : ∀ d ∈ L, d < base) :
  valueFrom base 0 (L.reverse.map (digitChar flags)) = Nat.ofDigits base L
  := by
  induction L with
  | nil => rfl
  | cons d L ih =>
      obtain ⟨hd, hL⟩ := List.forall_mem_cons.mp h
      have hstep : valueFrom base 0 ((d :: L).reverse.map (digitChar flags))
          = valueFrom base 0 (L.reverse.map (digitChar flags)) * base
            + (number (digitChar flags d)).toNat := by
        rw [List.reverse_cons, List.map_append, valueFrom, List.foldl_append]
        rfl
      rw [hstep, ih hL, number_digitChar flags (by omega), Int.toNat_natCast, Nat.ofDigits_cons,
        Nat.mul_comm, Nat.add_comm]

theorem ofDigits_digitsOf_take (hbase : 1 < base) (value k : ℕ) (hk : 0 < k) :
  Nat.ofDigits base ((digitsOf base value).take k) = value % base ^ k
  := by
  unfold digitsOf
  split
  · obtain ⟨k, rfl⟩ := Nat.exists_eq_succ_of_ne_zero hk.ne'
    rename_i hvalue
    rw [hvalue, List.take_succ_cons, List.take_nil, Nat.zero_mod]
    rfl
  · rw [Nat.self_mod_pow_eq_ofDigits_take k value hbase]

/-- The digits that are put out stand for the number, or for its last digits. -/
theorem valueFrom_digitsText (hbase : 1 < base) (hbase' : base ≤ 36) (value : ℕ) (flags : Flags) :
  valueFrom base 0 (digitsText base value flags) = value % base ^ ntoaBufferSize
  := by
  by_cases hnone : flags.precision ∧ value = 0
  · rw [digitsText, if_pos hnone, hnone.2, Nat.zero_mod]
    rfl
  have hlt : ∀ d ∈ (digitsOf base value).take ntoaBufferSize, d < base :=
    fun d hd => digitsOf_lt hbase value d (List.mem_of_mem_take hd)
  rw [digitsText, if_neg hnone, valueFrom_digitChars flags hbase' hlt]
  exact ofDigits_digitsOf_take hbase value _ (by decide)

theorem digitsText_isDigit (hbase : 1 < base) (hbase' : base ≤ 36) (value : ℕ) (flags : Flags) :
  ∀ c ∈ digitsText base value flags, IsDigit base c
  := by
  intro c hc
  unfold digitsText at hc
  split at hc
  · cases hc
  · obtain ⟨d, hd, rfl⟩ := List.mem_map.mp hc
    apply digitChar_isDigit flags _ hbase'
    apply digitsOf_lt hbase value
    apply List.mem_of_mem_take (List.mem_reverse.mp hd)

/-- Only the zero has no digits. -/
theorem digitsText_ne_nil (hvalue : value ≠ 0) :
  digitsText base value flags ≠ []
  := by
  have hnone : ¬ (flags.precision ∧ value = 0) := fun h => hvalue h.2
  rw [digitsText, if_neg hnone, Ne, List.map_eq_nil_iff, List.reverse_eq_nil_iff,
    List.take_eq_nil_iff]
  unfold digitsOf
  split
  · simp [ntoaBufferSize]
  · simp [ntoaBufferSize, Nat.digits_ne_nil_iff_ne_zero.mpr ‹_›]

/-- The leading zeros and the digits of a number. -/
def numeralText (value : ℕ) (negative : Bool) (base prec width : ℕ) (flags : Flags) :
    List UInt8 :=
  leadingZeros prec (padWidth negative width flags) flags (digitsText base value flags)
    ++ digitsText base value flags

/-- There is room for a sign in the buffer. -/
abbrev Room (value : ℕ) (negative : Bool) (base prec width : ℕ) (flags : Flags) : Prop :=
  (numeralText value negative base prec width flags).length < ntoaBufferSize

/-- The sign that a number is put out with. -/
def printedSign (value : ℕ) (negative : Bool) (base prec width : ℕ) (flags : Flags) : Sign :=
  if Room value negative base prec width flags then
    if negative then .minus else if flags.plus then .plus else .absent
  else .absent

/-- The text of a number is a numeral with its sign between spaces. -/
theorem numberText_parts (hhash : flags.hash = false) (value : ℕ) (negative : Bool)
    (base prec width : ℕ) :
  ∃ k j, numberText value negative base prec width flags
    = List.replicate k (ch ' ')
      ++ ((printedSign value negative base prec width flags).text
        ++ (numeralText value negative base prec width flags ++ List.replicate j (ch ' ')))
  := by
  have hflags : numberFlags value flags = flags := by
    unfold numberFlags
    split
    · rw [← hhash]
    · rfl
  have hhashed : ∀ width buf, hashed base prec width flags buf = buf := by
    intro width buf
    rw [hashed, hhash]
    rfl
  rw [numberText, hflags, filled, hhashed, ← numeralText, outRevText, signed, printedSign]
  unfold Room
  generalize numeralText value negative base prec width flags = t
  -- the blanks that stand for a sign or in front of it, and those behind the number
  have hspaces : ∀ (k : ℕ) (p : Prop) [Decidable p], ∃ j,
      (if p then List.replicate k (ch ' ') else []) = List.replicate j (ch ' ') := by
    intro k p _
    split
    · exact ⟨k, rfl⟩
    · exact ⟨0, rfl⟩
  have hsign : ∃ k, (if t.length < ntoaBufferSize then signText negative flags ++ t else t)
      = List.replicate k (ch ' ') ++ ((if t.length < ntoaBufferSize then
          if negative then Sign.minus else if flags.plus then Sign.plus else Sign.absent
        else Sign.absent).text ++ t) := by
    unfold signText
    split_ifs
    · exact ⟨0, rfl⟩
    · exact ⟨0, rfl⟩
    · exact ⟨1, rfl⟩
    · exact ⟨0, rfl⟩
    · exact ⟨0, rfl⟩
  obtain ⟨k, hk⟩ := hsign
  rw [hk]
  obtain ⟨k', hk'⟩ := hspaces (padWidth negative width flags
    - (List.replicate k (ch ' ') ++ (_ ++ t)).length) (!flags.left && !flags.zeropad)
  obtain ⟨j, hj⟩ := hspaces (padWidth negative width flags
    - (List.replicate k (ch ' ') ++ (_ ++ t)).length) flags.left
  use k' + k, j
  rw [hk', hj, List.replicate_add]
  simp only [List.append_assoc]

theorem numeralText_isDigit (hbase : 1 < base) (hbase' : base ≤ 36) (value : ℕ) (negative : Bool)
    (prec width : ℕ) (flags : Flags) :
  ∀ c ∈ numeralText value negative base prec width flags, IsDigit base c
  := by
  intro c hc
  rcases List.mem_append.mp hc with hzero | hdigit
  · have hc0 : c = ch '0' := by
      unfold leadingZeros at hzero
      split at hzero
      · cases hzero
      · apply List.eq_of_mem_replicate hzero
    have hnumber : number (ch '0') = 0 := by decide
    unfold IsDigit
    rw [hc0, hnumber]
    omega
  · apply digitsText_isDigit hbase hbase' _ _ c hdigit

theorem valueFrom_zeros (base k : ℕ) (ds : List UInt8) :
  valueFrom base 0 (List.replicate k (ch '0') ++ ds) = valueFrom base 0 ds
  := by
  induction k with
  | zero => rfl
  | succ k ih =>
      rw [List.replicate_succ, List.cons_append, CString.valueFrom_cons, Nat.zero_mul]
      exact ih

/-- What follows the digits is a space, or what follows the text. -/
theorem exists_end (j : ℕ) (rest : List UInt8) (hc : ¬ IsDigit base c) (hx : ¬ CString.isX c) :
  ∃ c' rest', List.replicate j (ch ' ') ++ c :: rest = c' :: rest' ∧ ¬ IsDigit base c'
    ∧ ¬ CString.isX c'
  := by
  cases j with
  | zero => exact ⟨c, rest, rfl, hc, hx⟩
  | succ j =>
      refine ⟨ch ' ', _, rfl, ?_, by decide⟩
      have hnumber : number (ch ' ') = -1 := by decide
      unfold IsDigit
      rw [hnumber]
      omega

/-- `strtol` reads the number that the digits stand for, with the sign, if it is a `long`. -/
theorem strtol_numeral_iff (sg : Sign) {k j : ℕ} {x : ℤ} (hbase : 1 < base) (hbase' : base ≤ 36)
    (hs : s.drop i
      = List.replicate k (ch ' ') ++ (sg.text ++ (ds ++ List.replicate j (ch ' '))) ++ c :: rest)
    (hds : ∀ c ∈ ds, IsDigit base c) (hne : ds ≠ []) (hc : ¬ IsDigit base c)
    (hx : ¬ CString.isX c) :
  (strtol s i base).map CString.Converted.value = some x
    ↔ sg.value * valueFrom base 0 ds = x ∧ CString.longMin ≤ x ∧ x ≤ CString.longMax
  := by
  have hblanks : ∀ x ∈ List.replicate k (ch ' '), isspace x := by
    intro x hmem
    rw [List.eq_of_mem_replicate hmem]
    decide
  obtain ⟨c', rest', hrest, hc', hx'⟩ := exists_end j rest hc hx
  rw [List.append_assoc, List.append_assoc, List.append_assoc, hrest] at hs
  obtain ⟨scan, hreads, hstrtol⟩ := CString.exists_strtol_numeral sg hbase hbase' hs hblanks hds hne
    hc' (fun h => hx' h.2.2)
  obtain ⟨hsum, herrno⟩ := hreads.clamp
  rw [CString.value_strtol_iff hstrtol, ← CString.clamp_eq_iff]
  dsimp only
  rw [hsum, herrno]
  split
  · rename_i hclamp
    rw [hclamp, and_iff_right rfl]
    constructor
    · rintro rfl
      exact ⟨rfl, hclamp⟩
    · exact And.left
  · rename_i hclamp
    apply iff_of_false nofun
    rintro ⟨rfl, heq⟩
    exact hclamp heq

/-- In a text of spaces with a sign that is no minus there is nothing to read. -/
theorem taken_spaces (sg : Sign) (hsg : sg ≠ .minus) (k j b : ℕ) :
  CString.taken b
    (CString.scanned (List.replicate k (ch ' ') ++ (sg.text ++ List.replicate j (ch ' ')))) = 0
  := by
  have hspace : ∀ n, ∀ x ∈ List.replicate n (ch ' '), isspace x := by
    intro n x hmem
    rw [List.eq_of_mem_replicate hmem]
    decide
  have hnone : ∀ n, CString.taken b (List.replicate n (ch ' ')) = 0 := by
    intro n
    by_contra hpos
    have hbegins := CString.taken_pos_iff.mp (Nat.pos_of_ne_zero hpos)
    cases n with
    | zero =>
        rcases hbegins with hdigit | ⟨-, hx, -⟩
        · exact CString.not_digitOf_zero _ hdigit
        · cases hx
    | succ n =>
        rcases hbegins with ⟨d, hd, -⟩ | ⟨-, hx, -⟩
        · cases hd
        · cases hx
  rw [CString.scanned, CString.behindBlanks, List.dropWhile_append_of_pos (hspace k)]
  cases sg with
  | absent =>
      have hnil : (Sign.absent.text ++ List.replicate j (ch ' ')).dropWhile isspace = [] :=
        List.dropWhile_eq_nil_iff.mpr (hspace j)
      rw [hnil]
      exact hnone 0
  | minus => exact absurd rfl hsg
  | plus => exact hnone j

/-- A text without digits is read as zero. -/
theorem strtol_spaces (sg : Sign) {k j : ℕ} (hsg : sg ≠ .minus) (hbase : 1 < base)
    (hbase' : base ≤ 36)
    (hs : s.drop i
      = List.replicate k (ch ' ') ++ (sg.text ++ List.replicate j (ch ' ')) ++ 0 :: rest) :
  (strtol s i base).map CString.Converted.value = some 0
  := by
  have htaken := taken_spaces sg hsg k j base
  set t := List.replicate k (ch ' ') ++ (sg.text ++ List.replicate j (ch ' ')) with ht
  have hchars : ∀ c ∈ t, c = ch ' ' ∨ c = 0x2B := by
    intro c hc
    rw [ht, List.mem_append, List.mem_append, List.mem_replicate, List.mem_replicate] at hc
    rcases hc with ⟨-, rfl⟩ | hsign | ⟨-, rfl⟩
    · exact .inl rfl
    · cases sg with
      | absent => cases hsign
      | minus => exact absurd rfl hsg
      | plus => exact .inr (List.mem_singleton.mp hsign)
    · exact .inl rfl
  have htext : ∀ c ∈ t, c ≠ 0 := by
    intro c hc
    rcases hchars c hc with rfl | rfl <;> decide
  by_cases hnil : t = []
  · rw [hnil] at hs
    rw [CString.strtol, CString.strtolWith, CString.get_of_drop hs]
    rfl
  · have hled : 0 < CString.skipped t := by
      rw [CString.skipped_pos_iff]
      obtain ⟨c, u, hcons⟩ := List.exists_cons_of_ne_nil hnil
      have hfirst : CString.first t = c := by
        rw [hcons]
        rfl
      rw [CString.Led, hfirst]
      rcases hchars c (hcons ▸ List.mem_cons_self) with rfl | rfl
      · exact .inl rfl
      · exact .inr (.inr rfl)
    obtain ⟨r, hr, hfound, herrno, -⟩ := CString.strtol_text (.inr ⟨hbase, hbase'⟩) htext hnil hs
      (fun h => absurd h hled.ne')
    rw [if_pos htaken] at hfound
    rw [CString.value_strtol_iff hr]
    exact ⟨herrno.mpr (CString.fits_of_taken htaken), hfound.1⟩

/-- What `strtol` makes of the text of a number. -/
theorem strtol_numberText_iff {x : ℤ} (hbase : 1 < base) (hbase' : base ≤ 36)
    (hhash : flags.hash = false) (hnegative : negative → value ≠ 0)
    (hs : s.drop i = numberText value negative base prec width flags ++ 0 :: rest) :
  (strtol s i base).map CString.Converted.value = some x
    ↔ (printedSign value negative base prec width flags).value
        * (value % base ^ ntoaBufferSize : ℕ) = x ∧ CString.longMin ≤ x ∧ x ≤ CString.longMax
  := by
  obtain ⟨k, j, htext⟩ := numberText_parts hhash value negative base prec width
  rw [htext] at hs
  have hvalue : valueFrom base 0 (numeralText value negative base prec width flags)
      = value % base ^ ntoaBufferSize := by
    rw [← valueFrom_digitsText hbase hbase' value flags, numeralText, leadingZeros]
    split
    · rfl
    · apply valueFrom_zeros
  have hend : ¬ IsDigit base 0 := by
    have hzero : number 0 = -1 := by decide
    unfold IsDigit
    rw [hzero]
    omega
  by_cases hne : numeralText value negative base prec width flags = []
  · -- the zero, without a digit
    have hzero : value = 0 := by
      by_contra hvalue
      exact digitsText_ne_nil hvalue (List.append_eq_nil_iff.mp hne).2
    have hsg : printedSign value negative base prec width flags ≠ .minus := by
      have hpositive : negative = false := eq_false_of_ne_true fun h => hnegative h hzero
      rw [printedSign, hpositive]
      simp only [Bool.false_eq_true, if_false]
      split_ifs <;> decide
    rw [hne, List.nil_append] at hs
    rw [strtol_spaces _ hsg hbase hbase' hs, hzero, Nat.zero_mod, Option.some_inj]
    have hlong : CString.longMin ≤ 0 ∧ 0 ≤ CString.longMax := by decide
    constructor
    · rintro rfl
      exact ⟨Int.mul_zero _, hlong⟩
    · rintro ⟨rfl, -⟩
      exact (Int.mul_zero _).symm
  · rw [← hvalue]
    exact strtol_numeral_iff _ hbase hbase' hs
      (numeralText_isDigit hbase hbase' value negative prec width flags) hne hend (by decide)

/-! ### Coming back -/

theorem length_digitsText_decimal (h : value < 2 ^ 64) (flags : Flags) :
  (digitsText 10 value flags).length ≤ 20
  := by
  have hdigits : (digitsOf 10 value).length ≤ 20 := by
    unfold digitsOf
    split
    · decide
    · rw [Nat.digits_length_le_iff (by decide)]
      exact h.trans (by decide)
  unfold digitsText
  split
  · apply Nat.zero_le
  · rw [List.length_map, List.length_reverse, List.length_take]
    omega

/-- A negative number keeps its sign, unless there are zeros enough to fill the buffer. -/
theorem numberRoom_iff (h : value < 2 ^ 64) (prec width : ℕ) (flags : Flags) :
  Room value true 10 prec width flags
    ↔ flags.left ∨ prec < 32 ∧ (flags.zeropad → width < 33)
  := by
  have hlen := length_digitsText_decimal h flags
  have hsize : ntoaBufferSize = 32 := rfl
  rw [Room, numeralText, List.length_append, hsize, leadingZeros, padWidth, signWidth]
  cases flags.left <;> cases flags.zeropad
  · simp [hsize]
    omega
  · by_cases hwidth : width = 0
    · simp [hwidth, hsize]
      omega
    · simp [hwidth, hsize]
      omega
  · simp
    omega
  · simp
    omega

/-- The integer that a specifier takes a word for. -/
def integerOf (c : UInt8) (flags : Flags) (w : ℕ) : ℤ :=
  if isSigned c then toSigned (integerBits flags) w else (w % 2 ^ integerBits flags : ℕ)

theorem integerBits_cases (flags : Flags) :
  integerBits flags = 64 ∨ integerBits flags = 8 ∨ integerBits flags = 16 ∨ integerBits flags = 32
  := by
  unfold integerBits
  split_ifs <;> simp

/-- The integer is in the range of a `long`, or of an `unsigned long`. -/
theorem integerOf_bounds (c : UInt8) (flags : Flags) (w : ℕ) :
  -2 ^ 63 ≤ integerOf c flags w ∧ integerOf c flags w < 2 ^ 64
    ∧ (isSigned c → integerOf c flags w < 2 ^ 63) ∧ (¬ isSigned c → 0 ≤ integerOf c flags w)
  := by
  unfold integerOf
  split
  · rename_i hsigned
    have hle := Int.le_bmod (x := w) (m := 2 ^ integerBits flags) (Nat.two_pow_pos _)
    have hlt := Int.bmod_lt (x := w) (m := 2 ^ integerBits flags) (Nat.two_pow_pos _)
    unfold toSigned
    rcases integerBits_cases flags with h | h | h | h
    all_goals
      rw [h] at hle hlt ⊢
      exact ⟨by omega, by omega, fun _ => by omega, fun hnot => absurd hsigned hnot⟩
  · rename_i hsigned
    rcases integerBits_cases flags with h | h | h | h
    all_goals
      rw [h]
      exact ⟨by omega, by omega, fun hs => absurd hs hsigned, fun _ => by omega⟩

/-- The least integer of the type has no absolute value. -/
def Least (c : UInt8) (flags : Flags) (w : ℕ) : Prop :=
  isSigned c ∧ integerOf c flags w = -2 ^ (max 32 (integerBits flags) - 1)

theorem integerValue_eq {flags : Flags} {w : ℕ} (h : ¬ Least c flags w) :
  integerValue c flags w
    = some ((integerOf c flags w).natAbs, decide (integerOf c flags w < 0))
  := by
  unfold integerValue integerOf
  cases hsigned : isSigned c
  · have hnonneg : ¬ ((w % 2 ^ integerBits flags : ℕ) : ℤ) < 0 := by omega
    simp only [Bool.false_eq_true, if_false, Int.natAbs_natCast, decide_eq_false hnonneg]
  · have habs : absolute (max 32 (integerBits flags)) (toSigned (integerBits flags) w)
        = some (toSigned (integerBits flags) w).natAbs := by
      apply if_neg
      intro hleast
      refine h ⟨hsigned, ?_⟩
      rw [integerOf, hsigned, if_pos rfl, hleast]
    simp only [if_true, habs, Option.bind_eq_bind, Option.bind_some, Option.pure_def]

/-- What comes back of the text of a number is the number, exactly when its sign has been put out,
it has no digits more than the buffer has room for, and it is a `long`. -/
theorem printed_iff {x : ℤ} {size : ℕ} (hx : -2 ^ 63 ≤ x) (plus : Bool) (room : Prop)
    [Decidable room] :
  (if room then if decide (x < 0) then Sign.minus else if plus then Sign.plus
      else Sign.absent else Sign.absent).value * (x.natAbs % size : ℕ) = x
      ∧ CString.longMin ≤ x ∧ x ≤ CString.longMax
    ↔ (x < 0 → room) ∧ x.natAbs % size = x.natAbs ∧ x < 2 ^ 63
  := by
  have hmin : CString.longMin = -2 ^ 63 := rfl
  have hmax : CString.longMax = 2 ^ 63 - 1 := rfl
  have hle := Nat.mod_le x.natAbs size
  generalize x.natAbs % size = n at hle
  rw [hmin, hmax]
  by_cases hneg : x < 0
  · by_cases hroom : room
    · simp only [if_pos hroom, decide_eq_true hneg, if_true, Sign.value]
      constructor
      · intro h
        exact ⟨fun _ => hroom, by omega, by omega⟩
      · rintro ⟨-, hn, hlt⟩
        omega
    · simp only [if_neg hroom, Sign.value]
      constructor
      · intro h
        omega
      · rintro ⟨h, -⟩
        exact absurd (h hneg) hroom
  · have hsign : (if room then if decide (x < 0) then Sign.minus else if plus then Sign.plus
        else Sign.absent else Sign.absent).value = 1 := by
      rw [decide_eq_false hneg]
      split_ifs <;> first | rfl | contradiction
    rw [hsign]
    constructor
    · intro h
      exact ⟨fun h => absurd h hneg, by omega, by omega⟩
    · rintro ⟨-, hn, hlt⟩
      omega

/-- The specifiers of integers. -/
def Specifier.isInteger : Specifier → Bool
  | .d | .i | .u | .x | .X | .o | .b => true
  | _ => false

theorem baseOf_isSigned (h : isSigned c) :
  baseOf c = 10
  := by
  have hcases : c = ch 'd' ∨ c = ch 'i' := by simpa [isSigned] using h
  rcases hcases with rfl | rfl <;> decide

theorem conversionText_integer {specifier : Specifier} (h : specifier.isInteger)
    (field : Field D) :
  conversionText specifier.char field = integerText specifier.char field
  := by
  apply if_pos
  cases specifier <;> first | decide | cases h

/-- An integer that is put out in a base has digits enough in the buffer, but for base 2. -/
theorem mod_base_iff {specifier : Specifier} {n : ℕ} (hn : n < 2 ^ 64) :
  n % baseOf specifier.char ^ ntoaBufferSize = n ↔ (specifier = .b → n < 2 ^ 32)
  := by
  have hroom : specifier ≠ .b → 2 ^ 64 ≤ baseOf specifier.char ^ ntoaBufferSize := by
    cases specifier <;> decide
  constructor
  · rintro hmod rfl
    rw [← hmod]
    apply Nat.mod_lt _ (by decide)
  · intro hlt
    by_cases hb : specifier = .b
    · rw [hb]
      exact Nat.mod_eq_of_lt (hlt hb)
    · exact Nat.mod_eq_of_lt (hn.trans_le (hroom hb))

theorem baseOf_le (c : UInt8) :
  baseOf c ≤ 36
  := by
  unfold baseOf
  split_ifs <;> decide

/-- The text of a format that is one conversion of an integer is that of the number. -/
theorem text_integer {v : Conversion} (hspec : v.specifier.isInteger) {va va' : List (Arg D)}
    {field : Field D} {w : ℕ} {obj : List UInt8} (hfield : v.field va = some field)
    (hva : vaWord field.va = some ((w, obj), va'))
    (hleast : ¬ Least v.specifier.char field.flags w) :
  text (formatText [0] [.conversion v]) va
    = some (numberText (integerOf v.specifier.char field.flags w).natAbs
        (decide (integerOf v.specifier.char field.flags w < 0)) (baseOf v.specifier.char)
        field.precision field.width (integerFlags v.specifier.char field.flags))
  := by
  have hvalue : integerValue v.specifier.char (integerFlags v.specifier.char field.flags) w
      = some ((integerOf v.specifier.char field.flags w).natAbs,
        decide (integerOf v.specifier.char field.flags w < 0)) := integerValue_eq hleast
  rw [text_formatText, meaning, hfield]
  simp only [Option.bind_eq_bind, Option.bind_some, conversionText_integer hspec, integerText, hva,
    hvalue, Option.pure_def, meaning, Option.map_some, List.append_nil]

/-- When there is room for the sign of a negative number that is put out. -/
theorem room_integerFlags_iff {c : UInt8} (hs : isSigned c) {x : ℤ} (hge : -2 ^ 63 ≤ x)
    (hneg : x < 0) (prec width : ℕ) (flags : Flags) :
  Room x.natAbs (decide (x < 0)) (baseOf c) prec width (integerFlags c flags)
    ↔ flags.left ∨ prec < 32 ∧ (flags.zeropad ∧ ¬ flags.precision → width < 33)
  := by
  rw [decide_eq_true hneg, baseOf_isSigned hs, numberRoom_iff (by omega), integerFlags]
  cases flags.precision <;> simp

/-- An integer that `snprintf_` has written into a large enough buffer, by a conversion with any
flags but `#`, any width, precision and length, comes back by `strtol` in the base of the
conversion, exactly when it is a `long`, does not have more binary digits than the buffer of
`_ntoa_long` has room for, and does not lose its sign to leading zeros. -/
theorem printed_comes_back {v : Conversion} (hspec : v.specifier.isInteger) {va va' : List (Arg D)}
    {field : Field D} {w : ℕ} {obj : List UInt8} (hfield : v.field va = some field)
    (hva : vaWord field.va = some ((w, obj), va'))
    (hhash : field.flags.hash → baseOf v.specifier.char = 10)
    (hleast : ¬ Least v.specifier.char field.flags w)
    {buffer count : ℕ} (hbuffer : buffer ≠ 0) (hcount : count < 2 ^ 64) (m : Bytes.Mem) :
  ∃ t m', text (formatText [0] [.conversion v]) va = some t
    ∧ snprintf buffer count (formatText [0] [.conversion v]) va m
      = some (m', toSigned 32 t.length)
    ∧ Stores m m' buffer count t
    ∧ (t.length < count →
      ((strtol (object m' buffer count) 0 (baseOf v.specifier.char)).map CString.Converted.value
          = some (integerOf v.specifier.char field.flags w)
        ↔ (integerOf v.specifier.char field.flags w < 0 → field.flags.left
            ∨ field.precision < 32
              ∧ (field.flags.zeropad ∧ ¬ field.flags.precision → field.width < 33))
          ∧ integerOf v.specifier.char field.flags w < 2 ^ 63
          ∧ (v.specifier = .b → integerOf v.specifier.char field.flags w < 2 ^ 32)))
  := by
  obtain ⟨hge, hlt, hsigned, hunsigned⟩ := integerOf_bounds v.specifier.char field.flags w
  have htext := text_integer hspec hfield hva hleast
  obtain ⟨m', hm', hstores⟩ := snprintf_eq hbuffer hcount m htext
  refine ⟨_, m', htext, hm', hstores, fun hroom => ?_⟩
  obtain ⟨rest, hobject⟩ := hstores.exists_object hroom
  set c := v.specifier.char with hc
  set x := integerOf c field.flags w with hx
  have hhash' : (integerFlags c field.flags).hash = false := by
    rw [integerFlags]
    cases hh : field.flags.hash
    · simp
    · simp [hhash hh]
  have hnegative : decide (x < 0) = true → x.natAbs ≠ 0 := by
    intro hneg
    have hlt := of_decide_eq_true hneg
    omega
  rw [strtol_numberText_iff (i := 0) (one_lt_baseOf c) (baseOf_le c) hhash' hnegative hobject,
    printedSign]
  rw [printed_iff hge, mod_base_iff (by omega)]
  have hsign : x < 0 → (Room x.natAbs (decide (x < 0)) (baseOf c) field.precision field.width
      (integerFlags c field.flags) ↔ field.flags.left ∨ field.precision < 32
        ∧ (field.flags.zeropad ∧ ¬ field.flags.precision → field.width < 33)) := by
    intro hneg
    have hs : isSigned c = true := by
      by_contra hnot
      exact absurd (hunsigned hnot) (by omega)
    exact room_integerFlags_iff hs hge hneg _ _ _
  have hb : v.specifier = .b → (x.natAbs < 2 ^ 32 ↔ x < 2 ^ 32) := by
    intro hb
    have hnonneg : 0 ≤ x := hunsigned (by rw [hc, hb]; decide)
    omega
  constructor
  · rintro ⟨hneg, hdigits, hmax⟩
    exact ⟨fun h => (hsign h).mp (hneg h), hmax, fun h => (hb h).mp (hdigits h)⟩
  · rintro ⟨hneg, hmax, hdigits⟩
    exact ⟨fun h => (hsign h).mpr (hneg h), fun h => (hb h).mpr (hdigits h), hmax⟩

/-- The conversion `%-8ld`. -/
def leftLong : Conversion where
  flags := [.left]
  width := some (.number 8)
  precision := none
  length := some .l
  specifier := .d
  width_ne_zero := by simp

/-- The least integer but one comes back, from its twenty characters. -/
theorem printed_comes_back_left :
  ∃ m' : Bytes.Mem,
    snprintf 4096 32 (formatText [0] [.conversion leftLong])
      [(.word (2 ^ 63 + 1) [] : Arg noDoubles)] (fun _ => 0xFF) = some (m', 20)
    ∧ (strtol (object m' 4096 32) 0 10).map CString.Converted.value = some (-2 ^ 63 + 1)
  := by
  have hleast : ¬ Least (ch 'd') { Flags.zero with left := true, long := true } (2 ^ 63 + 1) := by
    unfold Least
    decide
  have hvalue : integerOf (ch 'd') { Flags.zero with left := true, long := true } (2 ^ 63 + 1)
      = -2 ^ 63 + 1 := by decide
  let field : Field noDoubles :=
    ⟨{ Flags.zero with left := true, long := true }, 8, 0, [], [.word (2 ^ 63 + 1) []]⟩
  have hfield : leftLong.field [.word (2 ^ 63 + 1) []] = some field := rfl
  have hlength : (text (formatText [0] [.conversion leftLong])
      [(.word (2 ^ 63 + 1) [] : Arg noDoubles)]).map List.length = some 20 := by decide
  have hprinted := @printed_comes_back noDoubles leftLong rfl _ _ _ _ _ hfield rfl nofun
    hleast 4096 32 (by decide) (by decide) (fun _ => 0xFF)
  obtain ⟨t, m', ht, hm', -, hback⟩ := hprinted
  rw [ht, Option.map_some, Option.some_inj] at hlength
  rw [hlength] at hm' hback
  refine ⟨m', hm', ?_⟩
  rw [← hvalue]
  exact (hback (by decide)).mpr (by decide)

end Printf
