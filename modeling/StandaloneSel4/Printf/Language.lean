import StandaloneSel4.Console.Decimal
import StandaloneSel4.Printf.Text

/-!
# The language of formats

The grammar of formats, `%[flags][width][.precision][length]specifier` between other characters,
with the meaning of a format piece by piece. The text of a format is its meaning.
-/

namespace Printf

open CString (decimal valueFrom)

/-! ### Grammar -/

inductive Flag where
  | zeropad | left | plus | space | hash

/-- The character of a flag. -/
def Flag.char : Flag → UInt8
  | zeropad => ch '0'
  | left => ch '-'
  | plus => ch '+'
  | space => ch ' '
  | hash => ch '#'

/-- The flag is set. -/
def Flag.set (flags : Flags) : Flag → Flags
  | zeropad => { flags with zeropad := true }
  | left => { flags with left := true }
  | plus => { flags with plus := true }
  | space => { flags with space := true }
  | hash => { flags with hash := true }

/-- A width or a precision: a number, or the argument that comes next. -/
inductive Amount where
  | number (n : ℕ)
  | star

def Amount.text : Amount → List UInt8
  | number n => decimal n
  | star => [ch '*']

inductive Length where
  | l | ll | h | hh | t | j | z

def Length.text : Length → List UInt8
  | l => [ch 'l']
  | ll => [ch 'l', ch 'l']
  | h => [ch 'h']
  | hh => [ch 'h', ch 'h']
  | t => [ch 't']
  | j => [ch 'j']
  | z => [ch 'z']

/-- The flags of a length are set. -/
def Length.set (flags : Flags) : Length → Flags
  | l | t | j | z => { flags with long := true }
  | ll => { flags with long := true, longLong := true }
  | h => { flags with short := true }
  | hh => { flags with short := true, char := true }

inductive Specifier where
  | d | i | u | x | X | o | b | f | F | e | E | g | G | c | s | p | percent
  deriving DecidableEq

/-- The character of a specifier. -/
def Specifier.char : Specifier → UInt8
  | d => ch 'd'
  | i => ch 'i'
  | u => ch 'u'
  | x => ch 'x'
  | X => ch 'X'
  | o => ch 'o'
  | b => ch 'b'
  | f => ch 'f'
  | F => ch 'F'
  | e => ch 'e'
  | E => ch 'E'
  | g => ch 'g'
  | G => ch 'G'
  | c => ch 'c'
  | s => ch 's'
  | p => ch 'p'
  | percent => ch '%'

/-- A conversion. A width of zero would be read as a flag. The precision may be a point alone. -/
structure Conversion where
  flags : List Flag
  width : Option Amount
  precision : Option (Option Amount)
  length : Option Length
  specifier : Specifier
  width_ne_zero : width ≠ some (.number 0)

namespace Conversion

/-- From the length on. -/
def lengthText (v : Conversion) (rest : List UInt8) : List UInt8 :=
  v.length.elim [] Length.text ++ v.specifier.char :: rest

/-- From the precision on. -/
def precisionText (v : Conversion) (rest : List UInt8) : List UInt8 :=
  v.precision.elim [] (fun a => ch '.' :: a.elim [] Amount.text) ++ v.lengthText rest

/-- From the width on. -/
def widthText (v : Conversion) (rest : List UInt8) : List UInt8 :=
  v.width.elim [] Amount.text ++ v.precisionText rest

/-- A conversion behind its `%`, with what follows it. -/
def text (v : Conversion) (rest : List UInt8) : List UInt8 :=
  v.flags.map Flag.char ++ v.widthText rest

end Conversion

/-- A piece of a format. -/
inductive Piece where
  | char (c : UInt8) (plain : c ≠ 0 ∧ c ≠ ch '%')
  | conversion (v : Conversion)

/-- The format of the pieces, with what follows it. -/
def formatText (rest : List UInt8) : List Piece → List UInt8
  | [] => rest
  | .char c _ :: ps => c :: formatText rest ps
  | .conversion v :: ps => ch '%' :: v.text (formatText rest ps)

variable {D : Doubles}

/-! ### Meaning -/

/-- The width is set. -/
def Field.withWidth (field : Field D) : Option Amount → Option (Field D)
  | none => some field
  | some (.number n) => some { field with width := n % 2 ^ 32 }
  | some .star =>
      (vaWord field.va).bind fun r => { field with va := r.2 }.setWidth (toSigned 32 r.1.1)

/-- The precision is set. An argument that is negative sets it to zero. -/
def Field.withPrecision (field : Field D) : Option (Option Amount) → Option (Field D)
  | none => some field
  | some a =>
      let field := { field with flags := { field.flags with precision := true } }
      match a with
      | none => some field
      | some (.number n) => some { field with precision := n % 2 ^ 32 }
      | some .star =>
          (vaWord field.va).map fun r =>
            { field with precision := (toSigned 32 r.1.1).toNat, va := r.2 }

/-- The length is set. -/
def Field.withLength (field : Field D) (length : Option Length) : Field D :=
  { field with flags := length.elim field.flags (Length.set field.flags) }

/-- The settings of a conversion. -/
def Conversion.field (v : Conversion) (va : List (Arg D)) : Option (Field D) := do
  let field ← Field.withWidth ⟨v.flags.foldl Flag.set Flags.zero, 0, 0, [], va⟩ v.width
  let field ← field.withPrecision v.precision
  return field.withLength v.length

/-- The text that the pieces of a format stand for, and the arguments that are left. -/
def meaning : List Piece → List (Arg D) → Option (List UInt8 × List (Arg D))
  | [], va => some ([], va)
  | .char c _ :: ps, va => (meaning ps va).map fun r => (c :: r.1, r.2)
  | .conversion v :: ps, va => do
      let field ← v.field va
      let (t, va) ← conversionText v.specifier.char field
      (meaning ps va).map fun r => (t ++ r.1, r.2)

variable {c : UInt8} {rest ds : List UInt8} {field : Field D} {flags : Flags} {va : List (Arg D)}
  {rounds : ℕ}

/-! ### Reading a conversion -/

/-- The character belongs to no field before the length. -/
structure Plain (c : UInt8) : Prop where
  flag : ∀ flags, setFlag flags c = none
  digit : isDigit c = false
  star : c ≠ ch '*'
  point : c ≠ ch '.'

theorem setFlag_eq_none (hzero : c ≠ ch '0') (hleft : c ≠ ch '-') (hplus : c ≠ ch '+')
    (hspace : c ≠ ch ' ') (hhash : c ≠ ch '#') (flags : Flags) :
  setFlag flags c = none
  := by
  rw [setFlag, if_neg hzero, if_neg hleft, if_neg hplus, if_neg hspace, if_neg hhash]

theorem plain_of_letter (h : ch 'A' ≤ c ∨ c = ch '%') :
  Plain c
  := by
  have hne : ∀ d : UInt8, d < ch 'A' → d ≠ ch '%' → c ≠ d := by
    rintro d hlt hd rfl
    rcases h with hle | hpercent
    · exact absurd hlt (UInt8.not_lt.mpr hle)
    · exact hd hpercent
  refine ⟨setFlag_eq_none ?_ ?_ ?_ ?_ ?_, ?_, ?_, ?_⟩
  all_goals first | exact hne _ (by decide) (by decide) | skip
  unfold isDigit
  rcases h with hle | rfl
  · have hnot : ¬ c ≤ ch '9' := by
      intro hc
      exact absurd (UInt8.le_trans hle hc) (by decide)
    rw [decide_eq_false hnot, Bool.and_false]
  · decide

theorem plain_specifier (specifier : Specifier) :
  Plain specifier.char
  := by
  apply plain_of_letter
  cases specifier <;> decide

theorem setFlag_char (flags : Flags) (f : Flag) :
  setFlag flags f.char = some (f.set flags)
  := by
  cases f <;> rfl

/-- A text goes on with a character of some kind. -/
def Begins (p : UInt8 → Prop) (l : List UInt8) : Prop :=
  ∃ c t, l = c :: t ∧ p c

theorem begins_lengthText (v : Conversion) (rest : List UInt8) :
  Begins Plain (v.lengthText rest)
  := by
  unfold Conversion.lengthText
  cases v.length with
  | none => exact ⟨_, _, rfl, plain_specifier v.specifier⟩
  | some length =>
      cases length <;> exact ⟨_, _, rfl, plain_of_letter (.inl (by decide))⟩

theorem begins_precisionText (v : Conversion) (rest : List UInt8) :
  Begins (fun c => (∀ flags, setFlag flags c = none) ∧ isDigit c = false ∧ c ≠ ch '*')
    (v.precisionText rest)
  := by
  unfold Conversion.precisionText
  cases v.precision with
  | none =>
      obtain ⟨c, t, hc, hplain⟩ := begins_lengthText v rest
      exact ⟨c, t, hc, hplain.flag, hplain.digit, hplain.star⟩
  | some a =>
      refine ⟨ch '.', _, rfl, ?_, by decide, by decide⟩
      apply setFlag_eq_none <;> decide

/-- A number in decimal begins with a digit, which is a zero for zero only. -/
theorem begins_decimal {n : ℕ} (hn : n ≠ 0) (rest : List UInt8) :
  Begins (fun c => ∀ flags, setFlag flags c = none) (decimal n ++ rest)
  := by
  obtain ⟨d, L, hdigits, hd⟩ := CString.exists_decimalDigits n
  have hlt : d < 10 := CString.decimalDigits_lt n d (hdigits ▸ List.mem_cons_self)
  have hpos := hd hn
  refine ⟨UInt8.ofNat (0x30 + d), _, by rw [decimal, hdigits]; rfl, ?_⟩
  have hne : ∀ k < 256, k < 0x31 → UInt8.ofNat (0x30 + d) ≠ UInt8.ofNat k := by
    intro k hk hk' heq
    have h := congrArg UInt8.toNat heq
    rw [UInt8.toNat_ofNat', UInt8.toNat_ofNat'] at h
    omega
  apply setFlag_eq_none
  all_goals exact hne _ (by decide) (by decide)

theorem begins_widthText (v : Conversion) (rest : List UInt8) :
  Begins (fun c => ∀ flags, setFlag flags c = none) (v.widthText rest)
  := by
  have hwidth := v.width_ne_zero
  unfold Conversion.widthText
  cases hw : v.width with
  | none =>
      obtain ⟨c, t, hc, hflag, -⟩ := begins_precisionText v rest
      exact ⟨c, t, hc, hflag⟩
  | some a =>
      cases a with
      | number n =>
          apply begins_decimal
          rintro rfl
          exact hwidth hw
      | star =>
          refine ⟨ch '*', _, rfl, ?_⟩
          apply setFlag_eq_none <;> decide

/-- The flags are read. -/
theorem evalFlags_eq (fs : List Flag) (h : Begins (fun c => ∀ flags, setFlag flags c = none) rest)
    (flags : Flags) :
  evalFlags flags (fs.map Flag.char ++ rest) = some (fs.foldl Flag.set flags, rest)
  := by
  induction fs generalizing flags with
  | nil =>
      obtain ⟨c, t, rfl, hc⟩ := h
      simp only [List.map_nil, List.nil_append, evalFlags, hc, List.foldl_nil]
  | cons f fs ih =>
      simp only [List.map_cons, List.cons_append, evalFlags, setFlag_char, List.foldl_cons]
      apply ih

theorem isDigit_of_isDigit (h : CString.IsDigit 10 c) :
  isDigit c = true
  := by
  rw [isDigit, Bool.and_eq_true, decide_eq_true_eq, decide_eq_true_eq, UInt8.le_iff_toNat_le,
    UInt8.le_iff_toNat_le]
  exact CString.isDigit_ten_iff.mp h

/-- Digits are read up to what is none. -/
theorem atoi_eq (h : Begins (fun c => isDigit c = false) rest)
    (hds : ∀ c ∈ ds, CString.IsDigit 10 c) (i : ℕ) :
  atoi (i % 2 ^ 32) (ds ++ rest) = some (valueFrom 10 i ds % 2 ^ 32, rest)
  := by
  induction ds generalizing i with
  | nil =>
      obtain ⟨c, t, rfl, hc⟩ := h
      rw [List.nil_append, atoi, hc]
      rfl
  | cons c ds ih =>
      obtain ⟨hc, hds⟩ := List.forall_mem_cons.mp hds
      have hrange := CString.isDigit_ten_iff.mp hc
      have hnumber : (CString.number c).toNat = c.toNat - 0x30 := by
        rw [CString.number_eq]
        split_ifs
        all_goals omega
      have hmod : (i % 2 ^ 32 * 10 + (c.toNat - 0x30)) % 2 ^ 32
          = (i * 10 + (CString.number c).toNat) % 2 ^ 32 := by
        rw [hnumber, Nat.add_mod, Nat.mul_mod, Nat.mod_mod, ← Nat.mul_mod, ← Nat.add_mod]
      rw [List.cons_append, atoi, if_pos (isDigit_of_isDigit hc), hmod, ih hds,
        CString.valueFrom_cons]

theorem atoi_decimal (h : Begins (fun c => isDigit c = false) rest) (n : ℕ) :
  atoi 0 (decimal n ++ rest) = some (n % 2 ^ 32, rest)
  := by
  have hatoi := atoi_eq h (CString.decimal_isDigit n) 0
  rw [CString.valueFrom_decimal] at hatoi
  exact hatoi

/-- The text of a number begins with a digit. -/
theorem decimal_begins (n : ℕ) (rest : List UInt8) :
  Begins (fun c => isDigit c = true) (decimal n ++ rest)
  := by
  obtain ⟨c, t, hc⟩ := List.exists_cons_of_ne_nil (CString.decimal_ne_nil n)
  refine ⟨c, t ++ rest, by rw [hc]; rfl, isDigit_of_isDigit ?_⟩
  apply CString.decimal_isDigit n
  rw [hc]
  apply List.mem_cons_self

theorem setWidth_format (field : Field D) (w : ℤ) (format : List UInt8) :
  { field with format := format }.setWidth w
    = (field.setWidth w).map fun field => { field with format := format }
  := by
  unfold Field.setWidth
  split
  · rw [Option.map_map]
    rfl
  · rfl

theorem evalWidth_eq (field : Field D) (w : Option Amount)
    (h : Begins (fun c => (∀ flags, setFlag flags c = none) ∧ isDigit c = false ∧ c ≠ ch '*')
      rest) :
  evalWidth { field with format := w.elim [] Amount.text ++ rest }
    = (field.withWidth w).map fun field => { field with format := rest }
  := by
  obtain ⟨c, t, rfl, -, hdigit, hstar⟩ := h
  cases w with
  | none =>
      have hno : ¬ isDigit c = true := by simp [hdigit]
      simp only [evalWidth, Option.elim_none, List.nil_append, if_neg hno, if_neg hstar,
        Field.withWidth, Option.map_some]
  | some a =>
      cases a with
      | number n =>
          obtain ⟨d, t', hd, hisDigit⟩ := decimal_begins n (c :: t)
          have hatoi := @atoi_decimal (c :: t) ⟨c, t, rfl, hdigit⟩ n
          rw [hd] at hatoi
          simp only [evalWidth, Option.elim_some, Amount.text, hd, if_pos hisDigit, hatoi,
            Option.map_some, Field.withWidth]
      | star =>
          have hno : ¬ isDigit (ch '*') = true := by decide
          simp only [evalWidth, Option.elim_some, Amount.text, List.cons_append, List.nil_append,
            if_neg hno, if_true, Field.withWidth]
          cases vaWord field.va with
          | none => rfl
          | some r => rw [Option.bind_some, Option.bind_some, ← setWidth_format]

theorem evalPrecision_eq (field : Field D) (a : Option (Option Amount)) (h : Begins Plain rest) :
  evalPrecision
      { field with format := a.elim [] (fun a => ch '.' :: a.elim [] Amount.text) ++ rest }
    = (field.withPrecision a).map fun field => { field with format := rest }
  := by
  obtain ⟨c, t, rfl, hc⟩ := h
  cases a with
  | none =>
      simp only [evalPrecision, Option.elim_none, List.nil_append, if_neg hc.point,
        Field.withPrecision, Option.map_some]
  | some a =>
      cases a with
      | none =>
          have hno : ¬ isDigit c = true := by simp [hc.digit]
          simp only [evalPrecision, Option.elim_some, Option.elim_none, List.cons_append,
            List.nil_append, if_true, if_neg hno, if_neg hc.star, Field.withPrecision,
            Option.map_some]
      | some a =>
          cases a with
          | number n =>
              obtain ⟨d, t', hd, hisDigit⟩ := decimal_begins n (c :: t)
              have hatoi := @atoi_decimal (c :: t) ⟨c, t, rfl, hc.digit⟩ n
              rw [hd] at hatoi
              simp only [evalPrecision, Option.elim_some, Amount.text, List.cons_append, hd,
                if_true, if_pos hisDigit, hatoi, Option.map_some, Field.withPrecision]
          | star =>
              have hno : ¬ isDigit (ch '*') = true := by decide
              simp only [evalPrecision, Option.elim_some, Amount.text, List.cons_append,
                List.nil_append, if_true, if_neg hno, Field.withPrecision, Option.map_map,
                Function.comp_def]

theorem evalLength_eq (field : Field D) (length : Option Length) (specifier : Specifier)
    (rest : List UInt8) :
  evalLength
      { field with format := length.elim [] Length.text ++ specifier.char :: rest }
    = some { field.withLength length with format := specifier.char :: rest }
  := by
  have hl : specifier.char ≠ ch 'l' := by cases specifier <;> decide
  have hh : specifier.char ≠ ch 'h' := by cases specifier <;> decide
  have hz : ¬ (specifier.char = ch 't' ∨ specifier.char = ch 'j' ∨ specifier.char = ch 'z') := by
    cases specifier <;> decide
  cases length with
  | none =>
      simp only [evalLength, Option.elim_none, List.nil_append, if_neg hl, if_neg hh, if_neg hz,
        Field.withLength]
  | some length =>
      cases length with
      | l =>
          change (if specifier.char = ch 'l' then _ else _) = _
          rw [if_neg hl]
          rfl
      | h =>
          change (if specifier.char = ch 'h' then _ else _) = _
          rw [if_neg hh]
          rfl
      | ll => rfl
      | hh => rfl
      | t => rfl
      | j => rfl
      | z => rfl

/-- A conversion is read with all its fields, up to the specifier. -/
theorem evalField_text (v : Conversion) (rest : List UInt8) (va : List (Arg D)) :
  evalField (v.text rest) va
    = (v.field va).map fun field => { field with format := v.specifier.char :: rest }
  := by
  let field : Field D := ⟨v.flags.foldl Flag.set Flags.zero, 0, 0, [], va⟩
  have hwidth := evalWidth_eq field v.width (begins_precisionText v rest)
  unfold evalField Conversion.text Conversion.field
  rw [evalFlags_eq v.flags (begins_widthText v rest)]
  change (evalWidth { field with format := v.widthText rest }).bind (fun field =>
      (evalPrecision field).bind evalLength)
    = ((field.withWidth v.width).bind fun field =>
      (field.withPrecision v.precision).bind fun field => some (field.withLength v.length)).map _
  rw [Conversion.widthText, hwidth]
  cases field.withWidth v.width with
  | none => rfl
  | some field =>
      have hprecision := evalPrecision_eq field v.precision (begins_lengthText v rest)
      simp only [Option.map_some, Option.bind_some, Conversion.precisionText, hprecision]
      cases field.withPrecision v.precision with
      | none => rfl
      | some field => exact evalLength_eq field v.length v.specifier rest

/-! ### The text of a format -/

theorem conversionText_format (c : UInt8) (field : Field D) (format : List UInt8) :
  conversionText c { field with format := format } = conversionText c field
  := rfl

/-- The loop puts out the meaning of the pieces, one after the other. -/
theorem roundsText_formatText (ps : List Piece) (rest : List UInt8) (va : List (Arg D))
    (h : ps.length < rounds) :
  roundsText rounds (formatText (0 :: rest) ps) va = (meaning ps va).map Prod.fst
  := by
  induction ps generalizing rounds va with
  | nil =>
      obtain ⟨rounds, rfl⟩ := Nat.exists_eq_add_of_lt h
      rfl
  | cons piece ps ih =>
      obtain ⟨rounds, rfl⟩ := Nat.exists_eq_succ_of_ne_zero (Nat.ne_zero_of_lt h)
      have hlt : ps.length < rounds := Nat.lt_of_succ_lt_succ h
      cases piece with
      | char c plain =>
          rw [formatText, roundsText, if_neg plain.1, if_pos plain.2, ih va hlt, meaning,
            Option.map_map, Option.map_map]
          rfl
      | conversion v =>
          rw [formatText, roundsText, if_neg (by decide), if_neg (not_not.mpr rfl), evalField_text,
            meaning]
          cases v.field va with
          | none => rfl
          | some field =>
              simp only [Option.map_some, Option.bind_eq_bind, Option.bind_some,
                conversionText_format]
              cases conversionText v.specifier.char field with
              | none => rfl
              | some r =>
                  simp only [Option.bind_some, ih _ hlt, Option.map_map]
                  rfl

theorem length_le_formatText (rest : List UInt8) (ps : List Piece) :
  ps.length + rest.length ≤ (formatText rest ps).length
  := by
  induction ps with
  | nil => simp [formatText]
  | cons piece ps ih =>
      cases piece with
      | char c plain =>
          simp only [formatText, List.length_cons]
          omega
      | conversion v =>
          simp only [formatText, List.length_cons, Conversion.text, Conversion.widthText,
            Conversion.precisionText, Conversion.lengthText, List.length_append]
          omega

/-- A format stands for what its pieces mean. -/
theorem text_formatText (ps : List Piece) (rest : List UInt8) (va : List (Arg D)) :
  text (formatText (0 :: rest) ps) va = (meaning ps va).map Prod.fst
  := by
  apply roundsText_formatText
  have h := length_le_formatText (0 :: rest) ps
  rw [List.length_cons] at h
  omega

/-- `printf_` prints what the pieces of its format mean, one behind the other, each with the
arguments that those before it have left, and returns the length. When a piece means nothing, the
behaviour is undefined. -/
theorem printf_formatText (ps : List Piece) (rest : List UInt8) (va : List (Arg D))
    (console : List UInt8) :
  printf (formatText (0 :: rest) ps) va console
    = (meaning ps va).map fun r => (console ++ r.1.filter (· ≠ 0), toSigned 32 r.1.length)
  := by
  rw [printf_eq, text_formatText, Option.map_map]
  rfl

end Printf
