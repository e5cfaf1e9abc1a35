import Mathlib.Algebra.Group.Int.Defs
import Mathlib.Algebra.Group.Nat.Defs
import Mathlib.Data.List.Basic
import Mathlib.Tactic.Common

/-!
# Reading numbers

`strtol` (lib/cstring.h) skips blanks, a sign and what it takes for the prefix of the base, and
reads digits as long as there are some. The text is given by the bytes of the object it is in, and
a pointer into the object by an index. There is no result where the behaviour is undefined: when
a byte outside the object is read, which the look at the previous character may do, when a `long`
overflows, and when `errno` is set, which the program has no function for.
-/

namespace CString

/-- The values that `errno` is set to. -/
inductive Errno where
  | einval
  | erange
  deriving DecidableEq

/-- `errno = e` in the program. `errno` is the object that `__errno_location` returns the address
of, and in cstubs.c `__errno_location` is a variable: the call goes to data. -/
def setErrno : Errno → Option Errno :=
  fun _ => none

/-- `LONG_MIN`. -/
def longMin : ℤ := -2 ^ 63

/-- `LONG_MAX`. -/
def longMax : ℤ := 2 ^ 63 - 1

/-- The value of a computation in `long`. -/
def long (x : ℤ) : Option ℤ :=
  if longMin ≤ x ∧ x ≤ longMax then some x else none

/-- `isspace`. -/
def isspace (c : UInt8) : Bool :=
  c = 0x20 || c = 0x09

/-- `isdigit`. -/
def isdigit (c : UInt8) : Bool :=
  0x30 ≤ c && c ≤ 0x39

/-- `isalpha`. -/
def isalpha (c : UInt8) : Bool :=
  (0x61 ≤ c && c ≤ 0x7A) || (0x41 ≤ c && c ≤ 0x5A)

/-- `toupper`. -/
def toupper (c : UInt8) : UInt8 :=
  if 0x61 ≤ c ∧ c ≤ 0x7A then 0x41 + c - 0x61 else c

/-- What `strtol` takes a character for: the value of a digit, or -1. -/
def number (c : UInt8) : ℤ :=
  let number : ℤ := if 48 ≤ c ∧ c ≤ 57 then c.toNat - 48 else -1
  if isalpha c then (toupper c).toNat - 55 else number

/-- `*(pos - 1)`. -/
def before (s : List UInt8) (pos : ℕ) : Option UInt8 :=
  if pos = 0 then none else s[pos - 1]?

/-- Where `strtol` has come to, and what it has read. -/
structure Scan where
  pos : ℕ
  sum : ℤ
  errno : Option Errno
  deriving DecidableEq

/-- The loop over the blanks, with the bytes that are left from `pos` on. -/
def skipBlanks : List UInt8 → ℕ → Option ℕ
  | [], _ => none
  | c :: rest, pos => if isspace c then skipBlanks rest (pos + 1) else some pos

/-- `if (p(*pos)) ++pos`. -/
def skipIf (s : List UInt8) (p : UInt8 → Bool) (pos : ℕ) : Option ℕ :=
  s[pos]?.map fun c => if p c then pos + 1 else pos

/-- The sign, and the position behind it. -/
def readSign (s : List UInt8) (pos : ℕ) : Option (ℤ × ℕ) := do
  let c ← s[pos]?
  let (sign, pos) := if c = 0x2D then ((-1 : ℤ), pos + 1) else (1, pos)
  let pos ← skipIf s (· = 0x2B) pos
  return (sign, pos)

/-- The base, and the position behind its prefix. -/
def readBase (s : List UInt8) (base : ℤ) (pos : ℕ) : Option (ℤ × ℕ) := do
  let pos ←
    if base = 16 then do
      let pos ← skipIf s (· = 0x30) pos
      skipIf s (fun c => c = 0x78 || c = 0x58) pos
    else if base = 8 then skipIf s (· = 0x30) pos
    else some pos
  if base = 0 then do
    let c ← s[pos]?
    if c = 0x30 then do
      let pos := pos + 1
      let c ← s[pos]?
      if c = 0x78 ∨ c = 0x58 then return (16, pos + 1) else return (8, pos)
    else return (10, pos)
  else return (base, pos)

/-- Takes a digit in. `assign` is what an assignment to `errno` does. -/
def accumulate (assign : Errno → Option Errno) (base sign number : ℤ) (scan : Scan) :
    Option Scan :=
  if sign = -1 then do
    let bound ← long (longMin + number)
    if bound.tdiv base ≤ scan.sum then do
      let product ← long (scan.sum * base)
      let sum ← long (product - number)
      return { scan with sum := sum }
    else do
      let errno ← assign .erange
      return { scan with sum := longMin, errno := some errno }
  else do
    let bound ← long (longMax - number)
    if scan.sum ≤ bound.tdiv base then do
      let product ← long (scan.sum * base)
      let sum ← long (product + number)
      return { scan with sum := sum }
    else do
      let errno ← assign .erange
      return { scan with sum := longMax, errno := some errno }

/-- The loop over the digits, with the bytes that are left. -/
def readDigits (assign : Errno → Option Errno) (s : List UInt8) (base sign : ℤ) :
    List UInt8 → Scan → Option Scan
  | [], _ => none
  | c :: rest, scan =>
      if c = 0 then some scan
      else if number c < base ∧ number c ≠ -1 then do
        let scan ← accumulate assign base sign (number c) scan
        readDigits assign s base sign rest { scan with pos := scan.pos + 1 }
      else if base = 16 ∧ base < number c then do
        let prev ← before s scan.pos
        if prev = 0x78 ∨ prev = 0x58 then return { scan with pos := scan.pos - 1 }
        else return scan
      else some scan

/-- What `strtol` returns, where it lets `*endPtr` point, and what it sets `errno` to. There are two
ways out on which `*endPtr` is left as it was. -/
structure Converted where
  value : ℤ
  endPtr : Option ℕ
  errno : Option Errno
  deriving DecidableEq

/-- `strtol`, with what an assignment to `errno` does. -/
def strtolWith (assign : Errno → Option Errno) (s : List UInt8) (nPtr : ℕ) (base : ℤ) :
    Option Converted := do
  let c ← s[nPtr]?
  if c = 0 then return ⟨0, none, none⟩
  else do
    let pos ← skipBlanks (s.drop nPtr) nPtr
    let (sign, pos) ← readSign s pos
    let (base, pos) ← readBase s base pos
    if (base < 2 ∨ 36 < base) ∧ base ≠ 0 then do
      let errno ← assign .einval
      return ⟨0, none, some errno⟩
    else do
      let scan ← readDigits assign s base sign (s.drop pos) ⟨pos, 0, none⟩
      let prev ← before s scan.pos
      let pos := if ¬ isdigit prev ∧ ¬ isalpha prev then nPtr else scan.pos
      return ⟨scan.sum, some pos, scan.errno⟩

/-- `strtol` in the program. -/
def strtol : List UInt8 → ℕ → ℤ → Option Converted :=
  strtolWith setErrno

/-! ### Digits -/

/-- The character is a digit of the base. -/
def IsDigit (base : ℤ) (c : UInt8) : Prop :=
  0 ≤ number c ∧ number c < base

/-- The number that digits stand for, behind those of the number `v`. -/
def valueFrom (base : ℕ) (v : ℕ) (ds : List UInt8) : ℕ :=
  ds.foldl (fun v c => v * base + (number c).toNat) v

/-- The greatest absolute value that does not overflow. -/
def limit (sign : ℤ) : ℕ :=
  if sign = -1 then 2 ^ 63 else 2 ^ 63 - 1

/-- What has been read are digits of the number `v`: the sum is that number, as far as the limit,
and `errno` says whether it is beyond. -/
structure Scan.Reads (scan : Scan) (sign : ℤ) (v : ℕ) : Prop where
  sum : scan.sum = sign * min v (limit sign)
  errno : scan.errno = if limit sign < v then some .erange else none

variable {s rest ds : List UInt8} {sign : ℤ} {scan : Scan} {b v pos k : ℕ} {c : UInt8}

theorem Scan.Reads.errno_eq_none_iff (h : scan.Reads sign v) :
  scan.errno = none ↔ v ≤ limit sign
  := by
  rw [h.errno, ← Nat.not_lt]
  split
  · rename_i hlt
    exact iff_of_false (Option.some_ne_none _) (not_not.mpr hlt)
  · rename_i hle
    exact iff_of_true rfl hle

/-- The value of `toupper`. -/
theorem toNat_toupper (c : UInt8) :
  (toupper c).toNat = if 0x61 ≤ c.toNat ∧ c.toNat ≤ 0x7A then c.toNat - 0x20 else c.toNat
  := by
  have hlower : (0x41 + c - 0x61).toNat = (c.toNat + 0xE0) % 0x100 := by
    rw [UInt8.toNat_sub, UInt8.toNat_add]
    simp only [UInt8.reduceToNat]
    omega
  simp only [toupper, UInt8.le_iff_toNat_le, UInt8.reduceToNat]
  split
  · rw [hlower]
    omega
  · rfl

/-- Digits are taken for their values, and letters for the values they have in a base that is great
enough. -/
theorem number_eq (c : UInt8) :
  number c = if 0x30 ≤ c.toNat ∧ c.toNat ≤ 0x39 then (c.toNat : ℤ) - 0x30
    else if 0x41 ≤ c.toNat ∧ c.toNat ≤ 0x5A then (c.toNat : ℤ) - 0x37
    else if 0x61 ≤ c.toNat ∧ c.toNat ≤ 0x7A then (c.toNat : ℤ) - 0x57
    else -1
  := by
  simp only [number, isalpha, toNat_toupper, Bool.or_eq_true, Bool.and_eq_true, decide_eq_true_eq,
    UInt8.le_iff_toNat_le, UInt8.reduceToNat]
  grind

/-- The test against overflow is exact. -/
theorem min_le_div_iff {d L : ℕ} (hb : 2 ≤ b) (hd : d < L) :
  min v L ≤ (L - d) / b ↔ v * b + d ≤ L
  := by
  rw [Nat.le_div_iff_mul_le (by omega)]
  rcases Nat.le_total v L with hle | hle
  · rw [Nat.min_eq_left hle]
    omega
  · rw [Nat.min_eq_right hle]
    have hL : L * 2 ≤ L * b := Nat.mul_le_mul_left L hb
    have hv : L * b ≤ v * b := Nat.mul_le_mul_right b hle
    omega

theorem limit_pos (sign : ℤ) :
  36 < limit sign
  := by
  unfold limit
  split <;> decide

theorem long_natCast {n : ℕ} (h : n ≤ limit 1) :
  long n = some (n : ℤ)
  := by
  have hmax : longMax = (limit 1 : ℕ) := rfl
  apply if_pos
  rw [hmax, longMin]
  omega

theorem long_neg_natCast {n : ℕ} (h : n ≤ limit (-1)) :
  long (-n) = some (-n : ℤ)
  := by
  have hmin : longMin = -(limit (-1) : ℕ) := rfl
  apply if_pos
  rw [hmin, longMax]
  omega

/-- Taking in a digit leads to the number with the digit behind it, and no `long` overflows. -/
theorem accumulate_reads {d : ℕ} (hb : 2 ≤ b) (hb' : b ≤ 36) (hsign : sign = 1 ∨ sign = -1)
    (hd : d < b) (h : scan.Reads sign v) :
  ∃ scan', accumulate some b sign d scan = some scan' ∧ scan'.pos = scan.pos
    ∧ scan'.Reads sign (v * b + d)
  := by
  have hL := limit_pos sign
  have htest : min v (limit sign) ≤ (limit sign - d) / b ↔ v * b + d ≤ limit sign :=
    min_le_div_iff hb (by omega)
  have hmul : v ≤ v * b := Nat.le_mul_of_pos_right v (by omega)
  rcases hsign with rfl | rfl
  · have hbound : long (longMax - d) = some ((limit 1 - d : ℕ) : ℤ) := by
      rw [← long_natCast (Nat.sub_le _ _), Int.ofNat_sub (by omega)]
      rfl
    have hneg : ¬ (1 : ℤ) = -1 := by decide
    rw [accumulate, if_neg hneg, hbound]
    simp only [Option.bind_eq_bind, Option.bind_some, ← Int.ofNat_tdiv, h.sum, Int.one_mul,
      Int.ofNat_le, htest]
    by_cases hfits : v * b + d ≤ limit 1
    · rw [if_pos hfits, Nat.min_eq_left (by omega), ← Int.natCast_mul, long_natCast (by omega),
        Option.bind_some, ← Int.natCast_add, long_natCast hfits]
      refine ⟨_, rfl, rfl, ?_, ?_⟩
      · rw [Nat.min_eq_left hfits, Int.one_mul]
      · rw [h.errno, if_neg (by omega), if_neg (Nat.not_lt.mpr hfits)]
    · rw [if_neg hfits]
      refine ⟨_, rfl, rfl, ?_, ?_⟩
      · rw [Nat.min_eq_right (by omega)]
        rfl
      · rw [if_pos (Nat.not_le.mp hfits)]
  · have hbound : long (longMin + d) = some (-((limit (-1) - d : ℕ) : ℤ)) := by
      rw [← long_neg_natCast (Nat.sub_le _ _), Int.ofNat_sub (by omega), Int.neg_sub, Int.add_comm]
      rfl
    rw [accumulate, if_pos rfl, hbound]
    simp only [Option.bind_eq_bind, Option.bind_some, Int.neg_tdiv, ← Int.ofNat_tdiv, h.sum,
      Int.neg_mul, Int.one_mul, Int.neg_le_neg_iff, Int.ofNat_le, htest]
    by_cases hfits : v * b + d ≤ limit (-1)
    · have hsum : (-(v * b : ℕ) : ℤ) - d = -(v * b + d : ℕ) := by omega
      rw [if_pos hfits, Nat.min_eq_left (by omega), ← Int.natCast_mul, long_neg_natCast (by omega),
        Option.bind_some, hsum, long_neg_natCast hfits]
      refine ⟨_, rfl, rfl, ?_, ?_⟩
      · rw [Nat.min_eq_left hfits, Int.neg_mul, Int.one_mul]
      · rw [h.errno, if_neg (by omega), if_neg (Nat.not_lt.mpr hfits)]
    · rw [if_neg hfits]
      refine ⟨_, rfl, rfl, ?_, ?_⟩
      · rw [Nat.min_eq_right (by omega)]
        rfl
      · rw [if_pos (Nat.not_le.mp hfits)]

/-- A digit is not the end of the text. -/
theorem IsDigit.ne_zero {base : ℤ} (h : IsDigit base c) :
  c ≠ 0
  := by
  rintro rfl
  exact absurd h.1 (by decide)

/-- A round of the loop over the digits. -/
theorem readDigits_digit (hb : 2 ≤ b) (hb' : b ≤ 36) (hsign : sign = 1 ∨ sign = -1)
    (hc : IsDigit b c) (h : scan.Reads sign v) :
  ∃ scan', readDigits some s b sign (c :: rest) scan = readDigits some s b sign rest scan'
    ∧ scan'.pos = scan.pos + 1 ∧ scan'.Reads sign (v * b + (number c).toNat)
  := by
  obtain ⟨hlo, hhi⟩ := hc
  have hnum : ((number c).toNat : ℤ) = number c := Int.toNat_of_nonneg hlo
  have hlt : (number c).toNat < b := by omega
  obtain ⟨scan', hacc, hpos, hreads⟩ := accumulate_reads hb hb' hsign hlt h
  rw [hnum] at hacc
  have htest : number c < b ∧ number c ≠ -1 := by omega
  rw [readDigits, if_neg (IsDigit.ne_zero ⟨hlo, hhi⟩), if_pos htest, hacc]
  exact ⟨_, rfl, congrArg (· + 1) hpos, hreads.sum, hreads.errno⟩

/-- The loop goes over all the digits. -/
theorem readDigits_append (rest : List UInt8) (hb : 2 ≤ b) (hb' : b ≤ 36)
    (hsign : sign = 1 ∨ sign = -1) (hds : ∀ c ∈ ds, IsDigit b c) (h : scan.Reads sign v) :
  ∃ scan', readDigits some s b sign (ds ++ rest) scan = readDigits some s b sign rest scan'
    ∧ scan'.pos = scan.pos + ds.length ∧ scan'.Reads sign (valueFrom b v ds)
  := by
  induction ds generalizing scan v with
  | nil => exact ⟨scan, rfl, rfl, h⟩
  | cons c ds ih =>
      obtain ⟨hc, hds⟩ := List.forall_mem_cons.mp hds
      obtain ⟨scan₁, hstep, hpos₁, h₁⟩ := readDigits_digit hb hb' hsign hc h
      obtain ⟨scan₂, hloop, hpos₂, h₂⟩ := ih hds h₁
      refine ⟨scan₂, ?_, ?_, h₂⟩
      · rw [List.cons_append, hstep, hloop]
      · rw [hpos₂, hpos₁, List.length_cons]
        omega

/-! ### Setting `errno` -/

/-- What comes about without setting `errno`. -/
def unset (o : Option Scan) : Option Scan :=
  o.filter fun scan => scan.errno = none

theorem unset_some (h : scan.errno = none) :
  unset (some scan) = some scan
  := Option.filter_some_pos (decide_eq_true h)

theorem unset_some_of_ne (h : scan.errno ≠ none) :
  unset (some scan) = none
  := Option.filter_some_neg (by simpa using h)

/-- Taking a digit in either changes the sum, if no `long` overflows, or comes to the limit and sets
`errno`. -/
theorem accumulate_cases (base sign n : ℤ) (scan : Scan) :
  (∃ next : Option ℤ, ∀ assign,
      accumulate assign base sign n scan = next.map fun sum => { scan with sum := sum })
    ∨ ∃ bound, ∀ assign, accumulate assign base sign n scan
        = (assign .erange).map fun errno => { scan with sum := bound, errno := some errno }
  := by
  unfold accumulate
  split
  · cases long (longMin + n) with
    | none => exact .inl ⟨none, fun _ => rfl⟩
    | some bound =>
        by_cases htest : bound.tdiv base ≤ scan.sum
        · refine .inl ⟨(long (scan.sum * base)).bind fun product => long (product - n), ?_⟩
          intro assign
          simp only [Option.bind_eq_bind, Option.bind_some, if_pos htest, Option.map_eq_bind,
            Option.bind_assoc]
          rfl
        · refine .inr ⟨longMin, fun assign => ?_⟩
          simp only [Option.bind_eq_bind, Option.bind_some, if_neg htest, Option.map_eq_bind]
          rfl
  · cases long (longMax - n) with
    | none => exact .inl ⟨none, fun _ => rfl⟩
    | some bound =>
        by_cases htest : scan.sum ≤ bound.tdiv base
        · refine .inl ⟨(long (scan.sum * base)).bind fun product => long (product + n), ?_⟩
          intro assign
          simp only [Option.bind_eq_bind, Option.bind_some, if_pos htest, Option.map_eq_bind,
            Option.bind_assoc]
          rfl
        · refine .inr ⟨longMax, fun assign => ?_⟩
          simp only [Option.bind_eq_bind, Option.bind_some, if_neg htest, Option.map_eq_bind]
          rfl

/-- In the program it comes to the same unless `errno` is set. -/
theorem accumulate_setErrno (base sign n : ℤ) (h : scan.errno = none) :
  accumulate setErrno base sign n scan = unset (accumulate some base sign n scan)
  := by
  obtain ⟨next, hnext⟩ | ⟨bound, hbound⟩ := accumulate_cases base sign n scan
  · rw [hnext, hnext]
    cases next with
    | none => rfl
    | some sum => exact (@unset_some { scan with sum := sum } h).symm
  · rw [hbound, hbound]
    rfl

/-- `errno` is not cleared. -/
theorem accumulate_errno {base n : ℤ} {scan' : Scan} (h : scan.errno ≠ none)
    (haccumulate : accumulate some base sign n scan = some scan') :
  scan'.errno ≠ none
  := by
  obtain ⟨next, hnext⟩ | ⟨bound, hbound⟩ := accumulate_cases base sign n scan
  · rw [hnext] at haccumulate
    obtain ⟨sum, -, rfl⟩ := Option.map_eq_some_iff.mp haccumulate
    exact h
  · rw [hbound] at haccumulate
    obtain rfl := Option.some.inj haccumulate
    exact Option.some_ne_none _

theorem readDigits_errno {base : ℤ} (h : scan.errno ≠ none) :
  unset (readDigits some s base sign rest scan) = none
  := by
  induction rest generalizing scan with
  | nil => rfl
  | cons c rest ih =>
      unfold readDigits
      split_ifs
      · exact unset_some_of_ne h
      · cases haccumulate : accumulate some base sign (number c) scan with
        | none => rfl
        | some scan' =>
            have herrno := accumulate_errno h haccumulate
            exact @ih { scan' with pos := scan'.pos + 1 } herrno
      · cases before s scan.pos with
        | none => rfl
        | some prev =>
            rw [Option.bind_eq_bind, Option.bind_some]
            split_ifs
            · exact @unset_some_of_ne { scan with pos := scan.pos - 1 } h
            · exact unset_some_of_ne h
      · exact unset_some_of_ne h

/-- The loop over the digits comes to the same in the program, unless `errno` is set. -/
theorem readDigits_setErrno (s : List UInt8) (base sign : ℤ) (rest : List UInt8)
    (h : scan.errno = none) :
  readDigits setErrno s base sign rest scan = unset (readDigits some s base sign rest scan)
  := by
  induction rest generalizing scan with
  | nil => rfl
  | cons c rest ih =>
      unfold readDigits
      split_ifs
      · exact (unset_some h).symm
      · rw [accumulate_setErrno base sign (number c) h]
        cases haccumulate : accumulate some base sign (number c) scan with
        | none => rfl
        | some scan' =>
            by_cases herrno : scan'.errno = none
            · rw [unset_some herrno]
              exact @ih { scan' with pos := scan'.pos + 1 } herrno
            · rw [unset_some_of_ne herrno]
              exact (@readDigits_errno s rest sign { scan' with pos := scan'.pos + 1 } base
                herrno).symm
      · cases before s scan.pos with
        | none => rfl
        | some prev =>
            rw [Option.bind_eq_bind, Option.bind_some]
            split_ifs
            · exact (@unset_some { scan with pos := scan.pos - 1 } h).symm
            · exact (unset_some h).symm
      · exact (unset_some h).symm

/-- So does `strtol`. -/
theorem strtol_eq_filter (s : List UInt8) (nPtr : ℕ) (base : ℤ) :
  strtol s nPtr base = (strtolWith some s nPtr base).filter fun r => r.errno = none
  := by
  unfold strtol strtolWith
  cases s[nPtr]? with
  | none => rfl
  | some c =>
      simp only [Option.bind_eq_bind, Option.bind_some]
      split_ifs
      · rfl
      cases skipBlanks (s.drop nPtr) nPtr with
      | none => rfl
      | some pos =>
          rw [Option.bind_some, Option.bind_some]
          cases readSign s pos with
          | none => rfl
          | some signed =>
              rw [Option.bind_some, Option.bind_some]
              cases readBase s base signed.2 with
              | none => rfl
              | some based =>
                  rw [Option.bind_some, Option.bind_some]
                  split_ifs
                  · rfl
                  rw [readDigits_setErrno _ _ _ _ rfl]
                  cases readDigits some s based.1 signed.1 (s.drop based.2) ⟨based.2, 0, none⟩ with
                  | none => rfl
                  | some scan =>
                      rw [Option.bind_some]
                      by_cases herrno : scan.errno = none
                      · rw [unset_some herrno, Option.bind_some]
                        cases before s scan.pos with
                        | none => rfl
                        | some prev =>
                            refine (Option.filter_some_pos ?_).symm
                            exact decide_eq_true herrno
                      · rw [unset_some_of_ne herrno]
                        cases before s scan.pos with
                        | none => rfl
                        | some prev => exact (Option.filter_some_neg (by simpa using herrno)).symm

/-- What `strtol` finds in the program is what it would find with an `errno`, which is not set. -/
theorem strtol_eq_some_iff {r : Converted} {base : ℤ} :
  strtol s k base = some r ↔ strtolWith some s k base = some r ∧ r.errno = none
  := by
  rw [strtol_eq_filter, Option.filter_eq_some_iff, decide_eq_true_eq]

/-- The value that comes back in the program. -/
theorem value_strtol_iff {r : Converted} {base n : ℤ} (h : strtolWith some s k base = some r) :
  (strtol s k base).map Converted.value = some n ↔ r.errno = none ∧ r.value = n
  := by
  rw [Option.map_eq_some_iff]
  constructor
  · rintro ⟨r', hr', hvalue⟩
    obtain ⟨hr', herrno⟩ := strtol_eq_some_iff.mp hr'
    obtain rfl : r = r' := Option.some.inj (h.symm.trans hr')
    exact ⟨herrno, hvalue⟩
  · rintro ⟨herrno, hvalue⟩
    exact ⟨r, strtol_eq_some_iff.mpr ⟨h, herrno⟩, hvalue⟩

end CString
