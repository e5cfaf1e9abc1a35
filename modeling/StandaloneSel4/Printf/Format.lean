import StandaloneSel4.Word
import StandaloneSel4.Printf.Ntoa

/-!
# Formats

`_vsnprintf` (printf.c) goes over a format and puts out what it stands for through a function that
it is given: one that writes to a buffer, one that prints, or one that does nothing. The format is
given by the bytes of the object it is in, from the place on that has been reached. There is no
result where the behaviour is undefined: when a byte outside the object is read, when there is no
argument or one of another type, and when an `int` or a `long` overflows. What is put out of a
`double`, in floating point, is left to a parameter.
-/

namespace Printf

open Output

/-- What `_ftoa` and `_etoa` put out of a value, at a precision and a width. -/
structure Doubles where
  Double : Type
  ftoa : Double → ℕ → ℕ → Flags → List UInt8
  /-- The first flag is `FLAGS_ADAPT_EXP`. -/
  etoa : Bool → Double → ℕ → ℕ → Flags → List UInt8

/-- Where no `double` is an argument. -/
def noDoubles : Doubles where
  Double := Empty
  ftoa := nofun
  etoa := nofun

/-- An argument: a word, with the bytes of the object that it points into, if it does, from there
on, or a `double`. -/
inductive Arg (D : Doubles) where
  | word (w : ℕ) (object : List UInt8)
  | double (d : D.Double)

variable {D : Doubles}

/-- `va_arg`, for an integer or a pointer. -/
def vaWord : List (Arg D) → Option ((ℕ × List UInt8) × List (Arg D))
  | .word w object :: va => some ((w, object), va)
  | _ => none

/-- `va_arg(va, double)`. -/
def vaDouble : List (Arg D) → Option (D.Double × List (Arg D))
  | .double d :: va => some (d, va)
  | _ => none

/-- The integer of that many bits that a word is converted to. -/
def toSigned (bits w : ℕ) : ℤ :=
  Int.bmod w (2 ^ bits)

/-- `value > 0 ? value : 0 - value`, in a type of that many bits. -/
def absolute (bits : ℕ) (value : ℤ) : Option ℕ :=
  if value = -2 ^ (bits - 1) then none else some value.natAbs

/-! ### Fields of a conversion -/

/-- The flag that a character stands for is set. -/
def setFlag (flags : Flags) (c : UInt8) : Option Flags :=
  if c = ch '0' then some { flags with zeropad := true }
  else if c = ch '-' then some { flags with left := true }
  else if c = ch '+' then some { flags with plus := true }
  else if c = ch ' ' then some { flags with space := true }
  else if c = ch '#' then some { flags with hash := true }
  else none

/-- The loop over the flags. -/
def evalFlags (flags : Flags) : List UInt8 → Option (Flags × List UInt8)
  | [] => none
  | c :: format =>
      match setFlag flags c with
      | some flags => evalFlags flags format
      | none => some (flags, c :: format)

/-- `_is_digit`. -/
def isDigit (c : UInt8) : Bool :=
  ch '0' ≤ c && c ≤ ch '9'

/-- `_atoi`: the number, and where the digits end. -/
def atoi (i : ℕ) : List UInt8 → Option (ℕ × List UInt8)
  | [] => none
  | c :: str =>
      if isDigit c then atoi ((i * 10 + (c.toNat - 0x30)) % 2 ^ 32) str else some (i, c :: str)

/-- What has been read of a conversion. -/
structure Field (D : Doubles) where
  flags : Flags
  width : ℕ
  precision : ℕ
  format : List UInt8
  va : List (Arg D)

/-- A width that is given by an argument. If it is negative, `-` is set and its sign reversed. -/
def Field.setWidth (field : Field D) (w : ℤ) : Option (Field D) :=
  if w < 0 then
    (absolute 32 w).map fun n =>
      { field with flags := { field.flags with left := true }, width := n }
  else some { field with width := w.toNat }

/-- The width field. -/
def evalWidth (field : Field D) : Option (Field D) :=
  match field.format with
  | [] => none
  | c :: format =>
      if isDigit c then
        (atoi 0 field.format).map fun r => { field with width := r.1, format := r.2 }
      else if c = ch '*' then
        (vaWord field.va).bind fun r =>
          { field with format := format, va := r.2 }.setWidth (toSigned 32 r.1.1)
      else some field

/-- The precision field. -/
def evalPrecision (field : Field D) : Option (Field D) :=
  match field.format with
  | [] => none
  | c :: format =>
      if c = ch '.' then
        let field :=
          { field with flags := { field.flags with precision := true }, format := format }
        match format with
        | [] => none
        | c :: format =>
            if isDigit c then
              (atoi 0 field.format).map fun r => { field with precision := r.1, format := r.2 }
            else if c = ch '*' then
              (vaWord field.va).map fun r =>
                { field with precision := (toSigned 32 r.1.1).toNat, format := format, va := r.2 }
            else some field
      else some field

/-- The length field. The types `ptrdiff_t`, `intmax_t` and `size_t` are as large as `long`. -/
def evalLength (field : Field D) : Option (Field D) :=
  match field.format with
  | [] => none
  | c :: format =>
      if c = ch 'l' then
        let flags := { field.flags with long := true }
        match format with
        | [] => none
        | c :: rest =>
            if c = ch 'l' then
              some { field with flags := { flags with longLong := true }, format := rest }
            else some { field with flags := flags, format := format }
      else if c = ch 'h' then
        let flags := { field.flags with short := true }
        match format with
        | [] => none
        | c :: rest =>
            if c = ch 'h' then
              some { field with flags := { flags with char := true }, format := rest }
            else some { field with flags := flags, format := format }
      else if c = ch 't' ∨ c = ch 'j' ∨ c = ch 'z' then
        some { field with flags := { field.flags with long := true }, format := format }
      else some field

/-- All fields of a conversion up to its specifier. -/
def evalField (format : List UInt8) (va : List (Arg D)) : Option (Field D) := do
  let (flags, format) ← evalFlags Flags.zero format
  let field ← evalWidth ⟨flags, 0, 0, format, va⟩
  let field ← evalPrecision field
  evalLength field

/-! ### Conversions -/

/-- The base of a specifier of integers. -/
def baseOf (c : UInt8) : ℕ :=
  if c = ch 'x' ∨ c = ch 'X' then 16
  else if c = ch 'o' then 8
  else if c = ch 'b' then 2
  else 10

/-- Whether the specifier is one of signed integers. -/
def isSigned (c : UInt8) : Bool :=
  c = ch 'd' || c = ch 'i'

/-- The flags as a specifier of integers changes them. -/
def integerFlags (c : UInt8) (flags : Flags) : Flags :=
  { flags with
    hash := if baseOf c = 10 then false else flags.hash
    uppercase := if c = ch 'X' then true else flags.uppercase
    plus := if isSigned c then flags.plus else false
    space := if isSigned c then flags.space else false
    zeropad := if flags.precision then false else flags.zeropad }

/-- The bits of an integer. -/
def integerBits (flags : Flags) : ℕ :=
  if flags.longLong ∨ flags.long then 64
  else if flags.char then 8
  else if flags.short then 16
  else 32

/-- The absolute value of the integer that is converted, and whether it is negative. A `char` or
`short` is computed with as an `int`. -/
def integerValue (c : UInt8) (flags : Flags) (w : ℕ) : Option (ℕ × Bool) :=
  if isSigned c then do
    let value := toSigned (integerBits flags) w
    let abs ← absolute (max 32 (integerBits flags)) value
    return (abs, value < 0)
  else some (w % 2 ^ integerBits flags, false)

section

variable {σ : Type} (out : Put UInt8 σ)

/-- An integer. -/
def convertInteger (c : UInt8) (field : Field D) (s : Sent σ) :
    Option (Sent σ × List (Arg D)) := do
  let flags := integerFlags c field.flags
  let ((w, _), va) ← vaWord field.va
  let (value, negative) ← integerValue c flags w
  let s ←
    (if flags.longLong then
      ntoaLongLong out value negative (baseOf c) field.precision field.width flags s
    else ntoaLong out value negative (baseOf c) field.precision field.width flags s)
  return (s, va)

/-- A character. -/
def convertChar (field : Field D) (s : Sent σ) : Option (Sent σ × List (Arg D)) := do
  -- pre padding
  let s := if field.flags.left then s else spaces out (field.width - 1) s
  let ((w, _), va) ← vaWord field.va
  let s := s.put out (UInt8.ofNat w)
  -- post padding
  let s := if field.flags.left then spaces out (field.width - 1) s else s
  return (s, va)

/-- `_strnlen_s`. -/
def strnlenS : List UInt8 → ℕ → Option ℕ
  | [], _ => none
  | c :: str, maxsize =>
      if c = 0 ∨ maxsize = 0 then some 0 else (strnlenS str (maxsize - 1)).map (· + 1)

/-- The loop over the characters of a string, of which no more are put out than the precision says,
if there is one. -/
def outString : List UInt8 → Option ℕ → Sent σ → Option (Sent σ)
  | [], _, _ => none
  | c :: p, precision, s =>
      if c ≠ 0 ∧ precision ≠ some 0 then outString p (precision.map (· - 1)) (s.put out c)
      else some s

/-- A string. -/
def convertString (field : Field D) (s : Sent σ) : Option (Sent σ × List (Arg D)) := do
  let ((_, p), va) ← vaWord field.va
  let n ← strnlenS p (if field.precision ≠ 0 then field.precision else 2 ^ 64 - 1)
  let l := n % 2 ^ 32
  -- pre padding
  let l := if field.flags.precision then min l field.precision else l
  let s := if field.flags.left then s else spaces out (field.width - l) s
  -- string output
  let s ← outString out p (if field.flags.precision then some field.precision else none) s
  -- post padding
  let s := if field.flags.left then spaces out (field.width - l) s else s
  return (s, va)

/-- A pointer. -/
def convertPointer (field : Field D) (s : Sent σ) : Option (Sent σ × List (Arg D)) := do
  let flags := { field.flags with zeropad := true, uppercase := true }
  let ((w, _), va) ← vaWord field.va
  let s ← ntoaLongLong out w false 16 field.precision 16 flags s
  return (s, va)

/-- A `double`. -/
def convertDouble (text : D.Double → List UInt8) (field : Field D) (s : Sent σ) :
    Option (Sent σ × List (Arg D)) := do
  let (d, va) ← vaDouble field.va
  return (s.puts out (text d), va)

/-- The specifier of a conversion is evaluated. -/
def convert (c : UInt8) (field : Field D) (s : Sent σ) : Option (Sent σ × List (Arg D)) :=
  if c ∈ [ch 'd', ch 'i', ch 'u', ch 'x', ch 'X', ch 'o', ch 'b'] then
    convertInteger out c field s
  else if c = ch 'f' ∨ c = ch 'F' then
    let flags := { field.flags with uppercase := c = ch 'F' }
    convertDouble out (fun d => D.ftoa d field.precision field.width flags) field s
  else if c ∈ [ch 'e', ch 'E', ch 'g', ch 'G'] then
    let flags := { field.flags with uppercase := c = ch 'E' ∨ c = ch 'G' }
    convertDouble out
      (fun d => D.etoa (c = ch 'g' ∨ c = ch 'G') d field.precision field.width flags) field s
  else if c = ch 'c' then convertChar out field s
  else if c = ch 's' then convertString out field s
  else if c = ch 'p' then convertPointer out field s
  else if c = ch '%' then some (s.put out (ch '%'), field.va)
  else some (s.put out c, field.va)

/-- The loop of `_vsnprintf`. A round reads a byte of the format at least, so that there are no more
rounds than bytes. -/
def vsnprintfLoop : ℕ → List UInt8 → List (Arg D) → Sent σ → Option (Sent σ)
  | 0, _, _, _ => none
  | _ + 1, [], _, _ => none
  | rounds + 1, c :: format, va, s =>
      if c = 0 then some s
      else if c ≠ ch '%' then vsnprintfLoop rounds format va (s.put out c)
      else do
        let field ← evalField format va
        match field.format with
        | [] => none
        | c :: format => do
            let (s, va) ← convert out c field s
            vsnprintfLoop rounds format va s

end

/-- What an output function does with a character, given the buffer, the index and the size. -/
abbrev Out (σ : Type) : Type :=
  UInt8 → ℕ → ℕ → ℕ → σ → σ

/-- `_vsnprintf`: what the output went to, and the value returned. -/
def vsnprintf {σ : Type} (out : Out σ) (buffer maxlen : ℕ) (format : List UInt8)
    (va : List (Arg D)) (state : σ) : Option (σ × ℤ) := do
  let out := if buffer = 0 then fun _ _ _ _ state => state else out
  let s ← vsnprintfLoop (fun c idx => out c buffer idx maxlen) format.length format va ⟨state, 0⟩
  -- termination
  let state := out 0 buffer (if s.idx < maxlen then s.idx else Word.sub maxlen 1) maxlen s.state
  return (state, toSigned 32 s.idx)

end Printf
