import StandaloneSel4.Lib.Output
import Mathlib.Data.Nat.Digits.Lemmas

/-!
# Printing integers

`_ntoa_long` (printf.c) writes the digits of a number into a buffer of 32 bytes, the last digit
first, `_ntoa_format` writes zeros, the prefix of the base and the sign behind them, and `_out_rev`
puts the buffer out from its end, with spaces up to the width. Here the buffer is the list of what
has been written to it, with the byte written last in front, and there is no result if a byte is
written behind its end.
-/

namespace Printf

open Output

/-- The flags of a conversion. -/
structure Flags where
  zeropad : Bool
  left : Bool
  plus : Bool
  space : Bool
  hash : Bool
  uppercase : Bool
  char : Bool
  short : Bool
  long : Bool
  longLong : Bool
  precision : Bool
  deriving DecidableEq

/-- No flags. -/
def Flags.zero : Flags :=
  ⟨false, false, false, false, false, false, false, false, false, false, false⟩

/-- A character. -/
abbrev ch (c : Char) : UInt8 :=
  UInt8.ofNat c.toNat

/-- `PRINTF_NTOA_BUFFER_SIZE`. -/
def ntoaBufferSize : ℕ := 32

/-- The assignment `buf[len++] = c`. -/
def push (c : UInt8) (buf : List UInt8) : Option (List UInt8) :=
  if buf.length < ntoaBufferSize then some (c :: buf) else none

section

variable {σ : Type} (out : Put UInt8 σ)

/-- Spaces, from a loop that makes so many rounds. -/
def spaces (n : ℕ) (s : Sent σ) : Sent σ :=
  s.puts out (List.replicate n (ch ' '))

/-- `_out_rev`. -/
def outRev (buf : List UInt8) (width : ℕ) (flags : Flags) (s : Sent σ) : Sent σ :=
  let startIdx := s.idx
  -- pad spaces up to given width
  let s := if !flags.left && !flags.zeropad then spaces out (width - buf.length) s else s
  -- reverse string
  let s := s.puts out buf
  -- append pad spaces up to given width
  if flags.left then spaces out (width - (s.idx - startIdx)) s else s

end

/-- The loop that writes zeros as long as there are less than `n` characters in the buffer, and as
it has room. It makes no more rounds than there are bytes in the buffer. -/
def padZeros (n : ℕ) : ℕ → List UInt8 → Option (List UInt8)
  | 0, buf => some buf
  | rounds + 1, buf =>
      if buf.length < n ∧ buf.length < ntoaBufferSize then
        (push (ch '0') buf).bind (padZeros n rounds)
      else some buf

/-- The digits that `_ntoa_format` takes back for the flag `#`. -/
def dropLeading (base prec width : ℕ) (flags : Flags) (buf : List UInt8) : List UInt8 :=
  if !flags.precision ∧ buf.length ≠ 0 ∧ (buf.length = prec ∨ buf.length = width) then
    let buf := buf.tail
    if buf.length ≠ 0 ∧ base = 16 then buf.tail else buf
  else buf

/-- The character of the base that `_ntoa_format` writes for the flag `#`. -/
def pushBase (base : ℕ) (flags : Flags) (buf : List UInt8) : Option (List UInt8) :=
  if base = 16 ∧ !flags.uppercase ∧ buf.length < ntoaBufferSize then push (ch 'x') buf
  else if base = 16 ∧ flags.uppercase ∧ buf.length < ntoaBufferSize then push (ch 'X') buf
  else if base = 2 ∧ buf.length < ntoaBufferSize then push (ch 'b') buf
  else some buf

/-- What `_ntoa_format` does to the buffer for the flag `#`. -/
def hashPrefix (base prec width : ℕ) (flags : Flags) (buf : List UInt8) : Option (List UInt8) :=
  if flags.hash then
    (pushBase base flags (dropLeading base prec width flags buf)).bind fun buf =>
      if buf.length < ntoaBufferSize then push (ch '0') buf else some buf
  else some buf

/-- What `_ntoa_format` writes for the sign. -/
def pushSign (negative : Bool) (flags : Flags) (buf : List UInt8) : Option (List UInt8) :=
  if buf.length < ntoaBufferSize then
    if negative then push (ch '-') buf
    else if flags.plus then push (ch '+') buf
    else if flags.space then push (ch ' ') buf
    else some buf
  else some buf

/-- The width as `_ntoa_format` pads leading zeros: it leaves room for the sign. -/
def signWidth (negative : Bool) (width : ℕ) (flags : Flags) : ℕ :=
  if width ≠ 0 ∧ flags.zeropad ∧ (negative ∨ flags.plus ∨ flags.space) then width - 1 else width

/-- The leading zeros, for the precision and then for the width. -/
def padLeading (prec width : ℕ) (flags : Flags) (buf : List UInt8) : Option (List UInt8) :=
  if flags.left then some buf
  else
    (padZeros prec ntoaBufferSize buf).bind fun buf =>
      if flags.zeropad then padZeros width ntoaBufferSize buf else some buf

/-- `_ntoa_format`, up to the call of `_out_rev`: the buffer and the width. -/
def fillBuffer (buf : List UInt8) (negative : Bool) (base prec width : ℕ) (flags : Flags) :
    Option (List UInt8 × ℕ) := do
  let width := if flags.left then width else signWidth negative width flags
  let buf ← padLeading prec width flags buf
  let buf ← hashPrefix base prec width flags buf
  let buf ← pushSign negative flags buf
  return (buf, width)

/-- The character of a digit. -/
def digitChar (flags : Flags) (digit : ℕ) : UInt8 :=
  if digit < 10 then UInt8.ofNat (0x30 + digit)
  else UInt8.ofNat ((if flags.uppercase then 0x41 else 0x61) + digit - 10)

/-- The loop over the digits of the value. It makes no more rounds than there are bytes in the
buffer. -/
def writeDigits (base : ℕ) (flags : Flags) : ℕ → ℕ → List UInt8 → Option (List UInt8)
  | 0, _, buf => some buf
  | rounds + 1, value, buf =>
      (push (digitChar flags (value % base)) buf).bind fun buf =>
        if value / base ≠ 0 ∧ buf.length < ntoaBufferSize then
          writeDigits base flags rounds (value / base) buf
        else some buf

/-- The digits that `_ntoa_long` writes: if precision != 0 and value is != 0. -/
def writeNumber (base value : ℕ) (flags : Flags) : Option (List UInt8) :=
  if !flags.precision ∨ value ≠ 0 then writeDigits base flags ntoaBufferSize value [] else some []

/-- `_ntoa_long`, with what `_ntoa_format` does. -/
def ntoaLong {σ : Type} (out : Put UInt8 σ) (value : ℕ) (negative : Bool) (base prec width : ℕ)
    (flags : Flags) (s : Sent σ) : Option (Sent σ) := do
  -- no hash for 0 values
  let flags := if value = 0 then { flags with hash := false } else flags
  let buf ← writeNumber base value flags
  let (buf, width) ← fillBuffer buf negative base prec width flags
  return outRev out buf width flags s

/-- `_ntoa_long_long`. The types `long` and `long long` are the same. -/
def ntoaLongLong {σ : Type} (out : Put UInt8 σ) (value : ℕ) (negative : Bool)
    (base prec width : ℕ) (flags : Flags) (s : Sent σ) : Option (Sent σ) :=
  ntoaLong out value negative base prec width flags s

/-! ### The buffer -/

variable {buf : List UInt8} {flags : Flags} {base value prec width n rounds : ℕ} {negative : Bool}

theorem push_of_lt (c : UInt8) (h : buf.length < ntoaBufferSize) :
  push c buf = some (c :: buf)
  := if_pos h

/-- Zeros are written up to `n` characters, or until the buffer is full. -/
theorem padZeros_eq (h : ntoaBufferSize ≤ buf.length + rounds) :
  padZeros n rounds buf
    = some (List.replicate (min n ntoaBufferSize - buf.length) (ch '0') ++ buf)
  := by
  induction rounds generalizing buf with
  | zero =>
      have hzero : min n ntoaBufferSize - buf.length = 0 := by omega
      rw [padZeros, hzero]
      rfl
  | succ rounds ih =>
      rw [padZeros]
      split
      · rename_i hlt
        have hlen : ntoaBufferSize ≤ (ch '0' :: buf).length + rounds := by
          rw [List.length_cons]
          omega
        have hcount : min n ntoaBufferSize - buf.length
            = min n ntoaBufferSize - (ch '0' :: buf).length + 1 := by
          rw [List.length_cons]
          omega
        rw [push_of_lt _ hlt.2, Option.bind_some, ih hlen, hcount, List.replicate_succ',
          List.append_assoc, List.singleton_append]
      · have hzero : min n ntoaBufferSize - buf.length = 0 := by omega
        rw [hzero]
        rfl

/-- The characters in the buffer after zeros have been written up to `n`. -/
theorem length_padZeros (hbuf : buf.length ≤ ntoaBufferSize) :
  (List.replicate (min n ntoaBufferSize - buf.length) (ch '0') ++ buf).length
    = max buf.length (min n ntoaBufferSize)
  := by
  rw [List.length_append, List.length_replicate]
  omega

/-- The sign that is written if there is room. -/
def signText (negative : Bool) (flags : Flags) : List UInt8 :=
  if negative then [ch '-'] else if flags.plus then [ch '+'] else if flags.space then [ch ' ']
  else []

theorem pushSign_eq (negative : Bool) (flags : Flags) (buf : List UInt8) :
  pushSign negative flags buf = some
    (if buf.length < ntoaBufferSize then signText negative flags ++ buf else buf)
  := by
  unfold pushSign signText
  by_cases h : buf.length < ntoaBufferSize
  · simp only [if_pos h, push_of_lt _ h]
    split_ifs <;> rfl
  · simp only [if_neg h]

/-- The buffer after a byte has been written if there is room. -/
def pushed (c : UInt8) (buf : List UInt8) : List UInt8 :=
  if buf.length < ntoaBufferSize then c :: buf else buf

/-- The character between the zero and the digits in the prefix of a base. -/
def baseChar (base : ℕ) (flags : Flags) : List UInt8 :=
  if base = 16 then [if flags.uppercase then ch 'X' else ch 'x']
  else if base = 2 then [ch 'b']
  else []

theorem pushBase_eq (base : ℕ) (flags : Flags) (buf : List UInt8) :
  pushBase base flags buf = some ((baseChar base flags).foldl (fun b c => pushed c b) buf)
  := by
  unfold pushBase baseChar
  by_cases hlt : buf.length < ntoaBufferSize
  · simp only [push_of_lt _ hlt, hlt, and_true]
    by_cases h16 : base = 16
    · cases hupper : flags.uppercase <;> simp [h16, pushed, hlt]
    · by_cases h2 : base = 2 <;> simp [h2, h16, pushed, hlt]
  · split_ifs <;> simp_all [pushed]

/-- What is in the buffer after what is done for `#`. -/
def hashed (base prec width : ℕ) (flags : Flags) (buf : List UInt8) : List UInt8 :=
  if flags.hash then
    pushed (ch '0')
      ((baseChar base flags).foldl (fun b c => pushed c b) (dropLeading base prec width flags buf))
  else buf

theorem hashPrefix_eq (base prec width : ℕ) (flags : Flags) (buf : List UInt8) :
  hashPrefix base prec width flags buf = some (hashed base prec width flags buf)
  := by
  unfold hashPrefix hashed
  split
  · rw [pushBase_eq, Option.bind_some, pushed]
    split
    · apply push_of_lt _ ‹_›
    · rfl
  · rfl

/-! ### Digits -/

/-- The digits of a number, the least significant first; the number zero has one. -/
def digitsOf (base value : ℕ) : List ℕ :=
  if value = 0 then [0] else Nat.digits base value

theorem digitsOf_eq (hbase : 1 < base) (value : ℕ) :
  digitsOf base value
    = value % base :: if value / base ≠ 0 then digitsOf base (value / base) else []
  := by
  unfold digitsOf
  by_cases hvalue : value = 0
  · simp [hvalue]
  · rw [if_neg hvalue, Nat.digits_def' hbase (Nat.pos_of_ne_zero hvalue)]
    by_cases hdiv : value / base = 0
    · simp [hdiv]
    · rw [if_pos hdiv, if_neg hdiv]

/-- The last digits of a number are written, as many as there is room for. -/
theorem writeDigits_eq (hbase : 1 < base) (flags : Flags) (hrounds : 0 < rounds)
    (h : buf.length + rounds = ntoaBufferSize) :
  writeDigits base flags rounds value buf
    = some (((digitsOf base value).take rounds).reverse.map (digitChar flags) ++ buf)
  := by
  induction rounds generalizing value buf with
  | zero => cases hrounds
  | succ rounds ih =>
      rw [writeDigits, push_of_lt _ (by omega), Option.bind_some, digitsOf_eq hbase,
        List.take_succ_cons, List.reverse_cons, List.map_append, List.append_assoc]
      by_cases hdiv : value / base ≠ 0
      · rw [if_pos hdiv]
        by_cases hpos : 0 < rounds
        · have hlt : (digitChar flags (value % base) :: buf).length < ntoaBufferSize := by
            rw [List.length_cons]
            omega
          rw [if_pos ⟨hdiv, hlt⟩, ih hpos (by rw [List.length_cons]; omega)]
          rfl
        · obtain rfl : rounds = 0 := Nat.eq_zero_of_not_pos hpos
          have hfull : ¬ (digitChar flags (value % base) :: buf).length < ntoaBufferSize := by
            rw [List.length_cons]
            omega
          rw [if_neg fun hand => hfull hand.2]
          rfl
      · rw [if_neg hdiv, if_neg fun hand => hdiv hand.1]
        simp

/-! ### The text of an integer -/

/-- What is put out of a buffer: its characters, with spaces up to the width. -/
def outRevText (buf : List UInt8) (width : ℕ) (flags : Flags) : List UInt8 :=
  let pad := List.replicate (width - buf.length) (ch ' ')
  (if !flags.left && !flags.zeropad then pad else []) ++ buf ++ (if flags.left then pad else [])

theorem outRev_eq {σ : Type} (out : Put UInt8 σ) (buf : List UInt8) (width : ℕ) (flags : Flags)
    (s : Sent σ) :
  outRev out buf width flags s = s.puts out (outRevText buf width flags)
  := by
  unfold outRev outRevText spaces
  cases hleft : flags.left
  · cases hzero : flags.zeropad <;> simp [Sent.puts_append]
  · have hlen : s.idx + buf.length - s.idx = buf.length := Nat.add_sub_cancel_left _ _
    simp [Sent.puts_append, hlen]

/-- The leading zeros in front of the digits: none if the text is aligned to the left, and no more
than the buffer has room for. -/
def leadingZeros (prec width : ℕ) (flags : Flags) (buf : List UInt8) : List UInt8 :=
  if flags.left then []
  else List.replicate
    (min (max prec (if flags.zeropad then width else 0)) ntoaBufferSize - buf.length) (ch '0')

theorem padLeading_eq (hbuf : buf.length ≤ ntoaBufferSize) :
  padLeading prec width flags buf = some (leadingZeros prec width flags buf ++ buf)
  := by
  unfold padLeading leadingZeros
  cases hleft : flags.left
  · rw [if_neg Bool.false_ne_true, if_neg Bool.false_ne_true, padZeros_eq (Nat.le_add_left _ _),
      Option.bind_some]
    cases hzero : flags.zeropad
    · simp
    · have hlen := length_padZeros (n := prec) hbuf
      have hcount : min (max prec width) ntoaBufferSize - buf.length
          = (min width ntoaBufferSize - max buf.length (min prec ntoaBufferSize))
            + (min prec ntoaBufferSize - buf.length) := by omega
      rw [if_pos rfl, if_pos rfl, padZeros_eq (Nat.le_add_left _ _), hlen, ← List.append_assoc,
        List.replicate_append_replicate, ← hcount]
  · rw [if_pos rfl, if_pos rfl, List.nil_append]

/-- The sign is written in front if there is room for it. -/
def signed (negative : Bool) (flags : Flags) (buf : List UInt8) : List UInt8 :=
  if buf.length < ntoaBufferSize then signText negative flags ++ buf else buf

/-- The width up to which there is padding. -/
def padWidth (negative : Bool) (width : ℕ) (flags : Flags) : ℕ :=
  if flags.left then width else signWidth negative width flags

/-- What is in the buffer of a number with these digits. -/
def filled (digits : List UInt8) (negative : Bool) (base prec width : ℕ) (flags : Flags) :
    List UInt8 :=
  signed negative flags (hashed base prec (padWidth negative width flags) flags
    (leadingZeros prec (padWidth negative width flags) flags digits ++ digits))

/-- The buffer is filled without a byte behind its end. -/
theorem fillBuffer_eq (hbuf : buf.length ≤ ntoaBufferSize) :
  fillBuffer buf negative base prec width flags
    = some (filled buf negative base prec width flags, padWidth negative width flags)
  := by
  change ((padLeading prec (padWidth negative width flags) flags buf).bind fun b =>
    (hashPrefix base prec (padWidth negative width flags) flags b).bind fun b =>
      (pushSign negative flags b).bind fun b => some (b, padWidth negative width flags)) = _
  rw [padLeading_eq hbuf, Option.bind_some, hashPrefix_eq, Option.bind_some, pushSign_eq,
    Option.bind_some]
  rfl

/-- The digits that are put out of a number: none of zero at a precision, which then is zero. -/
def digitsText (base value : ℕ) (flags : Flags) : List UInt8 :=
  if flags.precision ∧ value = 0 then []
  else ((digitsOf base value).take ntoaBufferSize).reverse.map (digitChar flags)

theorem length_digitsText_le (base value : ℕ) (flags : Flags) :
  (digitsText base value flags).length ≤ ntoaBufferSize
  := by
  unfold digitsText
  split
  · apply Nat.zero_le
  · rw [List.length_map, List.length_reverse]
    apply List.length_take_le

theorem writeNumber_eq (hbase : 1 < base) (value : ℕ) (flags : Flags) :
  writeNumber base value flags = some (digitsText base value flags)
  := by
  unfold writeNumber digitsText
  by_cases hnone : flags.precision = true ∧ value = 0
  · have hnot : ¬ (!flags.precision ∨ value ≠ 0) := by simp [hnone.1, hnone.2]
    rw [if_neg hnot, if_pos hnone]
  · have hdigits : !flags.precision ∨ value ≠ 0 := by
      cases hprec : flags.precision
      · exact .inl rfl
      · exact .inr fun hvalue => hnone ⟨hprec, hvalue⟩
    rw [if_pos hdigits, if_neg hnone, writeDigits_eq hbase flags (by decide) rfl, List.append_nil]

/-- The flags that a number is put out with. -/
def numberFlags (value : ℕ) (flags : Flags) : Flags :=
  if value = 0 then { flags with hash := false } else flags

/-- The text of a number. -/
def numberText (value : ℕ) (negative : Bool) (base prec width : ℕ) (flags : Flags) :
    List UInt8 :=
  outRevText
    (filled (digitsText base value flags) negative base prec width (numberFlags value flags))
    (padWidth negative width flags) flags

/-- A number is put out whatever the width, the precision and the flags: the buffer is large
enough. -/
theorem ntoaLong_eq {σ : Type} (hbase : 1 < base) (out : Put UInt8 σ) (value : ℕ)
    (negative : Bool) (prec width : ℕ) (flags : Flags) (s : Sent σ) :
  ntoaLong out value negative base prec width flags s
    = some (s.puts out (numberText value negative base prec width flags))
  := by
  have hdigits : writeNumber base value (numberFlags value flags)
      = some (digitsText base value flags) := by
    rw [writeNumber_eq hbase, numberFlags]
    split <;> rfl
  have hrev : ∀ b, outRev out b (padWidth negative width (numberFlags value flags))
      (numberFlags value flags) s
      = s.puts out (outRevText b (padWidth negative width flags) flags) := by
    intro b
    rw [outRev_eq, numberFlags]
    split <;> rfl
  change ((writeNumber base value (numberFlags value flags)).bind fun b =>
    (fillBuffer b negative base prec width (numberFlags value flags)).bind fun r =>
      some (outRev out r.1 r.2 (numberFlags value flags) s)) = _
  rw [hdigits, Option.bind_some, fillBuffer_eq (length_digitsText_le base value flags),
    Option.bind_some, hrev]
  rfl

end Printf
