import StandaloneSel4.Lib.Bytes
import StandaloneSel4.Printf.Format

/-!
# The text of a format

What `_vsnprintf` puts out does not depend on where it goes. So all the functions of printf.h agree:
`printf` prints the text, without its null characters, `snprintf` stores as much of it as there is
room for and terminates it, and both return its length.
-/

namespace Printf

open Output Bytes

variable {D : Doubles}

/-- `_out_buffer`. -/
def outBuffer : Out Mem :=
  fun c buffer idx maxlen m =>
    if idx < maxlen then fun b => if b = buffer + idx then c else m b else m

/-- `_out_fct`. -/
def outFct {σ : Type} (fct : UInt8 → σ → σ) : Out σ :=
  fun c _ _ _ state => if c ≠ 0 then fct c state else state

/-- `_out_char`, on the characters that have been printed. -/
def outChar : Out (List UInt8) :=
  fun c _ _ _ console => if c ≠ 0 then console ++ [c] else console

/-- `snprintf_`, `vsnprintf_`. The format and what the arguments point to lie apart from the
buffer. -/
def snprintf (buffer count : ℕ) (format : List UInt8) (va : List (Arg D)) (m : Mem) :
    Option (Mem × ℤ) :=
  vsnprintf outBuffer buffer count format va m

/-- `sprintf_`. -/
def sprintf (buffer : ℕ) (format : List UInt8) (va : List (Arg D)) (m : Mem) :
    Option (Mem × ℤ) :=
  vsnprintf outBuffer buffer (2 ^ 64 - 1) format va m

/-- `printf_`, `vprintf_`. Of the buffer only that it is one is used. -/
def printf (format : List UInt8) (va : List (Arg D)) (console : List UInt8) :
    Option (List UInt8 × ℤ) :=
  vsnprintf outChar 1 (2 ^ 64 - 1) format va console

/-- `fctprintf`, with what the function does. -/
def fctprintf {σ : Type} (fct : UInt8 → σ → σ) (format : List UInt8) (va : List (Arg D))
    (state : σ) : Option (σ × ℤ) :=
  vsnprintf (outFct fct) 1 (2 ^ 64 - 1) format va state

variable {c : UInt8} {field : Field D} {format p : List UInt8} {va : List (Arg D)} {rounds : ℕ}
  {precision : Option ℕ}

/-! ### One conversion -/

/-- The characters of a string that are put out. -/
def stringText : List UInt8 → Option ℕ → Option (List UInt8)
  | [], _ => none
  | c :: p, precision =>
      if c ≠ 0 ∧ precision ≠ some 0 then (stringText p (precision.map (· - 1))).map (c :: ·)
      else some []

theorem outString_eq {σ : Type} (out : Put UInt8 σ) (p : List UInt8) (precision : Option ℕ)
    (s : Sent σ) :
  outString out p precision s = (stringText p precision).map fun t => s.puts out t
  := by
  induction p generalizing precision s with
  | nil => rfl
  | cons c p ih =>
      rw [outString, stringText]
      split
      · rw [ih, Option.map_map]
        rfl
      · rfl

/-- The text of an integer, and the arguments behind it. -/
def integerText (c : UInt8) (field : Field D) : Option (List UInt8 × List (Arg D)) := do
  let flags := integerFlags c field.flags
  let ((w, _), va) ← vaWord field.va
  let (value, negative) ← integerValue c flags w
  return (numberText value negative (baseOf c) field.precision field.width flags, va)

theorem one_lt_baseOf (c : UInt8) :
  1 < baseOf c
  := by
  unfold baseOf
  split_ifs <;> decide

theorem convertInteger_sends (c : UInt8) (field : Field D) :
  Sends (fun _ out s => convertInteger out c field s) (integerText c field)
  := by
  apply Sends.given
  rintro ⟨⟨w, object⟩, va⟩ -
  apply Sends.given
  rintro ⟨value, negative⟩ -
  intro σ out s
  simp only [ntoaLongLong, ite_self, ntoaLong_eq (one_lt_baseOf c)]
  rfl

/-- A text with spaces up to the width, on one side or the other; `l` is taken for its length. -/
def padded (left : Bool) (width l : ℕ) (t : List UInt8) : List UInt8 :=
  let pad := List.replicate (width - l) (ch ' ')
  (if left then [] else pad) ++ t ++ (if left then pad else [])

theorem padded_eq {σ : Type} (out : Put UInt8 σ) (left : Bool) (width l : ℕ) (t : List UInt8)
    (s : Sent σ) :
  (let s := if left then s else spaces out (width - l) s
    let s := s.puts out t
    if left then spaces out (width - l) s else s)
    = s.puts out (padded left width l t)
  := by
  unfold padded spaces
  cases left <;> simp [Sent.puts_append]

/-- The text of a character, and the arguments behind it. -/
def charText (field : Field D) : Option (List UInt8 × List (Arg D)) :=
  (vaWord field.va).map fun r =>
    (padded field.flags.left field.width 1 [UInt8.ofNat r.1.1], r.2)

theorem convertChar_sends (field : Field D) :
  Sends (fun _ out s => convertChar out field s) (charText field)
  := by
  intro σ out s
  unfold convertChar charText
  cases vaWord field.va with
  | none => rfl
  | some r =>
      have hpad := padded_eq out field.flags.left field.width 1 [UInt8.ofNat r.1.1] s
      simp only [Option.map_some, ← hpad]
      rfl

/-- The length that a string is padded by. -/
def stringLength (field : Field D) (p : List UInt8) : Option ℕ :=
  (strnlenS p (if field.precision ≠ 0 then field.precision else 2 ^ 64 - 1)).map fun n =>
    if field.flags.precision then min (n % 2 ^ 32) field.precision else n % 2 ^ 32

/-- The text of a string. -/
def fieldString (field : Field D) (p : List UInt8) : Option (List UInt8) := do
  let l ← stringLength field p
  let t ← stringText p (if field.flags.precision then some field.precision else none)
  return padded field.flags.left field.width l t

/-- The text of a string that is an argument, and the arguments behind it. -/
def stringField (field : Field D) : Option (List UInt8 × List (Arg D)) :=
  (vaWord field.va).bind fun r => (fieldString field r.1.2).map fun t => (t, r.2)

theorem convertString_sends (field : Field D) :
  Sends (fun _ out s => convertString out field s) (stringField field)
  := by
  intro σ out s
  unfold convertString stringField fieldString stringLength
  rcases vaWord field.va with _ | ⟨⟨w, p⟩, va⟩
  · rfl
  simp only [outString_eq, Option.bind_eq_bind, Option.bind_some]
  generalize strnlenS p (if field.precision ≠ 0 then field.precision else 2 ^ 64 - 1) = o
  generalize stringText p (if field.flags.precision then some field.precision else none) = o'
  cases o with
  | none => rfl
  | some n =>
      cases o' with
      | none => rfl
      | some t =>
          have hpad := padded_eq out field.flags.left field.width
            (if field.flags.precision then min (n % 2 ^ 32) field.precision else n % 2 ^ 32) t s
          simp only [Option.map_some, Option.bind_some, Option.pure_def, ← hpad]

/-- The text of a pointer. -/
def pointerText (field : Field D) : Option (List UInt8 × List (Arg D)) := do
  let flags := { field.flags with zeropad := true, uppercase := true }
  let ((w, _), va) ← vaWord field.va
  return (numberText w false 16 field.precision 16 flags, va)

theorem convertPointer_sends (field : Field D) :
  Sends (fun _ out s => convertPointer out field s) (pointerText field)
  := by
  apply Sends.given
  rintro ⟨⟨w, object⟩, va⟩ -
  intro σ out s
  simp only [ntoaLongLong, ntoaLong_eq (show 1 < 16 by decide)]
  rfl

/-- The text of a `double`, when it is given. -/
def doubleText (g : D.Double → List UInt8) (field : Field D) :
    Option (List UInt8 × List (Arg D)) := do
  let (d, va) ← vaDouble field.va
  return (g d, va)

theorem convertDouble_sends (g : D.Double → List UInt8) (field : Field D) :
  Sends (fun _ out s => convertDouble out g field s) (doubleText g field)
  := by
  apply Sends.given
  rintro ⟨d, va⟩ -
  exact sends_puts (g d) va

/-- The text of a conversion, and the arguments behind it. -/
def conversionText (c : UInt8) (field : Field D) : Option (List UInt8 × List (Arg D)) :=
  if c ∈ [ch 'd', ch 'i', ch 'u', ch 'x', ch 'X', ch 'o', ch 'b'] then integerText c field
  else if c = ch 'f' ∨ c = ch 'F' then
    let flags := { field.flags with uppercase := c = ch 'F' }
    doubleText (fun d => D.ftoa d field.precision field.width flags) field
  else if c ∈ [ch 'e', ch 'E', ch 'g', ch 'G'] then
    let flags := { field.flags with uppercase := c = ch 'E' ∨ c = ch 'G' }
    doubleText (fun d => D.etoa (c = ch 'g' ∨ c = ch 'G') d field.precision field.width flags) field
  else if c = ch 'c' then charText field
  else if c = ch 's' then stringField field
  else if c = ch 'p' then pointerText field
  else some ([c], field.va)

/-- A conversion puts out its text wherever it goes. -/
theorem convert_sends (c : UInt8) (field : Field D) :
  Sends (fun _ out s => convert out c field s) (conversionText c field)
  := by
  apply Sends.ite
  · exact fun _ => convertInteger_sends c field
  intro _
  apply Sends.ite
  · exact fun _ => convertDouble_sends _ field
  intro _
  apply Sends.ite
  · exact fun _ => convertDouble_sends _ field
  intro _
  apply Sends.ite
  · exact fun _ => convertChar_sends field
  intro _
  apply Sends.ite
  · exact fun _ => convertString_sends field
  intro _
  apply Sends.ite
  · exact fun _ => convertPointer_sends field
  intro _ σ out s
  split
  · rw [‹c = ch '%'›]
    rfl
  · rfl

/-! ### The loop -/

/-- The text of a format, in so many rounds at most. -/
def roundsText : ℕ → List UInt8 → List (Arg D) → Option (List UInt8)
  | 0, _, _ => none
  | _ + 1, [], _ => none
  | rounds + 1, c :: format, va =>
      if c = 0 then some []
      else if c ≠ ch '%' then (roundsText rounds format va).map (c :: ·)
      else do
        let field ← evalField format va
        match field.format with
        | [] => none
        | c :: format => do
            let (t, va) ← conversionText c field
            (roundsText rounds format va).map (t ++ ·)

/-- The text that a format stands for with some arguments. -/
def text (format : List UInt8) (va : List (Arg D)) : Option (List UInt8) :=
  roundsText format.length format va

/-- The loop puts out the same text wherever it goes. -/
theorem vsnprintfLoop_eq {σ : Type} (out : Put UInt8 σ) (rounds : ℕ) (format : List UInt8)
    (va : List (Arg D)) (s : Sent σ) :
  vsnprintfLoop out rounds format va s = (roundsText rounds format va).map fun t => s.puts out t
  := by
  induction rounds generalizing format va s with
  | zero => rfl
  | succ rounds ih =>
      cases format with
      | nil => rfl
      | cons c format =>
          rw [vsnprintfLoop, roundsText]
          by_cases hzero : c = 0
          · rw [if_pos hzero, if_pos hzero]
            rfl
          rw [if_neg hzero, if_neg hzero]
          by_cases hpercent : c ≠ ch '%'
          · rw [if_pos hpercent, if_pos hpercent, ih, Option.map_map]
            rfl
          rw [if_neg hpercent, if_neg hpercent]
          cases evalField format va with
          | none => rfl
          | some field =>
              simp only [Option.bind_eq_bind, Option.bind_some]
              cases field.format with
              | nil => rfl
              | cons c format =>
                  have hconvert := convert_sends c field σ out s
                  simp only [hconvert]
                  cases conversionText c field with
                  | none => rfl
                  | some r =>
                      simp only [Option.map_some, Option.bind_some, ih, Option.map_map,
                        Function.comp_def, Sent.puts_append]

/-! ### The functions of printf.h -/

theorem loop_eq {σ : Type} (out : Put UInt8 σ) (format : List UInt8) (va : List (Arg D))
    (s : Sent σ) :
  vsnprintfLoop out format.length format va s = (text format va).map fun t => s.puts out t
  := by
  apply vsnprintfLoop_eq

theorem vsnprintf_eq {σ : Type} (out : Out σ) {buffer : ℕ} (hbuffer : buffer ≠ 0) (maxlen : ℕ)
    (format : List UInt8) (va : List (Arg D)) (state : σ) :
  vsnprintf out buffer maxlen format va state = (text format va).map fun t =>
    (out 0 buffer (if t.length < maxlen then t.length else Word.sub maxlen 1) maxlen
        ((Sent.mk state 0).puts (fun c idx => out c buffer idx maxlen) t).state,
      toSigned 32 t.length)
  := by
  unfold vsnprintf
  simp only [if_neg hbuffer, loop_eq]
  cases text format va with
  | none => rfl
  | some t => simp [Option.bind_eq_bind]

/-- Without a buffer the text is only counted. -/
theorem vsnprintf_null {σ : Type} (out : Out σ) (maxlen : ℕ) (format : List UInt8)
    (va : List (Arg D)) (state : σ) :
  vsnprintf out 0 maxlen format va state
    = (text format va).map fun t => (state, toSigned 32 t.length)
  := by
  have hputs : ∀ t : List UInt8, ((Sent.mk state 0).puts (fun _ _ a => a) t).state = state := by
    intro t
    rw [Sent.puts_fold (fun _ a => a)]
    apply List.foldl_fixed
  unfold vsnprintf
  simp only [if_true, loop_eq]
  cases text format va with
  | none => rfl
  | some t => simp [Option.bind_eq_bind, hputs]

/-- `fctprintf` calls the function for each character but a null character. -/
theorem fctprintf_eq {σ : Type} (fct : UInt8 → σ → σ) (format : List UInt8) (va : List (Arg D))
    (state : σ) :
  fctprintf fct format va state = (text format va).map fun t =>
    ((t.filter (· ≠ 0)).foldl (fun a c => fct c a) state, toSigned 32 t.length)
  := by
  have hputs : ∀ t : List UInt8, ((Sent.mk state 0).puts
      (fun c idx => outFct fct c 1 idx (2 ^ 64 - 1)) t).state
      = (t.filter (· ≠ 0)).foldl (fun a c => fct c a) state := by
    intro t
    rw [List.foldl_filter]
    apply (Sent.puts_fold (fun c a => if c ≠ 0 then fct c a else a) t ⟨state, 0⟩).trans
    simp only [decide_eq_true_eq]
  rw [fctprintf, vsnprintf_eq _ one_ne_zero]
  simp only [hputs]
  rfl

/-- `printf_` prints the text but for its null characters. -/
theorem printf_eq (format : List UInt8) (va : List (Arg D)) (console : List UInt8) :
  printf format va console = (text format va).map fun t =>
    (console ++ t.filter (· ≠ 0), toSigned 32 t.length)
  := by
  have hfold : ∀ (t : List UInt8) (console : List UInt8),
      t.foldl (fun a c => a ++ [c]) console = console ++ t := by
    intro t
    induction t with
    | nil => exact fun _ => (List.append_nil _).symm
    | cons c t ih =>
        intro console
        rw [List.foldl_cons, ih, List.append_assoc, List.singleton_append]
  have hprintf := fctprintf_eq (fun c console => console ++ [c]) format va console
  simp only [hfold] at hprintf
  exact hprintf

/-- The memory `m'` is `m` with as much of the text in the `count` bytes at the buffer as there is
room for, and a terminator behind it. -/
structure Stores (m m' : Mem) (buffer count : ℕ) (t : List UInt8) : Prop where
  text : ∀ i (h : i < t.length), i + 1 < count → m' (buffer + i) = t[i]
  terminator : 0 < count → m' (buffer + min t.length (count - 1)) = 0
  outside : ∀ b, b < buffer ∨ buffer + count ≤ b ∨ buffer + t.length < b → m' b = m b

/-- The bytes of an object. -/
def object (m : Mem) (a : ℕ) : ℕ → List UInt8
  | 0 => []
  | size + 1 => m a :: object m (a + 1) size

theorem object_add (m : Mem) (a n k : ℕ) :
  object m a (n + k) = object m a n ++ object m (a + n) k
  := by
  induction n generalizing a with
  | zero => rw [Nat.zero_add, object, List.nil_append, Nat.add_zero]
  | succ n ih =>
      rw [Nat.succ_add, object, ih, object, Nat.add_right_comm a 1 n, List.cons_append]
      rfl

theorem object_eq {m : Mem} {a : ℕ} {t : List UInt8}
    (h : ∀ i (hi : i < t.length), m (a + i) = t[i]) :
  object m a t.length = t
  := by
  induction t generalizing a with
  | nil => rfl
  | cons c t ih =>
      have hfirst : m a = c := h 0 (Nat.zero_lt_succ _)
      have hrest : ∀ i (hi : i < t.length), m (a + 1 + i) = t[i] := by
        intro i hi
        rw [Nat.add_right_comm, Nat.add_assoc]
        exact h (i + 1) (Nat.succ_lt_succ hi)
      rw [List.length_cons, object, hfirst, ih hrest]

/-- In a buffer that is large enough there is the text, with its terminator. -/
theorem Stores.exists_object {m m' : Mem} {buffer count : ℕ} {t : List UInt8}
    (h : Stores m m' buffer count t) (hroom : t.length < count) :
  ∃ rest, object m' buffer count = t ++ 0 :: rest
  := by
  obtain ⟨k, rfl⟩ := Nat.exists_eq_add_of_lt hroom
  have htext : object m' buffer t.length = t := object_eq fun i hi => h.text i hi (by omega)
  have hzero := h.terminator (Nat.zero_lt_succ _)
  rw [Nat.min_eq_left (by omega)] at hzero
  use object m' (buffer + t.length + 1) k
  rw [Nat.add_assoc, object_add, htext, Nat.add_comm k, Nat.add_comm 1, object, hzero]

/-- `snprintf_` stores the text as far as there is room. -/
theorem snprintf_eq {buffer count : ℕ} (hbuffer : buffer ≠ 0) (hcount : count < 2 ^ 64) (m : Mem)
    {t : List UInt8} (ht : text format va = some t) :
  ∃ m', snprintf buffer count format va m = some (m', toSigned 32 t.length)
    ∧ Stores m m' buffer count t
  := by
  let written := ((Sent.mk m 0).puts (bounded buffer count) t).state
  let last := if t.length < count then t.length else Word.sub count 1
  use bounded buffer count 0 last written
  constructor
  · rw [snprintf, vsnprintf_eq outBuffer hbuffer, ht, Option.map_some]
    rfl
  rcases Nat.eq_zero_or_pos count with rfl | hpos
  · have hwritten : ∀ b, written b = m b := fun b => puts_bounded_outside (by omega)
    refine ⟨fun _ _ h => (by omega), fun h => (by omega), fun b _ => ?_⟩
    rw [bounded, if_neg (by omega), hwritten]
  have hlast : last = min t.length (count - 1) := by
    simp only [last, Word.sub_of_le hcount hpos]
    split <;> omega
  rw [hlast]
  have hroom : min t.length (count - 1) < count := by omega
  constructor
  · intro i hi hmax
    rw [bounded_of_ne 0 (by omega)]
    have h := @puts_bounded_inside _ buffer count 0 i m t hi (by omega)
    simpa using h
  · intro _
    rw [bounded, if_pos hroom]
    exact if_pos rfl
  · intro b hb
    rw [bounded_of_ne 0 (by omega)]
    exact puts_bounded_outside (by omega)

/-- `sprintf_` stores the text whatever the room there is. -/
theorem sprintf_eq {buffer : ℕ} (hbuffer : buffer ≠ 0) (m : Mem) {t : List UInt8}
    (ht : text format va = some t) :
  ∃ m', sprintf buffer format va m = some (m', toSigned 32 t.length)
    ∧ Stores m m' buffer (2 ^ 64 - 1) t
  := snprintf_eq hbuffer (by omega) m ht

/-- All the functions do with one text what they are for: `printf_` prints it, `fctprintf` gives it
to the function, without null characters both, `vsnprintf_` without a buffer counts it, and
`snprintf_` stores what there is room for, if the text is not so long that an index wraps around.
They return its length, also when not all is stored. When the behaviour of one is undefined, it is
for all. -/
theorem functions_agree (format : List UInt8) (va : List (Arg D)) :
  (∃ t : List UInt8,
    (∀ console, printf format va console
      = some (console ++ t.filter (· ≠ 0), toSigned 32 t.length))
    ∧ (∀ (σ : Type) (fct : UInt8 → σ → σ) (state : σ), fctprintf fct format va state
      = some ((t.filter (· ≠ 0)).foldl (fun a c => fct c a) state, toSigned 32 t.length))
    ∧ (∀ count m, snprintf 0 count format va m = some (m, toSigned 32 t.length))
    ∧ ∀ buffer count m, buffer ≠ 0 → count < 2 ^ 64 →
      ∃ m', snprintf buffer count format va m = some (m', toSigned 32 t.length)
        ∧ (t.length < 2 ^ 64 → Stores m m' buffer count t))
  ∨ (∀ console, printf format va console = none)
    ∧ (∀ (σ : Type) (fct : UInt8 → σ → σ) (state : σ), fctprintf fct format va state = none)
    ∧ ∀ buffer count m, snprintf buffer count format va m = none
  := by
  cases ht : text format va with
  | some t =>
      left
      use t
      refine ⟨fun console => ?_, fun σ fct state => ?_, fun count m => ?_, ?_⟩
      · rw [printf_eq, ht, Option.map_some]
      · rw [fctprintf_eq, ht, Option.map_some]
      · rw [snprintf, vsnprintf_null, ht, Option.map_some]
      · intro buffer count m hbuffer hcount
        obtain ⟨m', hret, hstores⟩ := snprintf_eq hbuffer hcount m ht
        exact ⟨m', hret, fun _ => hstores⟩
  | none =>
      right
      refine ⟨fun console => ?_, fun σ fct state => ?_, fun buffer count m => ?_⟩
      · rw [printf_eq, ht, Option.map_none]
      · rw [fctprintf_eq, ht, Option.map_none]
      · rw [snprintf]
        by_cases hbuffer : buffer = 0
        · rw [hbuffer, vsnprintf_null, ht, Option.map_none]
        · rw [vsnprintf_eq outBuffer hbuffer, ht, Option.map_none]

end Printf
