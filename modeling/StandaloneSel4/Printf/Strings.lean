import StandaloneSel4.Printf.Language

/-!
# Strings in formats

What `%s` reads of the object that its argument points into, and what it puts out: the string, or
as much of it as the precision allows, with spaces up to the width. A precision that is not zero
spares the terminator, but one byte behind the last character put out is still read; with the
precision zero the string is read up to its terminator, though nothing of it is put out.
-/

namespace Printf

open Output

variable {D : Doubles} {p : List UInt8} {field : Field D} {va va' : List (Arg D)} {n : ℕ}

/-- The characters of a string, without its terminator. -/
def characters (p : List UInt8) : List UInt8 :=
  p.takeWhile (· ≠ 0)

theorem characters_cons (c : UInt8) (p : List UInt8) :
  characters (c :: p) = if c = 0 then [] else c :: characters p
  := by
  unfold characters
  by_cases hc : c = 0 <;> simp [hc]

theorem strnlenS_eq (p : List UInt8) (n : ℕ) :
  strnlenS p n = if 0 ∈ p ∨ n < p.length then some (min (characters p).length n) else none
  := by
  induction p generalizing n with
  | nil => rfl
  | cons c p ih =>
      rw [strnlenS, characters_cons]
      by_cases hc : c = 0
      · simp [hc]
      cases n with
      | zero => simp
      | succ n =>
          have hnot : ¬ (c = 0 ∨ n + 1 = 0) := by simp [hc]
          have hmem : 0 ∈ c :: p ∨ n + 1 < p.length + 1 ↔ 0 ∈ p ∨ n < p.length := by
            simp [eq_comm, hc]
          rw [if_neg hnot, ih, Nat.add_sub_cancel, List.length_cons]
          simp only [hmem, if_neg hc, List.length_cons, Nat.add_min_add_right]
          split <;> rfl

theorem stringText_none (p : List UInt8) :
  stringText p none = if 0 ∈ p then some (characters p) else none
  := by
  induction p with
  | nil => rfl
  | cons c p ih =>
      rw [stringText, characters_cons]
      by_cases hc : c = 0
      · simp [hc]
      · have hmem : 0 ∈ c :: p ↔ 0 ∈ p := by simp [eq_comm, hc]
        simp only [Option.map_none, ih, hc, hmem, ne_eq, not_false_eq_true, reduceCtorEq, and_self,
          if_true, if_false]
        split <;> rfl

theorem stringText_some (p : List UInt8) (n : ℕ) :
  stringText p (some n) = if 0 ∈ p ∨ n < p.length then some ((characters p).take n) else none
  := by
  induction p generalizing n with
  | nil => rfl
  | cons c p ih =>
      rw [stringText, characters_cons]
      by_cases hc : c = 0
      · simp [hc]
      cases n with
      | zero => simp
      | succ n =>
          have hmem : 0 ∈ c :: p ∨ n + 1 < (c :: p).length ↔ 0 ∈ p ∨ n < p.length := by
            simp [eq_comm, hc]
          have hgo : c ≠ 0 ∧ some (n + 1) ≠ some 0 := ⟨hc, by simp⟩
          rw [if_pos hgo, Option.map_some, Nat.add_sub_cancel, ih]
          simp only [hmem, if_neg hc, List.take_succ_cons]
          split <;> rfl

/-- The characters that are put out. -/
def shown (field : Field D) (p : List UInt8) : List UInt8 :=
  if field.flags.precision then (characters p).take field.precision else characters p

/-- All that is read is in the object. -/
def Readable (field : Field D) (p : List UInt8) : Prop :=
  0 ∈ p ∨ field.flags.precision ∧ 0 < field.precision ∧ field.precision < p.length

instance : Decidable (Readable field p) :=
  inferInstanceAs (Decidable (_ ∨ _))

/-- A string is put out as far as the precision allows, exactly when what is read for it is in the
object. The length that is padded is taken for one of 32 bits. -/
theorem fieldString_eq (hp : p.length < 2 ^ 64) (hfield : field.precision < 2 ^ 32)
    (hprec : field.flags.precision = false → field.precision = 0) :
  fieldString field p = if Readable field p then
      some (padded field.flags.left field.width ((shown field p).length % 2 ^ 32) (shown field p))
    else none
  := by
  have hchars : (characters p).length ≤ p.length := (List.takeWhile_prefix _).length_le
  unfold fieldString stringLength Readable shown
  rw [strnlenS_eq]
  rcases (Bool.eq_false_or_eq_true field.flags.precision).symm with hflag | hflag
  · -- without a precision
    have hzero : ¬ field.precision ≠ 0 := not_not.mpr (hprec hflag)
    have hmem : (0 ∈ p ∨ 2 ^ 64 - 1 < p.length) ↔ 0 ∈ p := by
      constructor
      · rintro (h | h)
        · exact h
        · omega
      · exact .inl
    have hmin : min (characters p).length (2 ^ 64 - 1) = (characters p).length := by omega
    simp only [hflag, if_neg hzero, hmem, hmin, Bool.false_eq_true, if_false, false_and, or_false,
      stringText_none]
    split <;> rfl
  by_cases hzero : field.precision = 0
  · -- the precision is zero
    have hmem : (0 ∈ p ∨ 2 ^ 64 - 1 < p.length) ↔ 0 ∈ p := by
      constructor
      · rintro (h | h)
        · exact h
        · omega
      · exact .inl
    have hsome : 0 ∈ p → (0 ∈ p ∨ 0 < p.length) := .inl
    simp only [hflag, hzero, ne_eq, not_true_eq_false, if_false, if_true, hmem, stringText_some,
      Nat.lt_irrefl, false_and, and_false, or_false, Nat.min_zero, List.take_zero,
      List.length_nil, Nat.zero_mod]
    split
    · rw [if_pos (hsome ‹_›)]
      rfl
    · rfl
  · -- the precision is not zero
    have hpos : 0 < field.precision := Nat.pos_of_ne_zero hzero
    have hmem : (0 ∈ p ∨ 0 < field.precision ∧ field.precision < p.length)
        ↔ 0 ∈ p ∨ field.precision < p.length := by simp only [hpos, true_and]
    have hlen : min (min (characters p).length field.precision % 2 ^ 32) field.precision
        = ((characters p).take field.precision).length % 2 ^ 32 := by
      rw [List.length_take, Nat.min_comm field.precision]
      omega
    simp only [hflag, ne_eq, hzero, not_false_eq_true, if_true, true_and, hmem, stringText_some]
    split
    · simp only [Option.map_some, Option.bind_eq_bind, Option.bind_some, hlen, Option.pure_def]
    · rfl

/-! ### The precision of a conversion -/

/-- The precision is in the range of an `unsigned int`, and zero if there is none. -/
structure Field.Precise (field : Field D) : Prop where
  lt : field.precision < 2 ^ 32
  zero : field.flags.precision = false → field.precision = 0

theorem Field.Precise.withWidth {field' : Field D} {w : Option Amount} (h : field.Precise)
    (hw : field.withWidth w = some field') :
  field'.Precise
  := by
  have hset : ∀ {f f' : Field D} {w : ℤ}, f.Precise → f.setWidth w = some f' → f'.Precise := by
    intro f f' w hf hset
    unfold Field.setWidth at hset
    split at hset
    · obtain ⟨n, -, rfl⟩ := Option.map_eq_some_iff.mp hset
      exact ⟨hf.lt, hf.zero⟩
    · cases hset
      exact ⟨hf.lt, hf.zero⟩
  match w with
  | none =>
      cases hw
      exact h
  | some (.number n) =>
      cases hw
      exact ⟨h.lt, h.zero⟩
  | some .star =>
      obtain ⟨r, -, hr⟩ := Option.bind_eq_some_iff.mp hw
      exact hset (f := { field with va := r.2 }) ⟨h.lt, h.zero⟩ hr

theorem Field.Precise.withPrecision {field' : Field D} {a : Option (Option Amount)}
    (h : field.Precise) (ha : field.withPrecision a = some field') :
  field'.Precise
  := by
  match a with
  | none =>
      cases ha
      exact h
  | some none =>
      cases ha
      exact ⟨h.lt, nofun⟩
  | some (some (.number n)) =>
      cases ha
      exact ⟨Nat.mod_lt _ (by decide), nofun⟩
  | some (some .star) =>
      obtain ⟨r, -, rfl⟩ := Option.map_eq_some_iff.mp ha
      have hlt := Int.bmod_lt (x := r.1.1) (m := 2 ^ 32) (by decide)
      refine ⟨?_, nofun⟩
      dsimp only [toSigned]
      omega

theorem Conversion.field_precise {v : Conversion} (h : v.field va = some field) :
  field.Precise
  := by
  obtain ⟨field₁, h₁, h⟩ := Option.bind_eq_some_iff.mp h
  obtain ⟨field₂, h₂, h⟩ := Option.bind_eq_some_iff.mp h
  cases h
  have hprecise : field₂.Precise := by
    refine Field.Precise.withPrecision (.withWidth ⟨?_, fun _ => rfl⟩ h₁) h₂
    exact Nat.two_pow_pos 32
  refine ⟨hprecise.lt, fun hflag => hprecise.zero ?_⟩
  have hlength : ∀ length : Option Length,
      (field₂.withLength length).flags.precision = field₂.flags.precision := by
    rintro (_ | length)
    · rfl
    · cases length <;> rfl
  rw [← hlength, hflag]

/-! ### Printing a string -/

theorem characters_ne_zero (p : List UInt8) :
  ∀ c ∈ characters p, c ≠ 0
  := by
  intro c hc
  simpa using List.all_eq_true.mp List.all_takeWhile c hc

/-- `printf_` prints a string as far as the precision allows, with spaces up to the width, exactly
when all that is read for it is in the object: the terminator, or, if there is a precision and it is
not zero, one byte more than it says. -/
theorem printf_string {v : Conversion} (hspec : v.specifier = .s) {w : ℕ}
    (hfield : v.field va = some field) (hva : vaWord field.va = some ((w, p), va'))
    (hp : p.length < 2 ^ 64) (rest console : List UInt8) :
  printf (formatText (0 :: rest) [.conversion v]) va console
    = if Readable field p then
        let t := padded field.flags.left field.width ((shown field p).length % 2 ^ 32)
          (shown field p)
        some (console ++ t, toSigned 32 t.length)
      else none
  := by
  have hprecise := Conversion.field_precise hfield
  have hmeaning : text (formatText (0 :: rest) [.conversion v]) va = fieldString field p := by
    have hconversion : conversionText v.specifier.char field = stringField field := by
      rw [hspec]
      rfl
    rw [text_formatText, meaning, hfield]
    simp only [Option.bind_eq_bind, Option.bind_some, hconversion, stringField, hva]
    cases fieldString field p with
    | none => rfl
    | some t => simp [meaning]
  have hnonzero : ∀ l, (padded field.flags.left field.width l (shown field p)).filter (· ≠ 0)
      = padded field.flags.left field.width l (shown field p) := by
    intro l
    apply List.filter_eq_self.mpr
    intro c hc
    have hcases : c = ch ' ' ∨ c ∈ shown field p := by
      unfold padded at hc
      cases field.flags.left <;> simp at hc <;> tauto
    rcases hcases with rfl | hmem
    · decide
    · have hchar : c ∈ characters p := by
        unfold shown at hmem
        split at hmem
        · exact List.mem_of_mem_take hmem
        · exact hmem
      simpa using characters_ne_zero p c hchar
  rw [printf_eq, hmeaning, fieldString_eq hp hprecise.lt hprecise.zero]
  split
  · rw [Option.map_some, hnonzero]
  · rfl

/-- The conversion `%.3s`. -/
def firstThree : Conversion where
  flags := []
  width := none
  precision := some (some (.number 3))
  length := none
  specifier := .s
  width_ne_zero := nofun

/-- Of four characters without a terminator three are printed. -/
theorem printf_string_prefix :
  printf (formatText [0] [.conversion firstThree])
      [(.word 0x1000 [ch 'a', ch 'b', ch 'c', ch 'd'] : Arg noDoubles)] []
    = some ([ch 'a', ch 'b', ch 'c'], 3)
  := by
  let field : Field noDoubles := ⟨{ Flags.zero with precision := true }, 0, 3, [],
    [.word 0x1000 [ch 'a', ch 'b', ch 'c', ch 'd']]⟩
  have hfield : firstThree.field [.word 0x1000 [ch 'a', ch 'b', ch 'c', ch 'd']] = some field := rfl
  have hreadable : Readable field [ch 'a', ch 'b', ch 'c', ch 'd'] := .inr (by decide)
  rw [printf_string rfl hfield rfl (by decide), if_pos hreadable]
  decide

end Printf
