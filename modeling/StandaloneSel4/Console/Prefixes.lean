import StandaloneSel4.Console.BasicString

/-!
# Prefixes

The test of the size in `starts_with` lets the index of the terminator pass. An argument that goes
on there differs from the terminator, so that it is never compared with what is behind: what is
tested is whether the argument is a prefix of the text, and nothing but the text and its terminator
is read.
-/

namespace BasicString

/-- The text is terminated at the size of the string, and not before. Anything may be behind. -/
structure Terminated (s : BasicString) (text : List UInt8) : Prop where
  bytes : text ++ [0] <+: s.bytes
  size : s.size = text.length
  ne_zero : ∀ c ∈ text, c ≠ 0

/-- The string in an object that ends behind an index. A byte behind that index cannot be read. -/
def upTo (s : BasicString) (n : ℕ) : BasicString :=
  { s with bytes := s.bytes.take (n + 1) }

variable {s : BasicString} {text pre : List UInt8} {n i : ℕ} {b : Bool}

@[simp]
theorem upTo_size (s : BasicString) (n : ℕ) :
  (s.upTo n).size = s.size
  := rfl

/-- A byte that can be read in an object that ends earlier is the same in the whole object. -/
theorem getElem?_of_upTo {c : UInt8} (h : (s.upTo n).bytes[i]? = some c) :
  s.bytes[i]? = some c
  := by
  obtain ⟨hi, hget⟩ := List.getElem?_eq_some_iff.mp h
  have hlt : i < n + 1 := by
    rw [upTo, List.length_take] at hi
    omega
  rwa [upTo, List.getElem?_take_of_lt hlt] at h

/-- What `starts_with` finds without reading behind an index it finds in the whole object. -/
theorem startsWithFrom_of_upTo {l : List UInt8} (h : startsWithFrom (s.upTo n) l i = some b) :
  startsWithFrom s l i = some b
  := by
  induction l generalizing i with
  | nil => cases h
  | cons c l ih =>
      unfold startsWithFrom at h ⊢
      by_cases hc : c = 0
      · rwa [if_pos hc] at h ⊢
      · rw [if_neg hc] at h ⊢
        rw [upTo_size] at h
        by_cases hsize : s.size < i
        · rwa [if_pos hsize] at h ⊢
        · rw [if_neg hsize] at h ⊢
          obtain ⟨x, hx, h⟩ := Option.bind_eq_some_iff.mp h
          rw [getElem?_of_upTo hx, Option.bind_eq_bind, Option.bind_some]
          by_cases hcx : c = x
          · rw [if_neg (not_not_intro hcx)] at h ⊢
            apply ih h
          · rwa [if_pos hcx] at h ⊢

/-- The string in the object that ends behind the terminator. -/
theorem Terminated.upTo_bytes (h : s.Terminated text) :
  (s.upTo s.size).bytes = text ++ [0]
  := by
  have hlen : s.size + 1 = (text ++ [0]).length := by
    rw [h.size, List.length_append, List.length_singleton]
  rw [upTo, hlen]
  exact (List.prefix_iff_eq_take.mp h.bytes).symm

/-- `starts_with` reads nothing behind the terminator of the string, and tells whether the argument
is a prefix of the text. -/
theorem startsWith_iff (h : s.Terminated text) (hpre : ∀ c ∈ pre, c ≠ 0) (behind : List UInt8) :
  ∃ b, (s.upTo s.size).startsWith (pre ++ 0 :: behind) = some b
    ∧ s.startsWith (pre ++ 0 :: behind) = some b ∧ (b = true ↔ pre <+: text)
  := by
  have hread : (s.upTo s.size).startsWith (pre ++ 0 :: behind) = some (pre.isPrefixOf text) := by
    apply startsWithFrom_eq
    · rw [List.drop_zero, h.upTo_bytes]
    · rw [Nat.zero_add]
      exact h.size
    · apply hpre
    · apply h.ne_zero
  exact ⟨_, hread, startsWithFrom_of_upTo hread, List.isPrefixOf_iff_prefix⟩

/-- `del`, in an object that goes on. -/
def del : BasicString where
  data := 64
  bytes := [0x64, 0x65, 0x6C, 0, 0x65]
  size := 3

/-- The argument `dele` is no prefix of it. -/
theorem startsWith_dele :
  ∃ b, (del.upTo 3).startsWith ([0x64, 0x65, 0x6C, 0x65] ++ 0 :: []) = some b
    ∧ del.startsWith ([0x64, 0x65, 0x6C, 0x65] ++ 0 :: []) = some b
    ∧ (b = true ↔ ([0x64, 0x65, 0x6C, 0x65] : List UInt8) <+: [0x64, 0x65, 0x6C])
  := by
  have hdel : del.Terminated [0x64, 0x65, 0x6C] :=
    ⟨⟨[0x65], rfl⟩, rfl, CString.ne_zero_of_not_mem (by decide)⟩
  have hdele : ∀ c ∈ [0x64, 0x65, 0x6C, 0x65], c ≠ (0 : UInt8) :=
    CString.ne_zero_of_not_mem (by decide)
  exact startsWith_iff hdel hdele []

end BasicString
