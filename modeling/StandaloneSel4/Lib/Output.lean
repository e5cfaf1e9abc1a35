import Mathlib.Data.List.Basic
import Mathlib.Tactic.Common

/-!
# Output with a running index

Characters are put out one after the other, each with the number of those before it, and what is
done with a character is left to a function. A program that only puts out and does not see what
becomes of it sends the same text whatever that function is. What it does to a bounded buffer
follows from the text.
-/

namespace Output

variable {γ σ α β : Type}

/-- What is done with a character that is put out at an index. -/
abbrev Put (γ σ : Type) : Type :=
  γ → ℕ → σ → σ

/-- The state that output goes to, and the index of the next character, which has no bound. -/
structure Sent (σ : Type) where
  state : σ
  idx : ℕ

namespace Sent

/-- A character is put out. -/
def put (out : Put γ σ) (c : γ) (s : Sent σ) : Sent σ where
  state := out c s.idx s.state
  idx := s.idx + 1

/-- A text is put out. -/
def puts (out : Put γ σ) : List γ → Sent σ → Sent σ
  | [], s => s
  | c :: t, s => puts out t (s.put out c)

@[simp]
theorem put_mk (out : Put γ σ) (c : γ) (a : σ) (i : ℕ) :
  (Sent.mk a i).put out c = ⟨out c i a, i + 1⟩
  := rfl

@[simp]
theorem put_idx (out : Put γ σ) (c : γ) (s : Sent σ) :
  (s.put out c).idx = s.idx + 1
  := rfl

@[simp]
theorem puts_nil (out : Put γ σ) (s : Sent σ) :
  s.puts out [] = s
  := rfl

@[simp]
theorem puts_cons (out : Put γ σ) (c : γ) (t : List γ) (s : Sent σ) :
  s.puts out (c :: t) = (s.put out c).puts out t
  := rfl

theorem puts_append (out : Put γ σ) (t t' : List γ) (s : Sent σ) :
  s.puts out (t ++ t') = (s.puts out t).puts out t'
  := by
  induction t generalizing s with
  | nil => rfl
  | cons c t ih => apply ih

@[simp]
theorem puts_idx (out : Put γ σ) (t : List γ) (s : Sent σ) :
  (s.puts out t).idx = s.idx + t.length
  := by
  induction t generalizing s with
  | nil => rfl
  | cons c t ih =>
      rw [puts_cons, ih, put_idx, List.length_cons]
      omega

/-- Output that does not depend on the index is put out by a fold. -/
theorem puts_fold (f : γ → σ → σ) (t : List γ) (s : Sent σ) :
  (s.puts (fun c _ => f c) t).state = t.foldl (fun a c => f c a) s.state
  := by
  induction t generalizing s with
  | nil => rfl
  | cons c t ih => apply ih

end Sent

/-! ### Bounded buffers -/

/-- The characters with an index below `maxlen` are written behind `base`. -/
def bounded (base maxlen : ℕ) : Put γ (ℕ → γ) :=
  fun c i m => if i < maxlen then fun b => if b = base + i then c else m b else m

variable {base maxlen i j b : ℕ} {m : ℕ → γ} {t : List γ}

theorem bounded_of_ne (c : γ) (h : b ≠ base + i) :
  bounded base maxlen c i m b = m b
  := by
  unfold bounded
  split
  · exact if_neg h
  · rfl

/-- Outside the places of the text, or of the buffer, nothing is changed. -/
theorem puts_bounded_outside (h : b < base + i ∨ base + i + t.length ≤ b ∨ base + maxlen ≤ b) :
  ((Sent.mk m i).puts (bounded base maxlen) t).state b = m b
  := by
  induction t generalizing m i with
  | nil => rfl
  | cons c t ih =>
      rw [List.length_cons] at h
      rw [Sent.puts_cons, Sent.put_mk, ih (by omega)]
      by_cases hb : b = base + i
      · have hmax : ¬ i < maxlen := by omega
        rw [bounded, if_neg hmax]
      · apply bounded_of_ne c hb

/-- Each character that has a place in the buffer is found in it. -/
theorem puts_bounded_inside (hj : j < t.length) (hmax : i + j < maxlen) :
  ((Sent.mk m i).puts (bounded base maxlen) t).state (base + i + j) = t[j]
  := by
  induction t generalizing m i j with
  | nil => cases hj
  | cons c t ih =>
      rw [Sent.puts_cons, Sent.put_mk]
      cases j with
      | zero =>
          have hi : i < maxlen := hmax
          rw [puts_bounded_outside (.inl (by omega)), bounded, if_pos hi]
          exact if_pos rfl
      | succ j =>
          rw [List.length_cons] at hj
          have hindex : base + i + (j + 1) = base + (i + 1) + j := by omega
          rw [hindex, ih (by omega) (by omega), List.getElem_cons_succ]

/-! ### Programs that send a text -/

/-- A program that puts out, may have no result, and may give a value besides. -/
abbrev Printer (γ β : Type) : Type 1 :=
  (σ : Type) → Put γ σ → Sent σ → Option (Sent σ × β)

/-- Whatever is done with the characters, those in the text are put out, and the value is the
same. -/
def Sends (f : Printer γ β) (r : Option (List γ × β)) : Prop :=
  ∀ (σ : Type) (out : Put γ σ) (s : Sent σ),
    f σ out s = r.map fun q => (s.puts out q.1, q.2)

/-- A text is put out. -/
theorem sends_puts (t : List γ) (a : α) :
  Sends (fun _ out s => some (s.puts out t, a) : Printer γ α) (some (t, a))
  := fun _ _ _ => rfl

/-- A program may depend on a value that is found before. -/
theorem Sends.given {δ : Type} {o : Option δ} {p : δ → Printer γ β}
    {r : δ → Option (List γ × β)} (h : ∀ d, o = some d → Sends (p d) (r d)) :
  Sends (fun σ out s => o.bind fun d => p d σ out s) (o.bind r)
  := by
  cases o with
  | none => exact fun _ _ _ => rfl
  | some d => exact h d rfl

theorem Sends.ite {c : Prop} [Decidable c] {p q : Printer γ β} {r r' : Option (List γ × β)}
    (hp : c → Sends p r) (hq : ¬ c → Sends q r') :
  Sends (fun σ out s => if c then p σ out s else q σ out s) (if c then r else r')
  := by
  by_cases hc : c
  · simp only [if_pos hc]
    exact hp hc
  · simp only [if_neg hc]
    exact hq hc

end Output
