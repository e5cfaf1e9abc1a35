import Mathlib.Data.List.Infix

/-!
# Line editors

What a line editor is for: a key appends a character to the pending line, takes away its last
character, or dispatches the line, unless this is empty, and starts afresh. The characters may
be of any type.
-/

namespace LineEditor

universe u

variable {α : Type u}

/-- What a key does. -/
inductive Key (α : Type u) where
  | insert (c : α)
  | erase
  | enter

/-- The pending line after a key. -/
def step (line : List α) : Key α → List α
  | .insert c => line ++ [c]
  | .erase => line.dropLast
  | .enter => []

/-- The lines that a key dispatches. -/
def dispatched (line : List α) : Key α → List (List α)
  | .enter => if line.isEmpty then [] else [line]
  | _ => []

/-- The pending line after a sequence of keys. -/
def pending (line : List α) (ks : List (Key α)) : List α :=
  ks.foldl step line

/-- The lines that a sequence of keys dispatches. -/
def lines : List α → List (Key α) → List (List α)
  | _, [] => []
  | line, k :: ks => dispatched line k ++ lines (step line k) ks

/-- Fewer than `n` characters are ever pending. -/
def Below (n : ℕ) (line : List α) (ks : List (Key α)) : Prop :=
  ∀ l, l <+: ks → (pending line l).length < n

variable {n : ℕ} {line : List α} {k : Key α} {ks : List (Key α)}

theorem Below.length_lt (h : Below n line ks) :
  line.length < n
  := h [] List.nil_prefix

theorem Below.step (h : Below n line (k :: ks)) :
  Below n (step line k) ks
  := by
  intro l hl
  apply h (k :: l)
  rw [List.cons_prefix_cons]
  exact ⟨rfl, hl⟩

/-- A key appends one character at most. -/
theorem length_step_le (line : List α) (k : Key α) :
  (step line k).length ≤ line.length + 1
  := by
  cases k with
  | insert c => apply Nat.le_of_eq List.length_append
  | erase =>
      rw [step, List.length_dropLast]
      omega
  | enter => apply Nat.zero_le _

theorem length_pending_le (line : List α) (ks : List (Key α)) :
  (pending line ks).length ≤ line.length + ks.length
  := by
  induction ks generalizing line with
  | nil => apply Nat.le_refl _
  | cons k ks ih =>
      have hstep := length_step_le line k
      have hks := ih (step line k)
      rw [pending, List.foldl_cons, ← pending, List.length_cons]
      omega

/-- Few keys leave few characters pending. -/
theorem below_of_length (h : line.length + ks.length < n) :
  Below n line ks
  := by
  intro l hl
  have hpending := length_pending_le line l
  have hlen := hl.length_le
  omega

end LineEditor
