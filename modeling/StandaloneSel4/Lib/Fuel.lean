import Mathlib.Order.Basic
import Mathlib.Order.Monotone.Basic

/-!
# Computations run on fuel

A computation that may go on for ever is a function of the fuel it is given: `none` when
the fuel runs out, its result otherwise. It returns `a` when some amount of fuel makes it
return `a`. `loop` runs the rounds of a loop, each of which goes on from a new state or
leaves with a result. A loop that keeps an invariant and lowers a measure returns.
-/

namespace Fuel

universe u v

variable {σ : Type u} {ρ : Type v} {α : Type u} {β : Type v}

/-- The computation `f` returns `a` on some amount of fuel. -/
def Returns (f : ℕ → Option α) (a : α) : Prop :=
  ∃ n, f n = some a

/-- More fuel does not change a result. -/
def Stable (f : ℕ → Option α) : Prop :=
  ∀ ⦃n m a⦄, n ≤ m → f n = some a → f m = some a

/-- A computation that more fuel does not change returns one result at most. -/
theorem Stable.unique {f : ℕ → Option α} (h : Stable f) {a b : α}
    (ha : Returns f a) (hb : Returns f b) :
  a = b
  := by
  obtain ⟨n, hn⟩ := ha
  obtain ⟨m, hm⟩ := hb
  have hn' := h (le_max_left n m) hn
  have hm' := h (le_max_right n m) hm
  rw [hn'] at hm'
  apply Option.some.inj hm'

/-- A computation that spends no fuel is not changed by more of it. -/
theorem Stable.const (o : Option α) :
  Stable (fun _ => o)
  := fun _ _ _ _ h => h

/-- Running one computation after another keeps both from being changed by more fuel. -/
theorem Stable.bind {f : ℕ → Option α} {g : α → ℕ → Option β}
    (hf : Stable f) (hg : ∀ a, Stable (g a)) :
  Stable (fun n => (f n).bind (fun a => g a n))
  := by
  intro n m b hnm h
  obtain ⟨a, ha, hb⟩ := Option.bind_eq_some_iff.mp h
  apply Option.bind_eq_some_iff.mpr
  use a, hf hnm ha
  apply hg a hnm hb

/-- A result of one computation and a result of the next from it give a result of the
two in sequence. -/
theorem Returns.bind {f : ℕ → Option α} {g : α → ℕ → Option β}
    (hf : Stable f) (hg : ∀ a, Stable (g a)) {a : α} {b : β}
    (ha : Returns f a) (hb : Returns (g a) b) :
  Returns (fun n => (f n).bind (fun a => g a n)) b
  := by
  obtain ⟨n, hn⟩ := ha
  obtain ⟨m, hm⟩ := hb
  use max n m
  apply Option.bind_eq_some_iff.mpr
  use a, hf (le_max_left n m) hn
  apply hg a (le_max_right n m) hm

/-- A function applied to the result keeps a computation from being changed by more
fuel. -/
theorem Stable.map {f : ℕ → Option α} (hf : Stable f) (g : α → β) :
  Stable (fun n => (f n).map g)
  := by
  intro n m b hnm h
  obtain ⟨a, ha, rfl⟩ := Option.map_eq_some_iff.mp h
  apply Option.map_eq_some_iff.mpr
  use a, hf hnm ha

theorem Returns.map {f : ℕ → Option α} {a : α} (h : Returns f a) (g : α → β) :
  Returns (fun n => (f n).map g) (g a)
  := by
  obtain ⟨n, hn⟩ := h
  use n
  simp only [hn, Option.map_some]

/-! ### Loops -/

/-- The rounds of a loop from `s`, one for each unit of fuel: `body` goes on from a new
state (`inl`) or leaves the loop with a result (`inr`). -/
def loop (body : σ → σ ⊕ ρ) : ℕ → σ → Option ρ
  | 0, _ => none
  | n + 1, s =>
      match body s with
      | .inl s' => loop body n s'
      | .inr r => some r

theorem loop_inl {body : σ → σ ⊕ ρ} {s s' : σ} (h : body s = .inl s') (n : ℕ) :
  loop body (n + 1) s = loop body n s'
  := by
  rw [loop, h]

theorem loop_inr {body : σ → σ ⊕ ρ} {s : σ} {r : ρ} (h : body s = .inr r) (n : ℕ) :
  loop body (n + 1) s = some r
  := by
  rw [loop, h]

/-- A loop returns what it returns after its first round. -/
theorem Returns.loop_inl {body : σ → σ ⊕ ρ} {s s' : σ} {r : ρ} (h : body s = .inl s')
    (hr : Returns (fun n => loop body n s') r) :
  Returns (fun n => loop body n s) r
  := by
  obtain ⟨n, hn⟩ := hr
  use n + 1
  simp only [Fuel.loop_inl h, hn]

theorem Returns.loop_inr {body : σ → σ ⊕ ρ} {s : σ} {r : ρ} (h : body s = .inr r) :
  Returns (fun n => loop body n s) r
  := ⟨1, Fuel.loop_inr h 0⟩

/-- More fuel does not change the result of a loop. -/
theorem loop_stable (body : σ → σ ⊕ ρ) (s : σ) :
  Stable (fun n => loop body n s)
  := by
  intro n
  induction n generalizing s with
  | zero =>
      intro m a _ h
      cases h
  | succ n ih =>
      intro m a hnm h
      obtain ⟨m, rfl⟩ : ∃ k, m = k + 1 := ⟨m - 1, by omega⟩
      cases hs : body s with
      | inl s' =>
          simp only [loop_inl hs] at h ⊢
          apply ih s' (by omega) h
      | inr r =>
          simp only [loop_inr hs] at h ⊢
          apply h

/-- What the rounds of a loop keep holds where it is left. -/
theorem loop_invariant {body : σ → σ ⊕ ρ} (I : σ → Prop) (Q : ρ → Prop)
    (hgo : ∀ s s', I s → body s = .inl s' → I s')
    (hleave : ∀ s r, I s → body s = .inr r → Q r) {s : σ} {r : ρ} (hs : I s)
    (h : Returns (fun n => loop body n s) r) :
  Q r
  := by
  obtain ⟨n, h⟩ := h
  induction n generalizing s with
  | zero => cases h
  | succ n ih =>
      cases hb : body s with
      | inl s' =>
          simp only [loop_inl hb] at h
          apply ih (hgo s s' hs hb) h
      | inr r' =>
          simp only [loop_inr hb] at h
          obtain rfl := Option.some.inj h
          apply hleave s _ hs hb

end Fuel
