import Mathlib.Data.List.Iterate
import Mathlib.Logic.Function.Iterate
import Mathlib.Tactic.Common

/-!
# Places asked for at a counter

Events may ask for a place, and may be granted the place they ask for. A counter stands at
the place to ask for next, and moves on past each place that is granted. When every event
asks at the counter, the places granted are the iterates of its move, and each place asked
for is the iterate after those granted so far.
-/

/-- Which place an event asks for, whether it is granted, and how the counter moves on from
a place that is granted. -/
structure Bump (ε α : Type) where
  asked : ε → Option α
  granted : ε → Option α
  next : α → α
  asked_of_granted {e : ε} {a : α} : granted e = some a → asked e = some a

namespace Bump

variable {ε α : Type} (B : Bump ε α)

/-- The counter after an event. -/
def advance (a : α) (e : ε) : α :=
  if (B.granted e).isSome then B.next a else a

/-- The counter after some events. -/
def counter (a : α) (tr : List ε) : α :=
  tr.foldl B.advance a

/-- The number of places granted. -/
def count (tr : List ε) : ℕ :=
  (tr.filterMap B.granted).length

/-- Every event that asks for a place asks for the one at the counter. -/
def InStep : α → List ε → Prop
  | _, [] => True
  | a, e :: tr => (∀ x, B.asked e = some x → x = a) ∧ InStep (B.advance a e) tr

variable {B} {a : α} {e : ε} {tr tr' : List ε}

@[simp]
theorem counter_nil :
  B.counter a [] = a
  := rfl

@[simp]
theorem counter_cons :
  B.counter a (e :: tr) = B.counter (B.advance a e) tr
  := rfl

@[simp]
theorem inStep_nil :
  B.InStep a []
  := trivial

@[simp]
theorem inStep_cons :
  B.InStep a (e :: tr) ↔ (∀ x, B.asked e = some x → x = a) ∧ B.InStep (B.advance a e) tr
  := Iff.rfl

theorem counter_append :
  B.counter a (tr ++ tr') = B.counter (B.counter a tr) tr'
  := List.foldl_append

theorem inStep_append :
  B.InStep a (tr ++ tr') ↔ B.InStep a tr ∧ B.InStep (B.counter a tr) tr'
  := by
  induction tr generalizing a with
  | nil => simp
  | cons e tr ih => rw [List.cons_append, inStep_cons, inStep_cons, ih, counter_cons, and_assoc]

theorem count_append :
  B.count (tr ++ tr') = B.count tr + B.count tr'
  := by
  unfold count
  rw [List.filterMap_append, List.length_append]

theorem advance_of_none (h : B.granted e = none) :
  B.advance a e = a
  := by
  simp [advance, h]

/-- What asks for nothing is granted nothing. -/
theorem granted_of_asked (h : B.asked e = none) :
  B.granted e = none
  := by
  cases hx : B.granted e with
  | none => rfl
  | some x =>
      rw [B.asked_of_granted hx] at h
      cases h

/-- Events that ask for nothing leave the counter where it is, and are in step. -/
theorem counter_of_forall (h : ∀ e ∈ tr, B.asked e = none) :
  B.counter a tr = a ∧ B.InStep a tr
  := by
  induction tr with
  | nil => exact ⟨rfl, trivial⟩
  | cons e tr ih =>
      have he := h e List.mem_cons_self
      obtain ⟨hcounter, hinStep⟩ := ih fun e' he' => h e' (List.mem_cons_of_mem e he')
      rw [counter_cons, inStep_cons, advance_of_none (granted_of_asked he), he]
      exact ⟨hcounter, nofun, hinStep⟩

/-- Events in step stay so when they are cut off after one of them, whatever its answer, and
go on with events that ask for nothing. -/
theorem InStep.cut {s : ε} {rest : List ε} (h : B.InStep a (tr ++ s :: rest))
    (he : B.asked e = B.asked s) (htr' : ∀ u ∈ tr', B.asked u = none) :
  B.InStep a (tr ++ e :: tr')
  := by
  obtain ⟨htr, hs, -⟩ := inStep_append.mp h
  apply inStep_append.mpr
  use htr
  apply inStep_cons.mpr
  rw [he]
  exact ⟨hs, (counter_of_forall htr').2⟩

/-- The counter has moved on once for each place granted. -/
theorem counter_eq (a : α) (tr : List ε) :
  B.counter a tr = B.next^[B.count tr] a
  := by
  induction tr generalizing a with
  | nil => rfl
  | cons e tr ih =>
      rw [counter_cons, ih]
      cases h : B.granted e with
      | none => simp [advance, count, h]
      | some x => simp [advance, count, h]

/-- The places granted are the iterates of the move. -/
theorem InStep.granted (h : B.InStep a tr) :
  tr.filterMap B.granted = List.iterate B.next a (B.count tr)
  := by
  induction tr generalizing a with
  | nil => rfl
  | cons e tr ih =>
      have htr := ih h.2
      cases hx : B.granted e with
      | none =>
          have hadv : B.advance a e = a := by simp [advance, hx]
          have hcount : B.count (e :: tr) = B.count tr := by simp [count, hx]
          rw [hadv] at htr
          rw [List.filterMap_cons_none hx, htr, hcount]
      | some x =>
          obtain rfl := h.1 x (B.asked_of_granted hx)
          have hadv : B.advance x e = B.next x := by simp [advance, hx]
          have hcount : B.count (e :: tr) = B.count tr + 1 := by simp [count, hx]
          rw [hadv] at htr
          rw [List.filterMap_cons_some hx, htr, hcount]
          rfl

/-- A place asked for is the iterate after the places granted before. -/
theorem InStep.asked (h : B.InStep a (tr ++ e :: tr')) {x : α} (hx : B.asked e = some x) :
  x = B.next^[B.count tr] a
  := by
  rw [← counter_eq]
  exact (inStep_append.mp h).2.1 x hx

end Bump
