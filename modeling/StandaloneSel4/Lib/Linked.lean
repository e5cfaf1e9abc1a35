import Mathlib.Data.List.Chain

/-!
# Doubly linked chains

Given the forward link `next` and the backward link `prev` of every node, a list of nodes
is chained when each node is linked forward to the one after it, which is linked back to
it. Chains are cut and joined by rewriting the links at the cut only: a chain survives a
change of the links that touches neither the forward links of its nodes before the last
nor the backward links of its nodes after the first.
-/

namespace Linked

universe u

variable {α : Type u}

/-- Each node of the list is linked to the one after it, and that one back to it. -/
def Chained (next prev : α → α) (l : List α) : Prop :=
  l.IsChain (fun a b => next a = b ∧ prev b = a)

variable {next prev next' prev' : α → α}

theorem chained_singleton (a : α) :
  Chained next prev [a]
  := List.isChain_singleton a

/-- A chain survives a change of the links away from its inner ends. -/
theorem Chained.congr {l : List α} (h : Chained next prev l)
    (hnext : ∀ a ∈ l.dropLast, next' a = next a) (hprev : ∀ b ∈ l.tail, prev' b = prev b) :
  Chained next' prev' l
  := by
  induction l with
  | nil => apply List.isChain_nil
  | cons a l ih =>
      cases l with
      | nil => apply chained_singleton
      | cons b l =>
          obtain ⟨⟨hab, hba⟩, hl⟩ := List.isChain_cons_cons.mp h
          apply List.isChain_cons_cons.mpr
          constructor
          · rw [hnext a (by simp), hprev b (by simp)]
            exact ⟨hab, hba⟩
          · apply ih hl
            · intro c hc
              apply hnext
              simp only [List.dropLast_cons_cons, List.mem_cons]
              right
              apply hc
            · intro c hc
              apply hprev
              apply List.mem_cons_of_mem _ hc

/-- Two chains are one chain exactly when the end of the first and the start of the second
are linked to each other. -/
theorem chained_append_iff {k t : List α} {x y : α} :
  Chained next prev (k ++ [x] ++ y :: t)
    ↔ Chained next prev (k ++ [x]) ∧ Chained next prev (y :: t) ∧ next x = y ∧ prev y = x
  := by
  unfold Chained
  rw [List.isChain_append]
  simp

/-- Linking the end of a chain and the start of another to each other, with all other
links as they were, makes them one chain. -/
theorem Chained.join {k t : List α} {x y : α} (hk : Chained next prev (k ++ [x]))
    (ht : Chained next prev (y :: t))
    (hnext : ∀ a, a ∈ k ∨ a ∈ (y :: t).dropLast → next' a = next a)
    (hprev : ∀ b, b ∈ k ++ [x] ∨ b ∈ t → prev' b = prev b)
    (hxy : next' x = y) (hyx : prev' y = x) :
  Chained next' prev' (k ++ [x] ++ y :: t)
  := by
  apply chained_append_iff.mpr
  and_intros
  · apply hk.congr
    · intro a ha
      rw [List.dropLast_concat] at ha
      apply hnext a (.inl ha)
    · intro b hb
      apply hprev b (.inl (List.mem_of_mem_tail hb))
  · apply ht.congr
    · intro a ha
      apply hnext a (.inr ha)
    · intro b hb
      apply hprev b (.inr hb)
  · exact hxy
  · exact hyx

/-- The nodes of a chain after the first are linked back to nodes before the last. -/
theorem Chained.prev_mem {a b z : α} {l : List α} (h : Chained next prev (a :: l ++ [b]))
    (hz : z ∈ l ++ [b]) :
  prev z ∈ a :: l
  := by
  induction l generalizing a with
  | nil =>
      obtain rfl : z = b := by simpa using hz
      obtain ⟨⟨-, hprev⟩, -⟩ := List.isChain_cons_cons.mp h
      rw [hprev]
      apply List.mem_cons_self
  | cons c l ih =>
      obtain ⟨⟨-, hprev⟩, hrest⟩ := List.isChain_cons_cons.mp h
      rw [List.cons_append, List.mem_cons] at hz
      rcases hz with rfl | hz
      · rw [hprev]
        apply List.mem_cons_self
      · apply List.mem_cons_of_mem _ (ih hrest hz)

/-- The nodes of a chain before the last are linked on to nodes after the first. -/
theorem Chained.next_mem {a b z : α} {l : List α} (h : Chained next prev (a :: l ++ [b]))
    (hz : z ∈ a :: l) :
  next z ∈ l ++ [b]
  := by
  induction l generalizing a with
  | nil =>
      obtain rfl : z = a := by simpa using hz
      obtain ⟨⟨hnext, -⟩, -⟩ := List.isChain_cons_cons.mp h
      rw [hnext]
      apply List.mem_singleton_self
  | cons c l ih =>
      obtain ⟨⟨hnext, -⟩, hrest⟩ := List.isChain_cons_cons.mp h
      rcases List.mem_cons.mp hz with rfl | hz
      · rw [hnext]
        apply List.mem_cons_self
      · apply List.mem_cons_of_mem _ (ih hrest hz)

/-- Two chains with the same ends are the same when the last node is not inside. -/
theorem Chained.unique {a b : α} {l l' : List α} (h : Chained next prev (a :: l ++ [b]))
    (h' : Chained next prev (a :: l' ++ [b])) (hb : b ∉ l) (hb' : b ∉ l') :
  l = l'
  := by
  induction l generalizing a l' with
  | nil =>
      cases l' with
      | nil => rfl
      | cons c l' =>
          obtain ⟨⟨hnext, -⟩, -⟩ := List.isChain_cons_cons.mp h
          obtain ⟨⟨hnext', -⟩, -⟩ := List.isChain_cons_cons.mp h'
          rw [hnext] at hnext'
          subst hnext'
          exact absurd List.mem_cons_self hb'
  | cons c l ih =>
      obtain ⟨⟨hnext, -⟩, hrest⟩ := List.isChain_cons_cons.mp h
      cases l' with
      | nil =>
          obtain ⟨⟨hnext', -⟩, -⟩ := List.isChain_cons_cons.mp h'
          rw [hnext] at hnext'
          subst hnext'
          exact absurd List.mem_cons_self hb
      | cons c' l' =>
          obtain ⟨⟨hnext', -⟩, hrest'⟩ := List.isChain_cons_cons.mp h'
          rw [hnext] at hnext'
          subst hnext'
          rw [ih hrest hrest' (fun hb' => hb (List.mem_cons_of_mem _ hb'))
            (fun hb => hb' (List.mem_cons_of_mem _ hb))]

/-- A nonempty list has a last element, and one with something behind it a first. -/
theorem exists_concat_cons (p q : α) (l₁ l₂ : List α) :
  ∃ k x y t, p :: l₁ = k ++ [x] ∧ l₂ ++ [q] = y :: t
  := by
  obtain ⟨y, t, hy⟩ := List.exists_cons_of_ne_nil
    (List.append_ne_nil_of_right_ne_nil l₂ (List.cons_ne_nil q []))
  use (p :: l₁).dropLast, (p :: l₁).getLast (List.cons_ne_nil _ _), y, t
  exact ⟨(List.dropLast_append_getLast _).symm, hy⟩

end Linked
