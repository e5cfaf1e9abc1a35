import Mathlib.Logic.Relation

/-!
# Systems that move in steps

A system is given by its labelled steps. `Reaches next permitted s s'` says that some steps
lead from `s` to `s'` each of which was permitted where it was made. What holds at the start
and is kept by every permitted step holds wherever such steps lead; what a permitted step
keeps in the states in which an invariant holds is kept for ever once it is reached.
-/

namespace Steps

universe u v

variable {σ : Type u} {μ : Type v}

/-- Permitted steps lead from the one state to the other. -/
def Reaches (next : σ → μ → σ → Prop) (permitted : σ → μ → Prop) : σ → σ → Prop :=
  Relation.ReflTransGen fun s s' => ∃ m, permitted s m ∧ next s m s'

variable {next : σ → μ → σ → Prop} {permitted permitted' : σ → μ → Prop} {s s' s'' : σ} {m : μ}

theorem Reaches.refl (s : σ) :
  Reaches next permitted s s
  := Relation.ReflTransGen.refl

theorem Reaches.step (h : Reaches next permitted s s') (hm : permitted s' m)
    (hstep : next s' m s'') :
  Reaches next permitted s s''
  := Relation.ReflTransGen.tail h ⟨m, hm, hstep⟩

/-- What every permitted step keeps holds wherever they lead. -/
theorem Reaches.invariant {I : σ → Prop} (h : Reaches next permitted s s')
    (hstep : ∀ s m s', I s → permitted s m → next s m s' → I s') (hs : I s) :
  I s'
  := by
  induction h with
  | refl => apply hs
  | tail _ hnext ih =>
      obtain ⟨m, hm, hnext⟩ := hnext
      apply hstep _ m _ ih hm hnext

/-- What every permitted step keeps where an invariant holds is kept for ever. -/
theorem Reaches.stays {I Q : σ → Prop} (h : Reaches next permitted s s')
    (hinv : ∀ s m s', I s → permitted s m → next s m s' → I s')
    (hstep : ∀ s m s', I s → Q s → permitted s m → next s m s' → Q s') (hs : I s) (hq : Q s) :
  Q s'
  := by
  have hboth : I s' ∧ Q s' := by
    apply h.invariant (I := fun s => I s ∧ Q s)
    · intro s m s' hs hm hnext
      exact ⟨hinv s m s' hs.1 hm hnext, hstep s m s' hs.1 hs.2 hm hnext⟩
    · exact ⟨hs, hq⟩
  apply hboth.2

/-! ### Trying moves out -/

variable {step : σ → μ → Option σ} {C : σ → μ → Prop} [∀ s m, Decidable (C s m)]

/-- The moves one after the other, if they meet the condition and can be made. -/
def play (step : σ → μ → Option σ) (C : σ → μ → Prop) [∀ s m, Decidable (C s m)] :
    List μ → σ → Option σ
  | [], s => some s
  | m :: l, s => if C s m then (step s m).bind (play step C l) else none

/-- What is so where the moves lead is so in a state that is reached. -/
theorem exists_reaches (hstep : ∀ s m s', step s m = some s' → next s m s') {l : List μ}
    (hl : ∀ m ∈ l, ∀ s, C s m → permitted s m) {Q : σ → Prop} [DecidablePred Q]
    (h : (play step C l s).any (fun s => Q s) = true) :
  ∃ s', Reaches next permitted s s' ∧ Q s'
  := by
  suffices hfrom : ∀ t, Reaches next permitted s t →
      (play step C l t).any (fun s => Q s) = true → ∃ s', Reaches next permitted s s' ∧ Q s' from
    hfrom s (Reaches.refl s) h
  clear h
  induction l with
  | nil =>
      intro t ht hQ
      use t, ht
      simpa [play] using hQ
  | cons m l ih =>
      intro t ht hQ
      obtain ⟨hm, hl⟩ := List.forall_mem_cons.mp hl
      rw [play] at hQ
      split at hQ
      · rename_i hC
        cases hnext : step t m with
        | none =>
            rw [hnext] at hQ
            cases hQ
        | some t' =>
            rw [hnext] at hQ
            exact ih hl t' (ht.step (hm t hC) (hstep t m t' hnext)) hQ
      · cases hQ

end Steps
