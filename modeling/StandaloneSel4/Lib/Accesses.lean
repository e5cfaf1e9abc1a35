import StandaloneSel4.Lib.Fuel
import StandaloneSel4.Lib.Prog

/-!
# Programs that work on a state access by access

The calls of a program are accesses to a state: each answers and changes the state at once.
`through acc p s` makes all accesses of `p` one after the other from the state `s` on. `Within acc D
p s` says that all of them are in `D`. What happens to the state in between, and commutes with the
accesses that are still to come, changes neither what they answer nor which they are.
-/

namespace Prog

open Fuel

variable {S : Signature} {σ τ ρ α β : Type}

/-- What every call answers in a state, and the state after it. -/
abbrev Access (S : Signature) (σ : Type) : Type :=
  (c : S.Call) → σ → S.Answer c × σ

/-- The accesses of the program one after the other. There is no result when it fails. -/
def through (acc : Access S σ) : Prog S α → σ → Option (α × σ)
  | .ret a, s => some (a, s)
  | .fail, _ => none
  | .call c k, s => through acc (k (acc c s).1) (acc c s).2

/-- The accesses that the program makes from the state on are all in `D`. -/
inductive Within (acc : Access S σ) (D : S.Call → Prop) : Prog S α → σ → Prop where
  | ret (a : α) (s : σ) : Within acc D (.ret a) s
  | fail (s : σ) : Within acc D .fail s
  | call {c : S.Call} {k : S.Answer c → Prog S α} {s : σ} :
      D c → Within acc D (k (acc c s).1) (acc c s).2 → Within acc D (.call c k) s

variable {acc : Access S σ} {D : S.Call → Prop} {s : σ}

@[simp]
theorem through_ret (a : α) (s : σ) :
  through acc (.ret a) s = some (a, s)
  := rfl

@[simp]
theorem through_fail (s : σ) :
  through acc (.fail : Prog S α) s = none
  := rfl

@[simp]
theorem through_call (c : S.Call) (k : S.Answer c → Prog S α) (s : σ) :
  through acc (.call c k) s = through acc (k (acc c s).1) (acc c s).2
  := rfl

/-- A program and then another are gone through one after the other. -/
theorem through_bind (p : Prog S α) (f : α → Prog S β) (s : σ) :
  through acc (p >>= f) s = (through acc p s).bind fun r => through acc (f r.1) r.2
  := by
  induction p generalizing s with
  | ret a => rfl
  | fail => rfl
  | call c k ih => apply ih

@[simp]
theorem within_call (c : S.Call) (k : S.Answer c → Prog S α) (s : σ) :
  Within acc D (.call c k) s ↔ D c ∧ Within acc D (k (acc c s).1) (acc c s).2
  := by
  constructor
  · rintro (_ | _ | ⟨hc, hrest⟩)
    exact ⟨hc, hrest⟩
  · exact fun h => .call h.1 h.2

/-- The accesses of a program and then another are those of both. -/
theorem within_bind {p : Prog S α} {f : α → Prog S β} :
  Within acc D (p >>= f) s ↔ Within acc D p s
    ∧ ∀ a s', through acc p s = some (a, s') → Within acc D (f a) s'
  := by
  induction p generalizing s with
  | ret a =>
      constructor
      · intro h
        refine ⟨.ret a s, fun b s' hr => ?_⟩
        obtain ⟨rfl, rfl⟩ := Prod.mk.inj (Option.some.inj hr)
        exact h
      · exact fun h => h.2 a s rfl
  | fail => exact ⟨fun _ => ⟨.fail s, nofun⟩, fun _ => .fail s⟩
  | call c k ih =>
      rw [call_bind, within_call, within_call, ih, and_assoc]
      exact Iff.rfl

theorem Within.mono {D' : S.Call → Prop} {p : Prog S α} (h : Within acc D p s)
    (hD : ∀ c, D c → D' c) :
  Within acc D' p s
  := by
  induction h with
  | ret a s => exact .ret a s
  | fail s => exact .fail s
  | call hc _ ih => exact .call (hD _ hc) ih

/-- Where all accesses are in `D`, those of any program are. -/
theorem within_of_forall (hD : ∀ c, D c) (p : Prog S α) (s : σ) :
  Within acc D p s
  := by
  induction p generalizing s with
  | ret a => exact .ret a s
  | fail => exact .fail s
  | call c k ih => exact .call (hD c) (ih _ _)

/-! ### What happens in between -/

/-- It makes no difference for the access whether `e` happens before it or after it. -/
def Commutes (acc : Access S σ) (e : σ → σ) (c : S.Call) : Prop :=
  ∀ s, acc c (e s) = ((acc c s).1, e (acc c s).2)

variable {e : σ → σ} {p : Prog S α}

/-- What commutes with all accesses of a program may as well happen behind them. -/
theorem Within.through_commutes (h : Within acc D p s) (he : ∀ c, D c → Commutes acc e c) :
  through acc p (e s) = (through acc p s).map fun r => (r.1, e r.2)
  := by
  induction h with
  | ret a s => rfl
  | fail s => rfl
  | @call c k s hc _ ih =>
      rw [through_call, through_call, he c hc s]
      exact ih

/-- And it does not change which accesses these are. -/
theorem Within.commutes (h : Within acc D p s) (he : ∀ c, D c → Commutes acc e c) :
  Within acc D p (e s)
  := by
  induction h with
  | ret a s => exact .ret a (e s)
  | fail s => exact .fail (e s)
  | @call c k s hc _ ih =>
      apply Within.call hc
      rw [he c hc s]
      exact ih

/-! ### Loops -/

/-- The rounds of a loop, `n` of them at most. -/
def rounds (body : τ → Prog S (τ ⊕ ρ)) : ℕ → τ → Prog S ρ
  | 0, _ => .fail
  | n + 1, t => body t >>= Sum.elim (rounds body n) .ret

variable {body : τ → Prog S (τ ⊕ ρ)} {round : τ → τ ⊕ ρ}

/-- A loop whose rounds leave the state as it is. -/
theorem through_rounds (hround : ∀ t, through acc (body t) s = some (round t, s)) (n : ℕ)
    (t : τ) :
  through acc (rounds body n t) s = (loop round n t).map fun r => (r, s)
  := by
  induction n generalizing t with
  | zero => rfl
  | succ n ih =>
      rw [rounds, through_bind, hround, Option.bind_some]
      cases hr : round t with
      | inl t' =>
          rw [loop_inl hr]
          apply ih
      | inr r =>
          rw [loop_inr hr]
          rfl

/-- Its accesses are in `D` when those of a round are as long as the rounds keep an invariant. -/
theorem within_rounds (hround : ∀ t, through acc (body t) s = some (round t, s)) {I : τ → Prop}
    (hbody : ∀ t, I t → Within acc D (body t) s)
    (hkeep : ∀ t t', I t → round t = .inl t' → I t') (n : ℕ) {t : τ} (ht : I t) :
  Within acc D (rounds body n t) s
  := by
  induction n generalizing t with
  | zero => exact .fail s
  | succ n ih =>
      rw [rounds, within_bind]
      use hbody t ht
      intro r s' hr
      rw [hround, Option.some.injEq, Prod.mk.injEq] at hr
      obtain ⟨hr, rfl⟩ := hr
      cases r with
      | inl t' => exact ih (hkeep t t' ht hr)
      | inr r => exact .ret r s

end Prog
