import StandaloneSel4.Lib.World

/-!
# Total correctness

A program is totally correct in a world when, whatever the world answers, every call that it makes
has an answer, no assertion fails, and what it returns satisfies the postcondition. It then has a
run, and every run ends so. More generally only the answers of a second world may be looked at: a
program may rely on more than it is promised.
-/

namespace Prog

variable {S : Signature} {σ α β : Type} {W V : World S σ} {s s' : σ}

/-- Every call has an answer in `W`, and, whatever `V` answers, the program returns, and `Q` holds
then. -/
def totalFor (W V : World S σ) : Prog S α → σ → (α → σ → Prop) → Prop
  | .ret a, s, Q => Q a s
  | .fail, _, _ => False
  | .call c k, s, Q => (∃ x s', W s c x s') ∧ ∀ x s', V s c x s' → (k x).totalFor W V s' Q

/-- Whatever the world answers, the program returns, and `Q` holds then. -/
abbrev totalIn (W : World S σ) (p : Prog S α) (s : σ) (Q : α → σ → Prop) : Prop :=
  p.totalFor W W s Q

variable {Q Q' : α → σ → Prop}

theorem totalFor_mono {p : Prog S α} (h : p.totalFor W V s Q) (hQ : ∀ a s', Q a s' → Q' a s') :
  p.totalFor W V s Q'
  := by
  induction p generalizing s with
  | ret a => exact hQ a s h
  | fail => exact h
  | call c k ih => exact ⟨h.1, fun x s' hanswer => ih x (h.2 x s' hanswer)⟩

/-- The rule for a program and then another. -/
theorem totalFor_bind {p : Prog S α} {f : α → Prog S β} {R : β → σ → Prop}
    (h : p.totalFor W V s fun a s' => (f a).totalFor W V s' R) :
  (p >>= f).totalFor W V s R
  := by
  induction p generalizing s with
  | ret a => exact h
  | fail => exact h
  | call c k ih => exact ⟨h.1, fun x s' hanswer => ih x (h.2 x s' hanswer)⟩

/-- A program that is totally correct has a run. -/
theorem exists_runs_of_totalIn {p : Prog S α} (h : p.totalIn W s Q) :
  ∃ tr o s', Runs W s p tr o s'
  := by
  induction p generalizing s with
  | ret a => exact ⟨_, _, _, Runs.ret s a⟩
  | fail => exact ⟨_, _, _, Runs.fail s⟩
  | call c k ih =>
      obtain ⟨⟨x, s', hanswer⟩, h⟩ := h
      obtain ⟨tr, o, s'', hruns⟩ := ih x (h x s' hanswer)
      exact ⟨_, _, _, Runs.call hanswer hruns⟩

/-- Every run on which only such answers are got ends with a result as it should be. -/
theorem Runs.of_totalFor {p : Prog S α} {tr : List (Event S)} {o : Option α}
    (hruns : Runs V s p tr o s') (h : p.totalFor W V s Q) :
  ∃ a, o = some a ∧ Q a s'
  := by
  induction hruns with
  | ret s a => exact ⟨a, rfl, h⟩
  | fail s => exact absurd h id
  | call hanswer _ ih => exact ih (h.2 _ _ hanswer)

end Prog
