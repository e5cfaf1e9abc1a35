import StandaloneSel4.Lib.Handler
import StandaloneSel4.Lib.World

/-!
# Worlds for two signatures

A program over one of two signatures goes through the same runs when there are further calls that it
does not make.
-/

variable {S T : Signature} {σ α : Type}

/-- The world that answers the calls of both signatures, each as its own world does. -/
def World.sum (W : World S σ) (W' : World T σ) : World (S.sum T) σ
  | s, .inl c, x, s' => W s c x s'
  | s, .inr c, x, s' => W' s c x s'

namespace Prog

variable {W : World S σ} {W' : World T σ} {s s' : σ}

/-- A call that was made, among further calls. -/
def Event.inr (e : Event T) : Event (S.sum T) :=
  ⟨.inr e.call, e.answer⟩

theorem wpIn_inl {p : Prog S α} {Q : List (Event (S.sum T)) → Option α → σ → Prop}
    (h : p.wpIn W s fun tr o s' => Q (tr.map Event.inl) o s') :
  p.inl.wpIn (W.sum W') s Q
  := by
  induction p generalizing s Q with
  | ret a => apply h
  | fail => apply h
  | call c k ih =>
      intro x s' hanswer
      apply ih x (h x s' hanswer)

theorem wpIn_inr {p : Prog T α} {Q : List (Event (S.sum T)) → Option α → σ → Prop}
    (h : p.wpIn W' s fun tr o s' => Q (tr.map Event.inr) o s') :
  p.inr.wpIn (W.sum W') s Q
  := by
  induction p generalizing s Q with
  | ret a => apply h
  | fail => apply h
  | call c k ih =>
      intro x s' hanswer
      apply ih x (h x s' hanswer)

/-- How a run has ended, as an execution. -/
def ended (o : Option α) : Outcome α :=
  match o with
  | some a => .ret a
  | none => .fail

/-- A run that has ended in a world satisfies what all executions satisfy. -/
theorem Runs.of_wp {p : Prog S α} {tr : List (Event S)} {o : Option α}
    {Q : List (Event S) → Outcome α → Prop} (hruns : Runs W s p tr o s') (h : p.wp Q) :
  Q tr (ended o)
  := by
  induction hruns generalizing Q with
  | ret s a => exact h.1
  | fail s => exact h.1
  | call hanswer _ ih => exact ih (h.2 _)

end Prog
