import StandaloneSel4.Lib.Prog

/-!
# Answering calls by programs

A handler answers each call over one signature by a program over another, and keeps a state
between the answers. A program over the first signature is then carried out over the second.
Every execution of what is carried out that has returned comes from an execution of the
program, whose answers are those of the handler. So what is so of the program under all
answers is so when it is carried out.
-/

/-- The calls of both signatures. -/
def Signature.sum (S T : Signature) : Signature where
  Call := S.Call ⊕ T.Call
  Answer := Sum.elim S.Answer T.Answer

namespace Prog

variable {S T : Signature} {σ α β : Type}

/-- A program, with further calls that it does not make. -/
def inl : Prog S α → Prog (S.sum T) α
  | .ret a => .ret a
  | .fail => .fail
  | .call c k => .call (.inl c) fun x => inl (k x)

/-- A program over the second signature, likewise. -/
def inr : Prog T α → Prog (S.sum T) α
  | .ret a => .ret a
  | .fail => .fail
  | .call c k => .call (.inr c) fun x => inr (k x)

/-- A call that was made, among further calls. -/
def Event.inl (e : Event S) : Event (S.sum T) :=
  ⟨.inl e.call, e.answer⟩

/-- Further calls that are not made change nothing. -/
theorem Exec.inl_inv {p : Prog S α} {tr : List (Event (S.sum T))} {o : Outcome α}
    (h : Exec p.inl tr o) :
  ∃ tr', Exec p tr' o ∧ tr = tr'.map Event.inl
  := by
  induction p generalizing tr with
  | ret a =>
      cases h with
      | ret a => exact ⟨[], Exec.ret a, rfl⟩
      | stop p => exact ⟨[], Exec.stop _, rfl⟩
  | fail =>
      cases h with
      | fail => exact ⟨[], Exec.fail, rfl⟩
      | stop p => exact ⟨[], Exec.stop _, rfl⟩
  | call c k ih =>
      cases h with
      | call c k x h =>
          obtain ⟨tr', h', rfl⟩ := ih x h
          exact ⟨⟨c, x⟩ :: tr', Exec.call c k x h', rfl⟩
      | stop p => exact ⟨[], Exec.stop _, rfl⟩

/-- What answers each call over `S`: a program over `T`, on a state. -/
abbrev Handler (S T : Signature) (σ : Type) : Type :=
  (c : S.Call) → σ → Prog T (S.Answer c × σ)

/-- The program, its calls answered by a handler. -/
def carryOut (H : Handler S T σ) : Prog S α → σ → Prog T (α × σ)
  | .ret a, s => .ret (a, s)
  | .fail, _ => .fail
  | .call c k, s => H c s >>= fun r => carryOut H (k r.1) r.2

/-- `Replies H s calls tr s'`: from the state `s` on the handler gives the calls in `calls`
their answers, making those in `tr`, and is then in the state `s'`. -/
inductive Replies (H : Handler S T σ) : σ → List (Event S) → List (Event T) → σ → Prop where
  | nil (s : σ) : Replies H s [] [] s
  | cons {s s' s'' : σ} {c : S.Call} {x : S.Answer c} {calls : List (Event S)}
      {tr tr' : List (Event T)} :
      Exec (H c s) tr (.ret (x, s')) → Replies H s' calls tr' s'' →
      Replies H s (⟨c, x⟩ :: calls) (tr ++ tr') s''

variable {H : Handler S T σ}

/-- An execution of a program that is carried out, and has returned, comes from one of the
program. -/
theorem Exec.carryOut_inv {p : Prog S α} {s s' : σ} {tr : List (Event T)} {a : α}
    (h : Exec (p.carryOut H s) tr (.ret (a, s'))) :
  ∃ calls, Exec p calls (.ret a) ∧ Replies H s calls tr s'
  := by
  induction p generalizing s tr with
  | ret b =>
      obtain ⟨rfl, heq⟩ := h.ret_inv
      obtain ⟨rfl, rfl⟩ : a = b ∧ s' = s := by simpa using heq
      exact ⟨[], Exec.ret a, Replies.nil s'⟩
  | fail => cases h
  | call c k ih =>
      obtain ⟨tr₁, ⟨x, s₁⟩, tr₂, h₁, h₂, rfl⟩ := Exec.bind_ret h
      obtain ⟨calls, hcalls, hreplies⟩ := ih x h₂
      exact ⟨⟨c, x⟩ :: calls, Exec.call c k x hcalls, Replies.cons h₁ hreplies⟩

/-- What is so of every answer of the handler is so of all of them. -/
theorem Replies.forall {s s' : σ} {calls : List (Event S)} {tr : List (Event T)}
    {Q : Event S → Prop}
    (hQ : ∀ c s tr x s', Exec (H c s) tr (.ret (x, s')) → Q ⟨c, x⟩)
    (h : Replies H s calls tr s') :
  ∀ e ∈ calls, Q e
  := by
  induction h with
  | nil s => apply List.forall_mem_nil
  | cons hexec _ ih =>
      exact List.forall_mem_cons.mpr ⟨hQ _ _ _ _ _ hexec, ih⟩

end Prog
