import Mathlib.Data.List.Basic
import Mathlib.Tactic.Common

/-!
# Programs that call their surroundings

A signature lists the calls a program may make and the answers each may get. A program
returns, fails an assertion, or makes a call and goes on from the answer. It says nothing
about where the answers come from: `Exec p tr o` holds when some answers make `p` go
through the calls and answers `tr` to the outcome `o`, so a statement about every `tr` is
a statement about every behaviour of the surroundings. `wp p Q` is the weakest condition
under which all executions of `p` satisfy `Q`. `observe` is the execution a given oracle
leads to.
-/

/-- The calls a program may make, and the answers to each of them. -/
structure Signature where
  Call : Type
  Answer : Call → Type

/-- A program over a signature with a result in `α`. -/
inductive Prog (S : Signature) (α : Type) : Type where
  | ret (a : α)
  | fail
  | call (c : S.Call) (k : S.Answer c → Prog S α)

namespace Prog

variable {S : Signature} {α β : Type}

/-- A program and then another from its result. -/
def bind : Prog S α → (α → Prog S β) → Prog S β
  | .ret a, f => f a
  | .fail, _ => .fail
  | .call c k, f => .call c (fun x => (k x).bind f)

instance : Monad (Prog S) where
  pure := .ret
  bind := bind

/-- The program that makes one call and returns the answer. -/
def perform (c : S.Call) : Prog S (S.Answer c) :=
  .call c .ret

/-- The program that fails unless `p` holds. -/
def assert (p : Prop) [Decidable p] : Prog S Unit :=
  if p then .ret () else .fail

@[simp]
theorem pure_def (a : α) :
  (pure a : Prog S α) = .ret a
  := rfl

@[simp]
theorem ret_bind (a : α) (f : α → Prog S β) :
  (.ret a : Prog S α) >>= f = f a
  := rfl

@[simp]
theorem fail_bind (f : α → Prog S β) :
  (.fail : Prog S α) >>= f = .fail
  := rfl

@[simp]
theorem call_bind (c : S.Call) (k : S.Answer c → Prog S α) (f : α → Prog S β) :
  (.call c k) >>= f = .call c (fun x => k x >>= f)
  := rfl

theorem bind_ret (p : Prog S α) :
  p >>= .ret = p
  := by
  induction p with
  | ret a => rfl
  | fail => rfl
  | call c k ih => exact congrArg (Prog.call c) (funext ih)

theorem bind_assoc {γ : Type} (p : Prog S α) (f : α → Prog S β) (g : β → Prog S γ) :
  p >>= f >>= g = p >>= fun a => f a >>= g
  := by
  induction p with
  | ret a => rfl
  | fail => rfl
  | call c k ih => exact congrArg (Prog.call c) (funext ih)

@[simp]
theorem assert_true_bind {p : Prop} [Decidable p] (h : p) (f : Unit → Prog S β) :
  (assert p : Prog S Unit) >>= f = f ()
  := by
  rw [assert, if_pos h, ret_bind]

@[simp]
theorem assert_false_bind {p : Prop} [Decidable p] (h : ¬ p) (f : Unit → Prog S β) :
  (assert p : Prog S Unit) >>= f = .fail
  := by
  rw [assert, if_neg h, fail_bind]

/-! ### Executions -/

/-- A call that was made, with the answer it got. -/
structure Event (S : Signature) where
  call : S.Call
  answer : S.Answer call

/-- How far an execution has come: it has returned, it has failed an assertion, or it is
still on its way. -/
inductive Outcome (α : Type) where
  | ret (a : α)
  | fail
  | running

/-- `Exec p tr o`: under some answers of the surroundings `p` makes the calls in `tr` and
is then at `o`. -/
inductive Exec : Prog S α → List (Event S) → Outcome α → Prop where
  | ret (a : α) : Exec (.ret a) [] (.ret a)
  | fail : Exec .fail [] .fail
  | call (c : S.Call) (k : S.Answer c → Prog S α) (x : S.Answer c) {tr : List (Event S)}
      {o : Outcome α} : Exec (k x) tr o → Exec (.call c k) (⟨c, x⟩ :: tr) o
  | stop (p : Prog S α) : Exec p [] .running

/-- All executions of `p` satisfy `Q`. -/
def wp : Prog S α → (List (Event S) → Outcome α → Prop) → Prop
  | .ret a, Q => Q [] (.ret a) ∧ Q [] .running
  | .fail, Q => Q [] .fail ∧ Q [] .running
  | .call c k, Q => Q [] .running ∧ ∀ x, (k x).wp (fun tr o => Q (⟨c, x⟩ :: tr) o)

@[simp]
theorem wp_ret {a : α} {Q : List (Event S) → Outcome α → Prop} :
  (.ret a : Prog S α).wp Q ↔ Q [] (.ret a) ∧ Q [] .running
  := Iff.rfl

@[simp]
theorem wp_fail {Q : List (Event S) → Outcome α → Prop} :
  (.fail : Prog S α).wp Q ↔ Q [] .fail ∧ Q [] .running
  := Iff.rfl

@[simp]
theorem wp_call {c : S.Call} {k : S.Answer c → Prog S α} {Q : List (Event S) → Outcome α → Prop} :
  (.call c k : Prog S α).wp Q ↔ Q [] .running ∧ ∀ x, (k x).wp fun tr o => Q (⟨c, x⟩ :: tr) o
  := Iff.rfl

/-- The weakest condition is met exactly when every execution satisfies the
postcondition. -/
theorem wp_iff {p : Prog S α} {Q : List (Event S) → Outcome α → Prop} :
  p.wp Q ↔ ∀ tr o, Exec p tr o → Q tr o
  := by
  constructor
  · intro h tr o hexec
    induction hexec generalizing Q with
    | ret a => exact h.1
    | fail => exact h.1
    | call c k x _ ih => apply ih (h.2 x)
    | stop p =>
        cases p with
        | ret a => exact h.2
        | fail => exact h.2
        | call c k => exact h.1
  · intro h
    induction p generalizing Q with
    | ret a => exact ⟨h _ _ (Exec.ret a), h _ _ (Exec.stop _)⟩
    | fail => exact ⟨h _ _ Exec.fail, h _ _ (Exec.stop _)⟩
    | call c k ih =>
        use h _ _ (Exec.stop _)
        intro x
        apply ih
        intro tr o hexec
        apply h _ _ (Exec.call c k x hexec)

/-- A weaker postcondition is met under the same condition. -/
theorem wp_mono {p : Prog S α} {Q Q' : List (Event S) → Outcome α → Prop} (h : p.wp Q)
    (hQ : ∀ tr o, Q tr o → Q' tr o) :
  p.wp Q'
  := by
  rw [wp_iff] at h ⊢
  intro tr o hexec
  apply hQ
  apply h tr o hexec

/-- The condition for a program and then another is that for the first to end where the
second meets its own. -/
theorem wp_bind {p : Prog S α} {f : α → Prog S β} {Q : List (Event S) → Outcome β → Prop}
    (h : p.wp (fun tr o =>
      match o with
      | .ret a => (f a).wp (fun tr' o' => Q (tr ++ tr') o')
      | .fail => Q tr .fail
      | .running => Q tr .running)) :
  (p >>= f).wp Q
  := by
  induction p generalizing Q with
  | ret a => exact h.1
  | fail => exact h
  | call c k ih =>
      use h.1
      intro x
      apply ih x
      apply h.2 x

theorem Exec.ret_inv {a : α} {tr : List (Event S)} {o : Outcome α}
    (h : Exec (.ret a) tr o) :
  tr = [] ∧ (o = .ret a ∨ o = .running)
  := by
  cases h with
  | ret a => exact ⟨rfl, .inl rfl⟩
  | stop p => exact ⟨rfl, .inr rfl⟩

/-- An execution of a call that has returned goes on from an answer. -/
theorem Exec.call_inv {c : S.Call} {k : S.Answer c → Prog S α} {tr : List (Event S)} {a : α}
    (h : Exec (.call c k) tr (.ret a)) :
  ∃ x tr', tr = ⟨c, x⟩ :: tr' ∧ Exec (k x) tr' (.ret a)
  := by
  cases h with
  | call c k x h => exact ⟨x, _, rfl, h⟩

/-- An execution of a program and then another that has returned is an execution of each,
one after the other. -/
theorem Exec.bind_ret {p : Prog S α} {f : α → Prog S β} {tr : List (Event S)} {b : β}
    (h : Exec (p >>= f) tr (.ret b)) :
  ∃ tr₁ a tr₂, Exec p tr₁ (.ret a) ∧ Exec (f a) tr₂ (.ret b) ∧ tr = tr₁ ++ tr₂
  := by
  induction p generalizing tr with
  | ret a => exact ⟨[], a, tr, Exec.ret a, h, rfl⟩
  | fail => cases h
  | call c k ih =>
      cases h with
      | call c k x h =>
          obtain ⟨tr₁, a, tr₂, h₁, h₂, rfl⟩ := ih x h
          exact ⟨_ :: tr₁, a, tr₂, Exec.call c k x h₁, h₂, rfl⟩

/-- Every execution is the beginning of one that has ended, when every call can be
answered. -/
theorem Exec.exists_ended [∀ c, Nonempty (S.Answer c)] {p : Prog S α} {tr : List (Event S)}
    {o : Outcome α} (h : Exec p tr o) :
  ∃ tr' o', o' ≠ .running ∧ Exec p (tr ++ tr') o'
  := by
  induction h with
  | ret a => exact ⟨[], .ret a, nofun, Exec.ret a⟩
  | fail => exact ⟨[], .fail, nofun, Exec.fail⟩
  | call c k x _ ih =>
      obtain ⟨tr', o', ho', h'⟩ := ih
      exact ⟨tr', o', ho', Exec.call c k x h'⟩
  | stop p =>
      induction p with
      | ret a => exact ⟨[], .ret a, nofun, Exec.ret a⟩
      | fail => exact ⟨[], .fail, nofun, Exec.fail⟩
      | call c k ih =>
          obtain ⟨x⟩ := ‹∀ c, Nonempty (S.Answer c)› c
          obtain ⟨tr', o', ho', h'⟩ := ih x
          exact ⟨⟨c, x⟩ :: tr', o', ho', Exec.call c k x h'⟩

/-! ### Oracles -/

/-- What an oracle answers to a call after the calls made so far. -/
abbrev Oracle (S : Signature) : Type :=
  List (Event S) → (c : S.Call) → S.Answer c

/-- The calls a program makes under an oracle, after those in `past`, and its end. -/
def observe (ω : Oracle S) : List (Event S) → Prog S α → List (Event S) × Outcome α
  | _, .ret a => ([], .ret a)
  | _, .fail => ([], .fail)
  | past, .call c k =>
      let e : Event S := ⟨c, ω past c⟩
      let r := observe ω (past ++ [e]) (k e.answer)
      (e :: r.1, r.2)

/-- What is observed under an oracle is an execution. -/
theorem exec_observe (ω : Oracle S) (past : List (Event S)) (p : Prog S α) :
  Exec p (observe ω past p).1 (observe ω past p).2
  := by
  induction p generalizing past with
  | ret a => exact Exec.ret a
  | fail => exact Exec.fail
  | call c k ih => exact Exec.call c k _ (ih _ _)

end Prog
