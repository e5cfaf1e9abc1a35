import StandaloneSel4.Lib.Prog

/-!
# Executions that go no further

A call may never come back. Given which calls return, an execution goes no further when the
program has returned or failed, or waits for a call that does not return. A program settles
when it returns in all such executions, and has made as many calls of a certain kind in each;
the numbers for programs in sequence add up.
-/

namespace Prog

variable {S : Signature} {α β : Type}

/-- `Maximal returns p tr o`: under some answers `p` makes the calls in `tr`, is then at `o`, and
goes no further. -/
inductive Maximal (returns : S.Call → Prop) : Prog S α → List (Event S) → Outcome α → Prop where
  | ret (a : α) : Maximal returns (.ret a) [] (.ret a)
  | fail : Maximal returns .fail [] .fail
  | call (c : S.Call) (k : S.Answer c → Prog S α) (x : S.Answer c) {tr : List (Event S)}
      {o : Outcome α} :
      returns c → Maximal returns (k x) tr o → Maximal returns (.call c k) (⟨c, x⟩ :: tr) o
  | waits (c : S.Call) (k : S.Answer c → Prog S α) :
      ¬ returns c → Maximal returns (.call c k) [] .running

variable {returns : S.Call → Prop}

/-- An execution goes no further after a call that returns when it does so from the answer on. -/
theorem Maximal.call_iff {c : S.Call} {k : S.Answer c → Prog S α} {x : S.Answer c}
    {tr : List (Event S)} {o : Outcome α} (hc : returns c) :
  Maximal returns (.call c k) (⟨c, x⟩ :: tr) o ↔ Maximal returns (k x) tr o
  := by
  constructor
  · intro h
    cases h with
    | call _ _ _ _ h => apply h
  · intro h
    apply Maximal.call c k x hc h

/-- An execution of a program and then another goes no further in the first, or in the second
after the first has returned. -/
theorem Maximal.bind_inv {p : Prog S α} {f : α → Prog S β} {tr : List (Event S)} {o : Outcome β}
    (h : Maximal returns (p >>= f) tr o) :
  (∃ tr₁ a tr₂, Maximal returns p tr₁ (.ret a) ∧ Maximal returns (f a) tr₂ o ∧ tr = tr₁ ++ tr₂)
    ∨ Maximal returns p tr .fail ∨ Maximal returns p tr .running
  := by
  induction p generalizing tr with
  | ret a => exact .inl ⟨[], a, tr, Maximal.ret a, h, rfl⟩
  | fail =>
      cases h with
      | fail => exact .inr (.inl Maximal.fail)
  | call c k ih =>
      cases h with
      | call c k x hc h =>
          rcases ih x h with ⟨tr₁, a, tr₂, h₁, h₂, rfl⟩ | h | h
          · exact .inl ⟨_ :: tr₁, a, tr₂, Maximal.call c k x hc h₁, h₂, rfl⟩
          · exact .inr (.inl (Maximal.call c k x hc h))
          · exact .inr (.inr (Maximal.call c k x hc h))
      | waits c k hc => exact .inr (.inr (Maximal.waits c k hc))

/-! ### Programs that settle -/

/-- The number of calls of a kind. -/
def count (kind : S.Call → Bool) (tr : List (Event S)) : ℕ :=
  tr.countP fun e => kind e.call

/-- Whatever happens, the program returns, and has then made `n` calls of the kind. -/
def Settles (returns : S.Call → Prop) (kind : S.Call → Bool) (n : ℕ) (p : Prog S α) : Prop :=
  ∀ tr o, Maximal returns p tr o → (∃ a, o = .ret a) ∧ count kind tr = n

variable {kind : S.Call → Bool} {m n : ℕ}

theorem Settles.ret (a : α) :
  Settles returns kind 0 (.ret a : Prog S α)
  := by
  intro tr o h
  cases h with
  | ret a => exact ⟨⟨a, rfl⟩, rfl⟩

/-- A call of the kind that returns is counted. -/
theorem Settles.call_kind {c : S.Call} {k : S.Answer c → Prog S α} (hc : returns c)
    (hkind : kind c = true) (h : ∀ x, Settles returns kind n (k x)) :
  Settles returns kind (n + 1) (.call c k)
  := by
  intro tr o hmax
  cases hmax with
  | call _ _ x _ hmax =>
      obtain ⟨hret, hcount⟩ := h x _ _ hmax
      use hret
      rw [← hcount]
      exact List.countP_cons_of_pos hkind
  | waits _ _ hwaits => exact absurd hc hwaits

/-- Other calls that return are not. -/
theorem Settles.call_other {c : S.Call} {k : S.Answer c → Prog S α} (hc : returns c)
    (hkind : kind c = false) (h : ∀ x, Settles returns kind n (k x)) :
  Settles returns kind n (.call c k)
  := by
  intro tr o hmax
  cases hmax with
  | call _ _ x _ hmax =>
      obtain ⟨hret, hcount⟩ := h x _ _ hmax
      use hret
      rw [← hcount]
      apply List.countP_cons_of_neg (by simp [hkind])
  | waits _ _ hwaits => exact absurd hc hwaits

/-- In sequence the numbers add up. -/
theorem Settles.bind {p : Prog S α} {f : α → Prog S β} (h : Settles returns kind m p)
    (hf : ∀ a, Settles returns kind n (f a)) :
  Settles returns kind (m + n) (p >>= f)
  := by
  intro tr o hmax
  rcases hmax.bind_inv with ⟨tr₁, a, tr₂, h₁, h₂, rfl⟩ | hfail | hwaits
  · obtain ⟨hret, hcount⟩ := hf a _ _ h₂
    use hret
    rw [count, List.countP_append]
    apply congrArg₂ (· + ·) (h _ _ h₁).2 hcount
  · obtain ⟨⟨a, ha⟩, -⟩ := h _ _ hfail
    cases ha
  · obtain ⟨⟨a, ha⟩, -⟩ := h _ _ hwaits
    cases ha

end Prog
