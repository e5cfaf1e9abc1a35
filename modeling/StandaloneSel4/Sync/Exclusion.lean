import StandaloneSel4.Sync.Inversion
import Mathlib.Algebra.BigOperators.Group.Finset.Basic
import Mathlib.Algebra.Order.BigOperators.Group.Finset
import Mathlib.Algebra.Order.Ring.Int
import Mathlib.Data.Int.Cast.Basic

/-!
# Mutual exclusion

A program is balanced when on every path it gives the lock back as often as it has taken
it, never more often, and never holds it more than a given number of times. When the
programs of all operations are balanced, the counter of the lock is one less the number of
acquisitions not yet given back and of threads that wait, and there is one token at most:
it is with a thread that holds the lock, with one about to signal, or in the pending
signal. So one thread at most holds the lock, and a thread that may hold it once only does
not wait for it while it holds it.
-/

namespace Sync

open Prog

variable {S : Signature} {σ Ω ε ι α β : Type}

/-! ### Balanced programs -/

/-- With the lock held `d` times, the program gives it back as often as it holds it in the
end, and holds it `max` times at most, provided the actions answer as allowed. -/
def Balanced (allow : (c : S.Call) → S.Answer c → Prop) (max : ℕ) :
    ℕ → Prog (LockSig S) α → Prop
  | d, .ret _ => d = 0
  | _, .fail => False
  | d, .call .lock k => d < max ∧ ∀ x, Balanced allow max (d + 1) (k x)
  | d, .call .unlock k => 0 < d ∧ ∀ x, Balanced allow max (d - 1) (k x)
  | d, .call (.act c) k => ∀ x, allow c x → Balanced allow max d (k x)

/-- What the program does after the call a thread is in keeps the balance. -/
def Control.Ok (allow : (c : S.Call) → S.Answer c → Prop) (max d : ℕ) : Control S α → Prop
  | .idle => d = 0
  | .run p => Balanced allow max d p
  | .read k | .exchange _ k | .wait k | .blocked k =>
      d < max ∧ ∀ x, Balanced allow max (d + 1) (k x)
  | .signal k => ∀ x, Balanced allow max d (k x)

/-- A thread keeps the balance of its program. -/
def Thread.Ok (allow : Option Ω → (c : S.Call) → S.Answer c → Prop) (max : ℕ)
    (t : Thread S Ω α) : Prop :=
  ∃ d, t.acquired = t.released + d ∧ t.control.Ok (allow t.op) max d

/-! ### Counting -/

/-- One for a thread that has lowered the counter without having got the lock. -/
def Control.waiting : Control S α → ℤ
  | .wait _ | .blocked _ => 1
  | _ => 0

/-- One for a thread that has given the lock back without having signalled yet. -/
def Control.signalling : Control S α → ℤ
  | .signal _ => 1
  | _ => 0

/-- What the thread takes from the counter of the lock. -/
def Thread.weight (t : Thread S Ω α) : ℤ :=
  t.acquired - t.released + t.control.waiting

/-- The tokens with the thread. -/
def Thread.token (t : Thread S Ω α) : ℤ :=
  t.acquired - t.released + t.control.signalling

/-- The tokens that are about when the counter is `value`. -/
def due (value : ℤ) : ℤ :=
  if value ≤ 0 then 1 else 0

/-- The tokens in the notification, less those that are about. -/
def BinSem.debt (b : BinSem) : ℤ :=
  b.pending.toNat - due b.value

theorem due_of_le {value : ℤ} (h : value ≤ 0) :
  due value = 1
  := if_pos h

theorem due_of_not_le {value : ℤ} (h : ¬ value ≤ 0) :
  due value = 0
  := if_neg h

theorem due_le (value : ℤ) :
  due value ≤ 1
  := by
  unfold due
  split <;> omega

theorem Thread.weight_le (t : Thread S Ω α) :
  t.weight ≤ t.token + 1
  := by
  unfold weight token
  cases t.control <;> simp only [Control.waiting, Control.signalling] <;> omega

variable [Fintype ι]

/-- The invariant of the lock. -/
structure Inv (allow : Option Ω → (c : S.Call) → S.Answer c → Prop) (max : ℕ)
    (s : State S σ Ω α ι) : Prop where
  ok : ∀ i, (s.thread i).Ok allow max
  value : s.lock.value = 1 - ∑ i, (s.thread i).weight
  token : ∑ i, (s.thread i).token + s.lock.debt = 0

variable {allow : Option Ω → (c : S.Call) → S.Answer c → Prop} {max : ℕ}
  {s s' : State S σ Ω α ι}

/-- The invariant holds before the first operations. -/
theorem Inv.start (shared : σ) (notification : ℕ) :
  Inv allow max (State.start shared ⟨notification, 1, false⟩ : State S σ Ω α ι)
  := by
  constructor
  · intro i
    exact ⟨0, rfl, rfl⟩
  · simp [State.start, Thread.weight, Control.waiting]
  · simp [State.start, Thread.token, Control.signalling, BinSem.debt, due]

theorem Thread.Ok.token_nonneg {t : Thread S Ω α} (h : t.Ok allow max) :
  0 ≤ t.token
  := by
  obtain ⟨d, hd, -⟩ := h
  unfold Thread.token
  cases t.control <;> simp only [Control.signalling] <;> omega

theorem Thread.Ok.token_pos {t : Thread S Ω α} (h : t.Holds) :
  1 ≤ t.token
  := by
  unfold Thread.Holds at h
  unfold Thread.token
  cases t.control <;> simp only [Control.signalling] <;> omega

theorem Thread.Ok.weight_nonneg {t : Thread S Ω α} (h : t.Ok allow max) :
  0 ≤ t.weight
  := by
  obtain ⟨d, hd, -⟩ := h
  unfold Thread.weight
  cases t.control <;> simp only [Control.waiting] <;> omega

namespace Inv

/-- There is one token at most. -/
theorem sum_token_le (h : Inv allow max s) :
  ∑ i, (s.thread i).token ≤ 1
  := by
  have htoken := h.token
  have hdue := due_le s.lock.value
  unfold BinSem.debt at htoken
  omega

/-- The token of a thread is paid for. -/
theorem token_add_debt_le (h : Inv allow max s) (i : ι) :
  (s.thread i).token + s.lock.debt ≤ 0
  := by
  have hself : (s.thread i).token ≤ ∑ j, (s.thread j).token :=
    Finset.single_le_sum (fun j _ => (h.ok j).token_nonneg) (Finset.mem_univ i)
  have hsum := h.token
  omega

/-- No signal is pending while a thread is about to signal. -/
theorem not_pending (h : Inv allow max s) {i : ι} {k : ℤ → Prog (LockSig S) α}
    (hc : (s.thread i).control = .signal k) :
  s.lock.pending = false
  := by
  obtain ⟨d, hd, -⟩ := h.ok i
  have hdebt := h.token_add_debt_le i
  simp only [Thread.token, hc, Control.signalling, BinSem.debt] at hdebt
  cases hp : s.lock.pending with
  | false => rfl
  | true =>
      have hdue := due_le s.lock.value
      rw [hp, Bool.toNat_true] at hdebt
      omega

/-- The counter is one at most. -/
theorem value_le (h : Inv allow max s) :
  s.lock.value ≤ 1
  := by
  have hsum : 0 ≤ ∑ i, (s.thread i).weight :=
    Finset.sum_nonneg (fun i _ => (h.ok i).weight_nonneg)
  rw [h.value]
  omega

/-- The counter does not fall further than there are threads. -/
theorem le_value (h : Inv allow max s) :
  - (Fintype.card ι : ℤ) ≤ s.lock.value
  := by
  have hle : ∑ i, (s.thread i).weight ≤ ∑ i, ((s.thread i).token + 1) :=
    Finset.sum_le_sum (fun i _ => Thread.weight_le _)
  have htoken := h.sum_token_le
  rw [Finset.sum_add_distrib, Finset.sum_const, Finset.card_univ] at hle
  rw [h.value]
  simp only [nsmul_eq_mul, mul_one] at hle
  omega

/-- One thread at most holds the lock. -/
theorem exclusion [DecidableEq ι] (h : Inv allow max s) {i j : ι} (hi : (s.thread i).Holds)
    (hj : (s.thread j).Holds) :
  i = j
  := by
  by_contra hij
  have hsub : ∑ k ∈ {i, j}, (s.thread k).token ≤ ∑ k, (s.thread k).token :=
    Finset.sum_le_sum_of_subset_of_nonneg (Finset.subset_univ _)
      (fun k _ _ => (h.ok k).token_nonneg)
  have hle := h.sum_token_le
  have hi := Thread.Ok.token_pos hi
  have hj := Thread.Ok.token_pos hj
  rw [Finset.sum_pair hij] at hsub
  omega

/-- A holder has the counter below one. -/
theorem value_le_of_holds (h : Inv allow max s) {i : ι} (hi : (s.thread i).Holds) :
  s.lock.value ≤ 0
  := by
  have hsub : (s.thread i).weight ≤ ∑ k, (s.thread k).weight :=
    Finset.single_le_sum (fun k _ => (h.ok k).weight_nonneg) (Finset.mem_univ i)
  have hpos : 1 ≤ (s.thread i).weight := by
    unfold Thread.Holds at hi
    unfold Thread.weight
    cases (s.thread i).control <;> simp only [Control.waiting] <;> omega
  rw [h.value]
  omega

/-- The increment does not overflow while the lock is held. -/
theorem increment (h : Inv allow max s) {i : ι} (hcard : Fintype.card ι < 2 ^ 31)
    (hi : (s.thread i).Holds) :
  s.lock.syncAtomicIncrement.value = s.lock.value + 1
  := by
  have hvalue := h.value_le_of_holds hi
  have hlow := h.le_value
  apply Int.bmod_eq_of_le_mul_two
  · omega
  · omega

/-- The counter does not come to its end. -/
theorem value_ne_intMin (h : Inv allow max s) (hcard : Fintype.card ι < 2 ^ 31) :
  s.lock.value ≠ intMin
  := by
  have hlow := h.le_value
  simp only [intMin]
  omega

/-- A thread that is about to give the lock back holds it. -/
theorem unlocking (h : Inv allow max s) {i : ι} (hcard : Fintype.card ι < 2 ^ 31)
    {k : ℤ → Prog (LockSig S) α}
    (hc : (s.thread i).control = .run (.call (S := LockSig S) .unlock k)) :
  ∃ d, (s.thread i).acquired = (s.thread i).released + 1 + d
    ∧ (∀ x, Balanced (allow (s.thread i).op) max d (k x))
    ∧ s.lock.value ≤ 0 ∧ s.lock.syncAtomicIncrement.value = s.lock.value + 1
  := by
  obtain ⟨d, hd, hok⟩ := h.ok i
  rw [hc] at hok
  obtain ⟨hpos, hok⟩ := hok
  have hholds : (s.thread i).Holds := by
    simp only [Thread.Holds]
    omega
  exact ⟨d - 1, by omega, hok, h.value_le_of_holds hholds, h.increment hcard hholds⟩

/-- Between two operations a thread has given the lock back as often as it has taken
it. -/
theorem idle (h : Inv allow max s) {i : ι} (hc : (s.thread i).control = .idle) :
  (s.thread i).released = (s.thread i).acquired
  := by
  obtain ⟨d, hd, hok⟩ := h.ok i
  rw [hc] at hok
  obtain rfl : d = 0 := hok
  rw [hd, Nat.add_zero]

/-- A thread whose program has returned has given the lock back as often as it has taken
it. -/
theorem ret (h : Inv allow max s) {i : ι} {a : α}
    (hc : (s.thread i).control = .run (.ret a)) :
  (s.thread i).released = (s.thread i).acquired
  := by
  obtain ⟨d, hd, hok⟩ := h.ok i
  rw [hc] at hok
  obtain rfl : d = 0 := hok
  rw [hd, Nat.add_zero]

/-- Where programs hold the lock once at most, a holder is about to make a call other than
for the lock. -/
theorem holder (h : Inv allow 1 s) {i : ι} (hi : (s.thread i).Holds) :
  ∃ c k, (s.thread i).control = .run (.call c k) ∧ c ≠ .lock
  := by
  obtain ⟨d, hd, hok⟩ := h.ok i
  have hpos : 0 < d := by
    simp only [Thread.Holds] at hi
    omega
  cases hc : (s.thread i).control with
  | idle =>
      rw [hc] at hok
      obtain rfl : d = 0 := hok
      omega
  | run p =>
      rw [hc] at hok
      cases p with
      | ret a =>
          obtain rfl : d = 0 := hok
          omega
      | fail => exact absurd hok id
      | call c k =>
          use c, k, rfl
          rintro rfl
          have hlt : d < 1 := hok.1
          omega
  | read k | exchange _ k | wait k | blocked k =>
      rw [hc] at hok
      have hlt : d < 1 := hok.1
      omega
  | signal k =>
      -- the lock and the signal would be two tokens
      have hdebt := h.token_add_debt_le i
      have hdue := due_le s.lock.value
      simp only [Thread.token, hc, Control.signalling, BinSem.debt] at hdebt
      omega

/-- Where programs hold the lock once at most, a holder does not wait for it. -/
theorem not_waits (h : Inv allow 1 s) {i : ι} (hi : (s.thread i).Holds) :
  ¬ (s.thread i).Waits
  := by
  obtain ⟨c, k, hc, -⟩ := h.holder hi
  simp only [Thread.Waits, hc, not_false_iff]

end Inv

/-! ### Steps -/

variable [DecidableEq ι]

/-- A sum over the threads when one of them changes. -/
theorem sum_update {τ : Type} (w : τ → ℤ) (f : ι → τ) (i : ι) (t : τ) :
  ∑ j, w (Function.update f i t j) = ∑ j, w (f j) - w (f i) + w t
  := by
  rw [← Finset.add_sum_erase Finset.univ (fun j => w (f j)) (Finset.mem_univ i),
    ← Finset.add_sum_erase Finset.univ (fun j => w (Function.update f i t j)) (Finset.mem_univ i)]
  have herase : ∀ j ∈ Finset.univ.erase i, w (Function.update f i t j) = w (f j) := by
    intro j hj
    rw [Function.update_of_ne (Finset.ne_of_mem_erase hj)]
  rw [Finset.sum_congr rfl herase]
  simp only [Function.update_self]
  omega

/-- The invariant is kept by a change of one thread and of the lock that balance. -/
theorem Inv.set (h : Inv allow max s) (i : ι) {t : Thread S Ω α} {b : BinSem} {shared : σ}
    (hok : t.Ok allow max)
    (hvalue : b.value + t.weight = s.lock.value + (s.thread i).weight)
    (htoken : t.token + b.debt = (s.thread i).token + s.lock.debt) :
  Inv allow max (State.set ⟨shared, b, s.thread⟩ i t)
  := by
  obtain ⟨hoks, hvalues, htokens⟩ := h
  constructor
  · exact State.forall_set (P := fun _ t => t.Ok allow max) hok fun j _ => hoks j
  · simp only [State.set]
    rw [sum_update Thread.weight]
    omega
  · simp only [State.set]
    rw [sum_update Thread.token]
    omega

/-- The invariant is kept by a thread that goes on without touching the lock. -/
theorem Inv.goto (h : Inv allow max s) {i : ι} {c c' : Control S α} {shared : σ}
    (hc : (s.thread i).control = c) (hwaiting : c'.waiting = c.waiting)
    (hsignalling : c'.signalling = c.signalling)
    (hok : ∀ d, c.Ok (allow (s.thread i).op) max d → c'.Ok (allow (s.thread i).op) max d) :
  Inv allow max (State.set ⟨shared, s.lock, s.thread⟩ i ((s.thread i).goto c'))
  := by
  obtain ⟨d, hd, hold⟩ := h.ok i
  rw [hc] at hold
  apply h.set
  · exact ⟨d, hd, hok d hold⟩
  · simp only [Thread.weight, Thread.goto, hc, hwaiting]
  · simp only [Thread.token, Thread.goto, hc, hsignalling]

/-- A step meets the condition `allow` when the action that it ends, if any, answers the
thread as allowed. -/
def Meets (sys : System S σ Ω ε α) (allow : Option Ω → (c : S.Call) → S.Answer c → Prop)
    (s : State S σ Ω α ι) (m : Move Ω ε ι) : Prop :=
  ∀ i fuel c k x shared, m = .go i fuel → (s.thread i).control = .run (.call (.act c) k) →
    sys.acts c s.shared fuel = some (x, shared) → allow (s.thread i).op c x

variable {sys : System S σ Ω ε α}

/-- Giving the lock back to a thread that waits keeps the invariant. -/
theorem Inv.post (h : Inv allow max s) {i : ι} (hcard : Fintype.card ι < 2 ^ 31)
    {k : ℤ → Prog (LockSig S) α}
    (hc : (s.thread i).control = .run (.call (S := LockSig S) .unlock k))
    (hle : s.lock.syncAtomicIncrement.value ≤ 0) :
  Inv allow max (State.set ⟨s.shared, s.lock.syncAtomicIncrement, s.thread⟩ i
    ({ s.thread i with released := (s.thread i).released + 1 }.goto (.signal k)))
  := by
  obtain ⟨d, hd, hok, hvalue, hinc⟩ := h.unlocking hcard hc
  have hpending : s.lock.syncAtomicIncrement.pending = s.lock.pending := rfl
  apply h.set
  · exact ⟨d, hd, hok⟩
  · simp only [Thread.weight, Thread.goto, hc, Control.waiting, hinc]
    omega
  · simp only [Thread.token, Thread.goto, hc, Control.signalling, BinSem.debt, hpending]
    rw [due_of_le hle, due_of_le hvalue]
    omega

/-- Giving the lock back keeps the invariant. -/
theorem Inv.unlock (h : Inv allow max s) {i : ι} (hcard : Fintype.card ι < 2 ^ 31)
    {k : ℤ → Prog (LockSig S) α}
    (hc : (s.thread i).control = .run (.call (S := LockSig S) .unlock k))
    (hpos : 0 < s.lock.syncAtomicIncrement.value) :
  Inv allow max (State.set ⟨s.shared, s.lock.syncAtomicIncrement, s.thread⟩ i
    ({ s.thread i with released := (s.thread i).released + 1 }.goto (.run (k 0))))
  := by
  obtain ⟨d, hd, hok, hvalue, hinc⟩ := h.unlocking hcard hc
  have hpending : s.lock.syncAtomicIncrement.pending = s.lock.pending := rfl
  apply h.set
  · exact ⟨d, hd, hok 0⟩
  · simp only [Thread.weight, Thread.goto, hc, Control.waiting, hinc]
    omega
  · simp only [Thread.token, Thread.goto, hc, Control.signalling, BinSem.debt, hpending]
    rw [due_of_not_le (not_le.mpr hpos), due_of_le hvalue]
    omega

/-- The exchange of a thread that has to wait keeps the invariant. -/
theorem Inv.wait (h : Inv allow max s) {i : ι} {k : ℤ → Prog (LockSig S) α}
    (hc : (s.thread i).control = .exchange s.lock.value k) (hwait : s.lock.value ≤ 0) :
  Inv allow max (State.set ⟨s.shared, s.lock.decrement, s.thread⟩ i
    ((s.thread i).goto (.wait k)))
  := by
  obtain ⟨d, hd, hok⟩ := h.ok i
  rw [hc] at hok
  have hzero : s.lock.value - 1 ≤ 0 := by omega
  apply h.set
  · exact ⟨d, hd, hok⟩
  · simp only [Thread.weight, Thread.goto, hc, Control.waiting, BinSem.decrement]
    omega
  · simp only [Thread.token, Thread.goto, hc, Control.signalling, BinSem.debt, BinSem.decrement]
    rw [due_of_le hwait, due_of_le hzero]

/-- The exchange of a thread that finds the lock free keeps the invariant. -/
theorem Inv.acquire (h : Inv allow max s) {i : ι} {k : ℤ → Prog (LockSig S) α}
    (hc : (s.thread i).control = .exchange s.lock.value k) (hfree : 0 < s.lock.value) :
  Inv allow max (State.set ⟨s.shared, s.lock.decrement, s.thread⟩ i
    ((s.thread i).locked (k 0)))
  := by
  obtain ⟨d, hd, hok⟩ := h.ok i
  rw [hc] at hok
  have hzero : s.lock.value - 1 ≤ 0 := by
    have hle := h.value_le
    omega
  apply h.set
  · exact ⟨d + 1, by simp only [Thread.locked]; omega, hok.2 0⟩
  · simp only [Thread.weight, Thread.locked, hc, Control.waiting, BinSem.decrement]
    omega
  · simp only [Thread.token, Thread.locked, hc, Control.signalling, BinSem.debt,
      BinSem.decrement]
    rw [due_of_not_le (not_le.mpr hfree), due_of_le hzero]
    omega

/-- A thread that finds a pending signal keeps the invariant. -/
theorem Inv.consume (h : Inv allow max s) {i : ι} {k : ℤ → Prog (LockSig S) α}
    (hc : (s.thread i).control = .wait k) (hpending : s.lock.pending = true) :
  Inv allow max (State.set ⟨s.shared, s.lock.consume, s.thread⟩ i ((s.thread i).locked (k 0)))
  := by
  obtain ⟨d, hd, hok⟩ := h.ok i
  rw [hc] at hok
  apply h.set
  · exact ⟨d + 1, by simp only [Thread.locked]; omega, hok.2 0⟩
  · simp only [Thread.weight, Thread.locked, hc, Control.waiting, BinSem.consume]
    omega
  · simp only [Thread.token, Thread.locked, hc, Control.signalling, BinSem.debt, BinSem.consume,
      hpending]
    rw [Bool.toNat_true, Bool.toNat_false]
    omega

/-- A signal that nobody waits for keeps the invariant. -/
theorem Inv.remember (h : Inv allow max s) {i : ι} {k : ℤ → Prog (LockSig S) α}
    (hc : (s.thread i).control = .signal k) :
  Inv allow max (State.set ⟨s.shared, s.lock.remember, s.thread⟩ i
    ((s.thread i).goto (.run (k 0))))
  := by
  obtain ⟨d, hd, hok⟩ := h.ok i
  rw [hc] at hok
  have hpending := h.not_pending hc
  apply h.set
  · exact ⟨d, hd, hok 0⟩
  · simp only [Thread.weight, Thread.goto, hc, Control.waiting, BinSem.remember]
  · simp only [Thread.token, Thread.goto, hc, Control.signalling, BinSem.debt, BinSem.remember,
      hpending]
    rw [Bool.toNat_true, Bool.toNat_false]
    omega

/-- A signal that wakes a thread keeps the invariant. -/
theorem Inv.wake (h : Inv allow max s) {i j : ι} {k k' : ℤ → Prog (LockSig S) α}
    (hi : (s.thread i).control = .signal k) (hj : (s.thread j).control = .blocked k') :
  Inv allow max ((s.set i ((s.thread i).goto (.run (k 0)))).set j ((s.thread j).locked (k' 0)))
  := by
  have hne : j ≠ i := by
    rintro rfl
    rw [hi] at hj
    cases hj
  obtain ⟨hoks, hvalue, htoken⟩ := h
  have hjth : (Function.update s.thread i ((s.thread i).goto (.run (k 0)))) j = s.thread j :=
    Function.update_of_ne hne _ _
  constructor
  · apply State.forall_set (P := fun _ t => t.Ok allow max)
    · obtain ⟨d, hd, hok⟩ := hoks j
      rw [hj] at hok
      exact ⟨d + 1, by simp only [Thread.locked]; omega, hok.2 0⟩
    · intro l _
      apply State.forall_set (P := fun _ t => t.Ok allow max) _ fun l _ => hoks l
      obtain ⟨d, hd, hok⟩ := hoks i
      rw [hi] at hok
      exact ⟨d, hd, hok 0⟩
  · simp only [State.set]
    rw [sum_update Thread.weight, sum_update Thread.weight, hjth]
    simp only [Thread.weight, Thread.goto, Thread.locked, hi, hj, Control.waiting] at hvalue ⊢
    omega
  · simp only [State.set]
    rw [sum_update Thread.token, sum_update Thread.token, hjth]
    simp only [Thread.token, Thread.goto, Thread.locked, hi, hj, Control.signalling] at htoken ⊢
    omega

/-- A step of a thread that does not act keeps the invariant. -/
theorem Inv.goes (h : Inv allow max s) {i : ι} (hcard : Fintype.card ι < 2 ^ 31) {b : BinSem}
    {t : Thread S Ω α} (hgoes : (s.thread i).Goes s b t) :
  Inv allow max (State.set ⟨s.shared, b, s.thread⟩ i t)
  := by
  cases hgoes with
  | ret hc | lock hc | read hc | retry hc | block hc _ =>
      apply h.goto hc
      · rfl
      · rfl
      · exact fun d hd => hd
  | post hc hle => apply h.post hcard hc hle
  | unlock hc hpos => apply h.unlock hcard hc hpos
  | overflow hc hmin => exact absurd hmin (h.value_ne_intMin hcard)
  | wait hc hwait => apply h.wait hc hwait
  | acquire hc hfree => apply h.acquire hc hfree
  | consume hc hpending => apply h.consume hc hpending
  | remember hc _ => apply h.remember hc

/-- A step that meets the condition keeps the invariant. -/
theorem Inv.next (h : Inv allow max s) {m : Move Ω ε ι} (hcard : Fintype.card ι < 2 ^ 31)
    (hprog : ∀ op, Balanced (allow (some op)) max 0 (sys.prog op))
    (hmeets : Meets sys allow s m) (hnext : sys.next s m = some s') :
  Inv allow max s'
  := by
  cases sys.step hnext with
  | @start i op hc =>
      obtain ⟨d, hd, hok⟩ := h.ok i
      rw [hc] at hok
      obtain rfl : d = 0 := hok
      apply h.set
      · exact ⟨0, hd, hprog op⟩
      · simp only [Thread.weight, hc, Control.waiting]
      · simp only [Thread.token, hc, Control.signalling]
  | go hgoes => apply h.goes hcard hgoes
  | @act i fuel c k x shared hc hact =>
      apply h.goto hc
      · rfl
      · rfl
      · intro d hd
        apply hd x (hmeets i fuel c k x shared rfl hc hact)
  | stay hc hact => exact h
  | spurious hc => apply h.goes hcard (.retry hc)
  | wake hi hj => apply h.wake hi hj
  | env => exact ⟨h.ok, h.value, h.token⟩

/-- The invariant holds in every state reached by steps that meet the condition. -/
theorem Inv.reaches {C : State S σ Ω α ι → Move Ω ε ι → Prop}
    (hcard : Fintype.card ι < 2 ^ 31)
    (hprog : ∀ op, Balanced (allow (some op)) max 0 (sys.prog op))
    (hC : ∀ s m, C s m → Meets sys allow s m) {s₀ : State S σ Ω α ι} (h₀ : Inv allow max s₀)
    (h : sys.Reaches C s₀ s) :
  Inv allow max s
  := by
  induction h with
  | refl => exact h₀
  | step hreach hm hnext ih => apply ih.next hcard hprog (hC _ _ hm) hnext

/-- Where programs hold the lock once at most, a holder can make its next step. -/
theorem Inv.progress (h : Inv allow 1 s) {i : ι} (hi : (s.thread i).Holds)
    (sys : System S σ Ω ε α) (fuel : ℕ) :
  ∃ s', sys.next s (.go i fuel) = some s'
  := by
  obtain ⟨c, k, hc, hlock⟩ := h.holder hi
  simp only [System.next, System.go, hc]
  cases c with
  | lock => exact absurd rfl hlock
  | unlock => exact ⟨_, rfl⟩
  | act c =>
      simp only [System.call]
      cases sys.acts c s.shared fuel with
      | none => exact ⟨_, rfl⟩
      | some r => exact ⟨_, rfl⟩

end Sync
