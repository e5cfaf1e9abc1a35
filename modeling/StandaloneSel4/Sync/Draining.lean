import StandaloneSel4.Sync.Exclusion

/-!
# Draining

Programs that hold the lock once at most, and whose actions come back, do not wait for each other
for ever: whatever state the threads have come to, they can go on until all of them have returned.
No signal is lost, since one is remembered only when nobody waits. So not all threads wait: when one
does, some other holds the lock or is about to signal. And a thread that goes on has less to do than
before.
-/

namespace Sync

open Prog

variable {S : Signature} {σ Ω ε ι α : Type}

/-! ### What is left to do -/

/-- The program makes so many calls at most. -/
def Depth : ℕ → Prog (LockSig S) α → Prop
  | _, .ret _ => True
  | _, .fail => True
  | 0, .call _ _ => False
  | n + 1, .call _ k => ∀ x, Depth n (k x)

/-- A thread that is there has so many steps at most to make. -/
def Control.Left (N : ℕ) : Control S α → Prop
  | .idle => True
  | .run p => ∃ n, Depth n p ∧ 6 * n + 1 ≤ N
  | .read k => ∃ n, (∀ x, Depth n (k x)) ∧ 6 * n + 6 ≤ N
  | .exchange _ k => ∃ n, (∀ x, Depth n (k x)) ∧ 6 * n + 5 ≤ N
  | .wait k => ∃ n, (∀ x, Depth n (k x)) ∧ 6 * n + 4 ≤ N
  | .blocked k => ∃ n, (∀ x, Depth n (k x)) ∧ 6 * n + 3 ≤ N
  | .signal k => ∃ n, (∀ x, Depth n (k x)) ∧ 6 * n + 2 ≤ N

/-- The actions that the threads are about to make come back. -/
def System.Returning (sys : System S σ Ω ε α) (s : State S σ Ω α ι) : Prop :=
  ∀ i c k, (s.thread i).control = .run (.call (.act c) k) →
    ∃ fuel r, sys.acts c s.shared fuel = some r

/-- When a signal is pending nobody waits for one, and every thread has so much to do at most. -/
structure Draining (s : State S σ Ω α ι) : Prop where
  noLost : s.lock.pending = true → ∀ j, ¬ (s.thread j).Blocked
  left : ∀ i, ∃ N, (s.thread i).control.Left N

/-- The move is made by threads that go on with their operations. -/
def Move.Inner : Move Ω ε ι → Prop
  | .go _ _ | .wake _ _ => True
  | _ => False

theorem Depth.call {n : ℕ} {c : LockCall S} {k : (LockSig S).Answer c → Prog (LockSig S) α}
    (h : Depth n (.call c k)) :
  ∃ m, n = m + 1 ∧ ∀ x, Depth m (k x)
  := by
  cases n with
  | zero => exact absurd h id
  | succ n => exact ⟨n, rfl, h⟩

/-- A thread that makes a step of the lock's functions, or returns, has an end before it if it had
one. -/
theorem Thread.Goes.left {s : State S σ Ω α ι} {t t' : Thread S Ω α} {b : BinSem}
    (hgoes : t.Goes s b t') (h : ∃ N, t.control.Left N) :
  ∃ N, t'.control.Left N
  := by
  obtain ⟨N, hN⟩ := h
  cases hgoes with
  | ret hc => exact ⟨0, trivial⟩
  | lock hc | post hc _ =>
      rw [hc] at hN
      obtain ⟨n, hn, -⟩ := hN
      obtain ⟨m, -, hm⟩ := hn.call
      exact ⟨_, m, hm, Nat.le_refl _⟩
  | unlock hc _ =>
      rw [hc] at hN
      obtain ⟨n, hn, -⟩ := hN
      obtain ⟨m, -, hm⟩ := hn.call
      exact ⟨_, m, hm 0, Nat.le_refl _⟩
  | overflow hc _ =>
      rw [hc] at hN
      obtain ⟨n, hn, -⟩ := hN
      exact ⟨_, n, hn (-1), Nat.le_refl _⟩
  | read hc | wait hc _ | retry hc | block hc _ =>
      rw [hc] at hN
      obtain ⟨n, hn, -⟩ := hN
      exact ⟨_, n, hn, Nat.le_refl _⟩
  | acquire hc _ | consume hc _ | remember hc _ =>
      rw [hc] at hN
      obtain ⟨n, hn, -⟩ := hN
      exact ⟨_, n, hn 0, Nat.le_refl _⟩

theorem Draining.start (shared : σ) (notification : ℕ) :
  Draining (State.start shared ⟨notification, 1, false⟩ : State S σ Ω α ι)
  where
  noLost := nofun
  left _ := ⟨0, trivial⟩

/-! ### Not all threads wait -/

section

variable [Fintype ι] {allow : Option Ω → (c : S.Call) → S.Answer c → Prop} {s : State S σ Ω α ι}

/-- While a thread waits for the signal and none is pending, there is a token. -/
theorem Inv.exists_token {max : ℕ} (h : Inv allow max s) (hpending : s.lock.pending = false)
    {i : ι} (hi : (s.thread i).Blocked) :
  ∃ j, 0 < (s.thread j).token
  := by
  have hweight : 1 ≤ (s.thread i).weight := by
    obtain ⟨d, hd, -⟩ := h.ok i
    revert hi
    unfold Thread.Blocked Thread.weight
    cases (s.thread i).control <;> simp only [Control.waiting, false_imp_iff, true_imp_iff]
    omega
  have hsum : (s.thread i).weight ≤ ∑ j, (s.thread j).weight :=
    Finset.single_le_sum (fun j _ => (h.ok j).weight_nonneg) (Finset.mem_univ i)
  have hvalue := h.value
  have htoken := h.token
  rw [BinSem.debt, hpending, Bool.toNat_false, due_of_le (by omega)] at htoken
  by_contra hnone
  have hle : ∑ j, (s.thread j).token ≤ 0 :=
    Finset.sum_nonpos fun j _ => not_lt.mp fun hj => hnone ⟨j, hj⟩
  omega

/-- Where programs hold the lock once at most, while a thread is in an operation some thread can go
on. -/
theorem Draining.exists_runnable (h : Draining s) (hinv : Inv allow 1 s) {i : ι}
    (hi : (s.thread i).control ≠ .idle) :
  ∃ j, (s.thread j).control ≠ .idle ∧ ¬ (s.thread j).Blocked
  := by
  by_cases hblocked : (s.thread i).Blocked
  · have hpending : s.lock.pending = false := by
      by_contra hpending
      exact h.noLost (Bool.of_not_eq_false hpending) i hblocked
    obtain ⟨j, hj⟩ := hinv.exists_token hpending hblocked
    use j
    by_cases hholds : (s.thread j).Holds
    · obtain ⟨c, k, hc, -⟩ := hinv.holder hholds
      rw [Thread.Blocked, hc]
      exact ⟨nofun, id⟩
    · -- the token is with the signal
      revert hj
      unfold Thread.Holds at hholds
      unfold Thread.token Thread.Blocked
      cases (s.thread j).control with
      | signal k => exact fun _ => ⟨nofun, id⟩
      | idle | run p | read k | exchange oldval k | wait k | blocked k =>
          simp only [Control.signalling]
          omega
  · exact ⟨i, hi, hblocked⟩

end

/-! ### No signal is lost -/

variable [DecidableEq ι]

namespace Draining

variable {sys : System S σ Ω ε α} {s s' : State S σ Ω α ι} {i : ι} {fuel : ℕ}

/-- A thread, and the lock, can change if nobody is blocked behind a pending signal. -/
theorem set (h : Draining s) {t : Thread S Ω α} {b : BinSem} {shared : σ}
    (hleft : ∃ N, t.control.Left N) (hblocked : b.pending = true → ¬ t.Blocked)
    (hothers : b.pending = true → ∀ j, ¬ (s.thread j).Blocked) :
  Draining (State.set ⟨shared, b, s.thread⟩ i t)
  where
  noLost hp := State.forall_set (P := fun _ t => ¬ t.Blocked) (hblocked hp)
    fun j _ => hothers hp j
  left := State.forall_set (P := fun _ t => ∃ N, t.control.Left N) hleft fun j _ => h.left j

/-- A thread that is not blocked afterwards goes on. -/
theorem goto (h : Draining s) {t : Thread S Ω α} {shared : σ} (hleft : ∃ N, t.control.Left N)
    (hblocked : ¬ t.Blocked) :
  Draining (State.set ⟨shared, s.lock, s.thread⟩ i t)
  := h.set hleft (fun _ => hblocked) h.noLost

/-- A step of the thread that does not act keeps it so. -/
theorem goes (h : Draining s) {b : BinSem} {t : Thread S Ω α} (hgoes : (s.thread i).Goes s b t) :
  Draining (State.set ⟨s.shared, b, s.thread⟩ i t)
  := by
  have hleft := hgoes.left (h.left i)
  cases hgoes with
  | ret hc | lock hc | post hc _ | unlock hc _ | overflow hc _ | read hc | wait hc _ | acquire hc _
  | retry hc => exact h.set hleft (fun _ => id) h.noLost
  | consume hc _ => exact h.set hleft (fun _ => id) fun hp => absurd hp Bool.false_ne_true
  | block hc hpending =>
      exact h.set hleft (fun hp => absurd hp (Bool.eq_false_iff.mp hpending)) h.noLost
  | remember hc hnobody => exact h.set hleft (fun _ => id) fun _ => hnobody

variable [Fintype ι]

/-- Every move keeps it so. -/
theorem next (h : Draining s) {m : Move Ω ε ι} (hprog : ∀ op, ∃ n, Depth n (sys.prog op))
    (hnext : sys.next s m = some s') :
  Draining s'
  := by
  cases sys.step hnext with
  | @start i op hc =>
      obtain ⟨n, hn⟩ := hprog op
      exact h.goto ⟨_, n, hn, Nat.le_refl _⟩ id
  | go hgoes => exact h.goes hgoes
  | @act i _ _ _ x _ hc hact =>
      obtain ⟨N, hN⟩ := h.left i
      rw [hc] at hN
      obtain ⟨n, hn, -⟩ := hN
      obtain ⟨m, -, hm⟩ := hn.call
      exact h.goto ⟨_, m, hm x, Nat.le_refl _⟩ id
  | stay hc hact => exact h
  | spurious hc => exact h.goes (.retry hc)
  | @wake i j k k' hi hj =>
      obtain ⟨N, hN⟩ := h.left i
      obtain ⟨N', hN'⟩ := h.left j
      rw [hi] at hN
      rw [hj] at hN'
      obtain ⟨n, hn, -⟩ := hN
      obtain ⟨n', hn', -⟩ := hN'
      have hsignalled : Draining (s.set i ((s.thread i).goto (.run (k 0)))) :=
        h.goto ⟨_, n, hn 0, Nat.le_refl _⟩ id
      exact hsignalled.goto ⟨_, n', hn' 0, Nat.le_refl _⟩ id
  | env => exact ⟨h.noLost, h.left⟩

end Draining

/-! ### All threads return -/

/-- Threads go on, and are given no new operation, from the one state to the other. -/
def System.Advances [Fintype ι] (sys : System S σ Ω ε α) :
    State S σ Ω α ι → State S σ Ω α ι → Prop :=
  sys.Reaches fun _ m => m.Inner

/-- The thread `i` can go on until it has less than `N` steps to make, and the others no more than
before. -/
def System.Lowers [Fintype ι] (sys : System S σ Ω ε α) (i : ι) (N : ℕ)
    (s : State S σ Ω α ι) : Prop :=
  ∃ s', sys.Advances s s' ∧ (∃ M < N, (s'.thread i).control.Left M)
    ∧ ∀ j ≠ i, ∀ K, (s.thread j).control.Left K → (s'.thread j).control.Left K

namespace System

variable [Fintype ι] {sys : System S σ Ω ε α} {s s' : State S σ Ω α ι} {i : ι}
  {N : ℕ} {t : Thread S Ω α} {shared : σ} {b : BinSem}

section

variable {C : State S σ Ω α ι → Move Ω ε ι → Prop}

theorem Reaches.trans {s'' : State S σ Ω α ι} (h : sys.Reaches C s s')
    (h' : sys.Reaches C s' s'') :
  sys.Reaches C s s''
  := by
  induction h' with
  | refl => exact h
  | step _ hC hnext ih => exact ih.step hC hnext

theorem Reaches.invariant {I : State S σ Ω α ι → Prop} (h : sys.Reaches C s s')
    (hI : ∀ s m s', I s → C s m → sys.next s m = some s' → I s') (hs : I s) :
  I s'
  := by
  induction h with
  | refl => exact hs
  | step _ hC hnext ih => exact hI _ _ _ ih hC hnext

end

/-- A step of the thread leaves it less. -/
theorem Lowers.go {fuel M : ℕ} (hgo : sys.go i fuel s = some (State.set ⟨shared, b, s.thread⟩ i t))
    (hM : M < N) (hleft : t.control.Left M) :
  sys.Lowers i N s
  := by
  use State.set ⟨shared, b, s.thread⟩ i t, Reaches.refl.step (m := .go i fuel) trivial hgo
  constructor
  · rw [State.set_thread]
    exact ⟨M, hM, hleft⟩
  · intro j hj K hK
    rw [State.set_thread_of_ne _ hj]
    exact hK

/-- A step of the thread leads to where it can go on until it has less. -/
theorem Lowers.after {fuel : ℕ} (hgo : sys.go i fuel s = some (s.set i t))
    (h : sys.Lowers i N (s.set i t)) :
  sys.Lowers i N s
  := by
  obtain ⟨s', hreach, hleft, hothers⟩ := h
  use s'
  have hfirst : sys.Advances s (s.set i t) :=
    Reaches.refl.step (m := .go i fuel) trivial hgo
  refine ⟨hfirst.trans hreach, hleft, ?_⟩
  intro j hj K hK
  apply hothers j hj
  rw [State.set_thread_of_ne _ hj]
  exact hK

/-- The exchange is made when the counter is as it was read. -/
theorem lowers_exchange {k : ℤ → Prog (LockSig S) α}
    (hc : (s.thread i).control = .exchange s.lock.value k) {n : ℕ} (hn : ∀ x, Depth n (k x))
    (hN : 6 * n + 5 ≤ N) :
  sys.Lowers i N s
  := by
  have hgo : sys.go i 0 s = some (State.set ⟨s.shared, s.lock.decrement, s.thread⟩ i
      (if s.lock.value ≤ 0 then (s.thread i).goto (.wait k) else (s.thread i).locked (k 0))) := by
    simp only [System.go, hc, if_pos]
  apply Lowers.go hgo (M := 6 * n + 4) (by omega)
  split
  · exact ⟨n, hn, le_rfl⟩
  · exact ⟨n, hn 0, by omega⟩

theorem lowers_read {k : ℤ → Prog (LockSig S) α} (hc : (s.thread i).control = .read k) {n : ℕ}
    (hn : ∀ x, Depth n (k x)) (hN : 6 * n + 5 ≤ N) :
  sys.Lowers i N s
  := by
  by_cases hmin : s.lock.value = intMin
  · have hgo : sys.go i 0 s = some (s.set i ((s.thread i).locked (k (-1)))) := by
      simp only [System.go, hc, if_pos hmin]
    exact Lowers.go (M := 6 * n + 1) hgo (by omega) ⟨n, hn _, le_rfl⟩
  · have hgo : sys.go i 0 s
        = some (s.set i ((s.thread i).goto (.exchange s.lock.value k))) := by
      simp only [System.go, hc, if_neg hmin]
    apply Lowers.after hgo
    apply lowers_exchange (k := k) _ hn hN
    rw [State.set_thread]
    rfl

/-- A thread that signals wakes another, or leaves the signal. -/
theorem lowers_signal {k : ℤ → Prog (LockSig S) α} (hc : (s.thread i).control = .signal k) {n : ℕ}
    (hn : ∀ x, Depth n (k x)) (hN : 6 * n + 2 ≤ N) :
  sys.Lowers i N s
  := by
  by_cases hj : ∃ j, (s.thread j).Blocked
  · obtain ⟨j, hj⟩ := hj
    obtain ⟨k', hk'⟩ : ∃ k', (s.thread j).control = .blocked k' := by
      revert hj
      unfold Thread.Blocked
      cases (s.thread j).control <;> simp
    have hne : i ≠ j := by
      rintro rfl
      rw [hc] at hk'
      cases hk'
    have hwake : sys.next s (.wake i j) = some
        ((s.set i ((s.thread i).goto (.run (k 0)))).set j ((s.thread j).locked (k' 0))) := by
      simp only [System.next, hc, hk']
    refine ⟨_, Reaches.refl.step (m := .wake i j) trivial hwake, ?_, ?_⟩
    · rw [State.set_thread_of_ne _ hne, State.set_thread]
      exact ⟨6 * n + 1, by omega, n, hn 0, le_rfl⟩
    · intro l hl K hK
      by_cases hlj : l = j
      · subst hlj
        rw [hk'] at hK
        obtain ⟨m, hm, hle⟩ := hK
        rw [State.set_thread]
        exact ⟨m, hm 0, by omega⟩
      · rw [State.set_thread_of_ne _ hlj, State.set_thread_of_ne _ hl]
        exact hK
  · have hgo : sys.go i 0 s = some (State.set ⟨s.shared, s.lock.remember, s.thread⟩ i
        ((s.thread i).goto (.run (k 0)))) := by
      simp only [System.go, hc, if_neg hj]
    exact Lowers.go (M := 6 * n + 1) hgo (by omega) ⟨n, hn 0, le_rfl⟩

/-- A thread that is about to make a call, or to return, makes it. -/
theorem lowers_run {allow : Option Ω → (c : S.Call) → S.Answer c → Prop} {max : ℕ}
    {p : Prog (LockSig S) α} (hc : (s.thread i).control = .run p) (hinv : Inv allow max s)
    (hreturning : sys.Returning s) {n : ℕ} (hn : Depth n p) (hN : 6 * n + 1 ≤ N) :
  sys.Lowers i N s
  := by
  have hgo (fuel : ℕ) : sys.go i fuel s = sys.call i fuel s p := by
    simp only [System.go, hc]
  cases p with
  | ret a =>
      have hcall : sys.call i 0 s (.ret a) = some (s.set i ((s.thread i).goto .idle)) := rfl
      exact Lowers.go (M := 0) ((hgo 0).trans hcall) (by omega) trivial
  | fail =>
      obtain ⟨d, -, hok⟩ := hinv.ok i
      rw [hc] at hok
      exact absurd hok id
  | call c k =>
      obtain ⟨m, rfl, hm⟩ := hn.call
      cases c with
      | lock =>
          have hcall : sys.call i 0 s (.call (S := LockSig S) .lock k)
              = some (s.set i ((s.thread i).goto (.read k))) := rfl
          exact Lowers.go (M := 6 * m + 6) ((hgo 0).trans hcall) (by omega) ⟨m, hm, le_rfl⟩
      | unlock =>
          apply Lowers.go (M := 6 * m + 2) (hgo 0) (by omega)
          dsimp only [Thread.goto]
          split
          · exact ⟨m, hm, le_rfl⟩
          · exact ⟨m, hm 0, by omega⟩
      | act c =>
          obtain ⟨fuel, r, hr⟩ := hreturning i c k hc
          have hcall : sys.call i fuel s (.call (S := LockSig S) (.act c) k)
              = some (State.set ⟨r.2, s.lock, s.thread⟩ i ((s.thread i).goto (.run (k r.1)))) := by
            simp only [System.call, hr]
          exact Lowers.go (M := 6 * m + 1) ((hgo fuel).trans hcall) (by omega) ⟨m, hm r.1, le_rfl⟩

/-- A thread that is in an operation and not blocked can go on until it has less to do. -/
theorem lowers {allow : Option Ω → (c : S.Call) → S.Answer c → Prop} {max : ℕ}
    (hinv : Inv allow max s) (hreturning : sys.Returning s) (hidle : (s.thread i).control ≠ .idle)
    (hblocked : ¬ (s.thread i).Blocked) (hleft : (s.thread i).control.Left N) :
  sys.Lowers i N s
  := by
  cases hc : (s.thread i).control with
  | idle => exact absurd hc hidle
  | run p =>
      rw [hc] at hleft
      obtain ⟨n, hn, hN⟩ := hleft
      exact lowers_run hc hinv hreturning hn hN
  | read k =>
      rw [hc] at hleft
      obtain ⟨n, hn, hN⟩ := hleft
      exact lowers_read hc hn (by omega)
  | exchange oldval k =>
      rw [hc] at hleft
      obtain ⟨n, hn, hN⟩ := hleft
      by_cases hold : s.lock.value = oldval
      · subst hold
        exact lowers_exchange hc hn hN
      · -- the counter has changed, and is read again
        have hgo : sys.go i 0 s = some (s.set i ((s.thread i).goto (.read k))) := by
          simp only [System.go, hc, if_neg hold]
        apply Lowers.after hgo
        apply lowers_read (k := k) _ hn hN
        rw [State.set_thread]
        rfl
  | wait k =>
      rw [hc] at hleft
      obtain ⟨n, hn, hN⟩ := hleft
      by_cases hpending : s.lock.pending = true
      · have hgo : sys.go i 0 s = some (State.set ⟨s.shared, s.lock.consume, s.thread⟩ i
            ((s.thread i).locked (k 0))) := by
          simp only [System.go, hc, if_pos hpending]
        exact Lowers.go (M := 6 * n + 1) hgo (by omega) ⟨n, hn 0, le_rfl⟩
      · have hgo : sys.go i 0 s = some (s.set i ((s.thread i).goto (.blocked k))) := by
          simp only [System.go, hc, if_neg hpending]
        exact Lowers.go (M := 6 * n + 3) hgo (by omega) ⟨n, hn, le_rfl⟩
  | blocked k =>
      rw [Thread.Blocked, hc] at hblocked
      exact absurd trivial hblocked
  | signal k =>
      rw [hc] at hleft
      obtain ⟨n, hn, hN⟩ := hleft
      exact lowers_signal hc hn hN

/-- From every state in which an invariant holds that threads which go on keep, they can go on until
all of them have returned. -/
theorem drains {allow : Option Ω → (c : S.Call) → S.Answer c → Prop} {I : State S σ Ω α ι → Prop}
    (hI : ∀ s, I s → Inv allow 1 s ∧ Draining s ∧ sys.Returning s)
    (hnext : ∀ s m s', I s → m.Inner → sys.next s m = some s' → I s') (hs : I s) :
  ∃ s', sys.Advances s s' ∧ ∀ i, (s'.thread i).control = .idle
  := by
  choose N hN using (hI s hs).2.1.left
  -- by induction on what is left to do in all
  obtain ⟨total, htotal⟩ : ∃ total, ∑ i, N i = total := ⟨_, rfl⟩
  induction total using Nat.strong_induction_on generalizing s N with
  | _ total ih =>
    obtain ⟨hinv, hdraining, hreturning⟩ := hI s hs
    by_cases hall : ∀ i, (s.thread i).control = .idle
    · exact ⟨s, Reaches.refl, hall⟩
    · push Not at hall
      obtain ⟨i, hi⟩ := hall
      obtain ⟨j, hidle, hblocked⟩ := hdraining.exists_runnable hinv hi
      obtain ⟨s', hreach, ⟨M, hM, hleft⟩, hothers⟩ := lowers hinv hreturning hidle hblocked (hN j)
      have hs' : I s' := hreach.invariant hnext hs
      have hlt : ∑ l, Function.update N j M l < total := by
        rw [← htotal]
        apply Finset.sum_lt_sum
        · intro l _
          by_cases hl : l = j
          · rw [hl, Function.update_self]
            exact hM.le
          · rw [Function.update_of_ne hl]
        · exact ⟨j, Finset.mem_univ j, by rwa [Function.update_self]⟩
      have hlefts : ∀ l, (s'.thread l).control.Left (Function.update N j M l) := by
        intro l
        by_cases hl : l = j
        · rw [hl, Function.update_self]
          exact hleft
        · rw [Function.update_of_ne hl]
          exact hothers l hl _ (hN l)
      obtain ⟨s'', hreach', hidle'⟩ := ih _ hlt hs' _ hlefts rfl
      exact ⟨s'', hreach.trans hreach', hidle'⟩

end System

end Sync
