import StandaloneSel4.Sync.Threads

/-!
# What a move can do

A thread that goes on acts on the shared state, or makes a step that changes the lock and itself
alone. Here it is said once what such a step can be, and what the moves can be, so that an invariant
is a matter of cases.
-/

namespace Sync

open Prog

variable {S : Signature} {σ Ω ε ι α : Type}

/-- The lock and the thread after a step of the thread that does not act on the shared state. -/
inductive Thread.Goes (s : State S σ Ω α ι) (t : Thread S Ω α) :
    BinSem → Thread S Ω α → Prop where
  | ret {a : α} : t.control = .run (.ret a) → Goes s t s.lock (t.goto .idle)
  | lock {k : ℤ → Prog (LockSig S) α} : t.control = .run (.call .lock k) →
      Goes s t s.lock (t.goto (.read k))
  | post {k : ℤ → Prog (LockSig S) α} : t.control = .run (.call .unlock k) →
      s.lock.syncAtomicIncrement.value ≤ 0 →
      Goes s t s.lock.syncAtomicIncrement
        ({ t with released := t.released + 1 }.goto (.signal k))
  | unlock {k : ℤ → Prog (LockSig S) α} : t.control = .run (.call .unlock k) →
      0 < s.lock.syncAtomicIncrement.value →
      Goes s t s.lock.syncAtomicIncrement
        ({ t with released := t.released + 1 }.goto (.run (k 0)))
  | overflow {k : ℤ → Prog (LockSig S) α} : t.control = .read k → s.lock.value = intMin →
      Goes s t s.lock (t.locked (k (-1)))
  | read {k : ℤ → Prog (LockSig S) α} : t.control = .read k →
      Goes s t s.lock (t.goto (.exchange s.lock.value k))
  | wait {k : ℤ → Prog (LockSig S) α} : t.control = .exchange s.lock.value k →
      s.lock.value ≤ 0 → Goes s t s.lock.decrement (t.goto (.wait k))
  | acquire {k : ℤ → Prog (LockSig S) α} : t.control = .exchange s.lock.value k →
      0 < s.lock.value → Goes s t s.lock.decrement (t.locked (k 0))
  | retry {oldval : ℤ} {k : ℤ → Prog (LockSig S) α} : t.control = .exchange oldval k →
      Goes s t s.lock (t.goto (.read k))
  | consume {k : ℤ → Prog (LockSig S) α} : t.control = .wait k → s.lock.pending = true →
      Goes s t s.lock.consume (t.locked (k 0))
  | block {k : ℤ → Prog (LockSig S) α} : t.control = .wait k → s.lock.pending = false →
      Goes s t s.lock (t.goto (.blocked k))
  | remember {k : ℤ → Prog (LockSig S) α} : t.control = .signal k →
      (∀ j, ¬ (s.thread j).Blocked) → Goes s t s.lock.remember (t.goto (.run (k 0)))

variable [DecidableEq ι]

/-- The state after a move. -/
inductive System.Step (sys : System S σ Ω ε α) (s : State S σ Ω α ι) :
    Move Ω ε ι → State S σ Ω α ι → Prop where
  | start {i : ι} {op : Ω} : (s.thread i).control = .idle →
      Step sys s (.start i op)
        (s.set i { s.thread i with control := .run (sys.prog op), op := some op })
  | go {i : ι} {fuel : ℕ} {b : BinSem} {t : Thread S Ω α} : (s.thread i).Goes s b t →
      Step sys s (.go i fuel) (State.set ⟨s.shared, b, s.thread⟩ i t)
  | act {i : ι} {fuel : ℕ} {c : S.Call} {k : S.Answer c → Prog (LockSig S) α}
      {x : S.Answer c} {shared : σ} : (s.thread i).control = .run (.call (.act c) k) →
      sys.acts c s.shared fuel = some (x, shared) →
      Step sys s (.go i fuel)
        (State.set ⟨shared, s.lock, s.thread⟩ i ((s.thread i).goto (.run (k x))))
  /-- The action needs more fuel. -/
  | stay {i : ι} {fuel : ℕ} {c : S.Call} {k : S.Answer c → Prog (LockSig S) α} :
      (s.thread i).control = .run (.call (.act c) k) → sys.acts c s.shared fuel = none →
      Step sys s (.go i fuel) s
  | spurious {i : ι} {oldval : ℤ} {k : ℤ → Prog (LockSig S) α} :
      (s.thread i).control = .exchange oldval k →
      Step sys s (.spurious i) (s.set i ((s.thread i).goto (.read k)))
  | wake {i j : ι} {k k' : ℤ → Prog (LockSig S) α} : (s.thread i).control = .signal k →
      (s.thread j).control = .blocked k' →
      Step sys s (.wake i j)
        ((s.set i ((s.thread i).goto (.run (k 0)))).set j ((s.thread j).locked (k' 0)))
  | env {e : ε} : Step sys s (.env e) { s with shared := sys.env e s.shared }

namespace System

variable {sys : System S σ Ω ε α} {s s' : State S σ Ω α ι} {i : ι} {fuel : ℕ}

theorem step_call {p : Prog (LockSig S) α} (hc : (s.thread i).control = .run p)
    (hcall : sys.call i fuel s p = some s') :
  sys.Step s (.go i fuel) s'
  := by
  cases p with
  | ret a =>
      obtain rfl := Option.some.inj hcall
      exact .go (.ret hc)
  | fail => cases hcall
  | call c k =>
      cases c with
      | lock =>
          obtain rfl := Option.some.inj hcall
          exact .go (.lock hc)
      | unlock =>
          obtain rfl := Option.some.inj hcall
          split
          · exact .go (.post hc ‹_›)
          · exact .go (.unlock hc (not_le.mp ‹_›))
      | act c =>
          simp only [call] at hcall
          cases hact : sys.acts c s.shared fuel with
          | none =>
              rw [hact] at hcall
              obtain rfl := Option.some.inj hcall
              exact .stay hc hact
          | some r =>
              rw [hact] at hcall
              obtain rfl := Option.some.inj hcall
              exact .act hc hact

variable [Fintype ι]

theorem step_go (hgo : sys.go i fuel s = some s') :
  sys.Step s (.go i fuel) s'
  := by
  simp only [go] at hgo
  cases hc : (s.thread i).control with
  | idle | blocked k =>
      rw [hc] at hgo
      cases hgo
  | run p =>
      rw [hc] at hgo
      exact step_call hc hgo
  | read k =>
      rw [hc] at hgo
      obtain rfl := Option.some.inj hgo
      split
      · exact .go (.overflow hc ‹_›)
      · exact .go (.read hc)
  | exchange oldval k =>
      rw [hc] at hgo
      dsimp only at hgo
      split at hgo
      · rename_i hold
        subst hold
        obtain rfl := Option.some.inj hgo
        split
        · exact .go (.wait hc ‹_›)
        · exact .go (.acquire hc (not_le.mp ‹_›))
      · obtain rfl := Option.some.inj hgo
        exact .go (.retry hc)
  | wait k =>
      rw [hc] at hgo
      dsimp only at hgo
      split at hgo
      · obtain rfl := Option.some.inj hgo
        exact .go (.consume hc ‹_›)
      · obtain rfl := Option.some.inj hgo
        exact .go (.block hc (Bool.eq_false_iff.mpr ‹_›))
  | signal k =>
      rw [hc] at hgo
      dsimp only at hgo
      split at hgo
      · cases hgo
      · rename_i hnobody
        obtain rfl := Option.some.inj hgo
        exact .go (.remember hc fun j hj => hnobody ⟨j, hj⟩)

/-- Where a move can be made, it does one of these. -/
theorem step {m : Move Ω ε ι} (hnext : sys.next s m = some s') :
  sys.Step s m s'
  := by
  cases m with
  | start i op =>
      simp only [next] at hnext
      split at hnext
      · obtain rfl := Option.some.inj hnext
        exact .start ‹_›
      · cases hnext
  | go i fuel => exact step_go hnext
  | spurious i =>
      simp only [next] at hnext
      split at hnext
      · obtain rfl := Option.some.inj hnext
        exact .spurious ‹_›
      · cases hnext
  | wake i j =>
      simp only [next] at hnext
      split at hnext
      · rename_i hi hj
        obtain rfl := Option.some.inj hnext
        exact .wake hi hj
      · cases hnext
  | env e =>
      obtain rfl := Option.some.inj hnext
      exact .env

end System

end Sync
