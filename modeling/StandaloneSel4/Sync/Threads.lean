import StandaloneSel4.Lib.Fuel
import StandaloneSel4.Lib.Prog
import StandaloneSel4.Sync.BinSem
import Mathlib.Data.Fintype.Card

/-!
# Threads that share a lock

Threads run programs that take and give back one mutex and act on a shared state between.
`alone` runs a program for a thread that has the lock to itself. `System.next` makes one
atomic step of one of many threads: the reads and exchanges of `sync_bin_sem_bare_wait`,
`seL4_Wait`, the increment of `sync_bin_sem_bare_post`, `seL4_Signal`, or an action on the
shared state. A signal wakes a thread that waits; when none does, it is remembered and
lets one later wait through. An action may take any number of steps, and what others do
to the shared state comes in between.
-/

namespace Sync

open Fuel

/-- The calls of a program that may also take the lock and give it back. -/
inductive LockCall (S : Signature) where
  | lock
  | unlock
  | act (c : S.Call)

/-- The signature with `sync_mutex_lock` and `sync_mutex_unlock`, which answer an `int`. -/
abbrev LockSig (S : Signature) : Signature where
  Call := LockCall S
  Answer
    | .lock => ℤ
    | .unlock => ℤ
    | .act c => S.Answer c

variable {S : Signature} {σ Ω ε ι α : Type}

/-- The program that takes the lock. -/
def lock : Prog (LockSig S) ℤ :=
  Prog.perform (S := LockSig S) .lock

/-- The program that gives the lock back. -/
def unlock : Prog (LockSig S) ℤ :=
  Prog.perform (S := LockSig S) .unlock

/-- The program that acts on the shared state. -/
def act (c : S.Call) : Prog (LockSig S) (S.Answer c) :=
  Prog.perform (S := LockSig S) (.act c)

/-- What each call does to the shared state, on fuel. -/
abbrev Actions (S : Signature) (σ : Type) : Type :=
  (c : S.Call) → σ → ℕ → Option (S.Answer c × σ)

/-- Runs a program for a thread that has the lock to itself. -/
def alone (acts : Actions S σ) : Prog (LockSig S) α → σ → BinSem → ℕ → Option (α × σ × BinSem)
  | .ret a, s, b, _ => some (a, s, b)
  | .fail, _, _, _ => none
  | .call .lock k, s, b, fuel =>
      (syncMutexLock b).bind fun r => alone acts (k r.1) s r.2 fuel
  | .call .unlock k, s, b, fuel =>
      alone acts (k (syncMutexUnlock b).1) s (syncMutexUnlock b).2 fuel
  | .call (.act c) k, s, b, fuel =>
      (acts c s fuel).bind fun r => alone acts (k r.1) r.2 b fuel

/-- Runs a program as if there were no lock. -/
def unlocked (acts : Actions S σ) : Prog (LockSig S) α → σ → ℕ → Option (α × σ)
  | .ret a, s, _ => some (a, s)
  | .fail, _, _ => none
  | .call .lock k, s, fuel => unlocked acts (k 0) s fuel
  | .call .unlock k, s, fuel => unlocked acts (k 0) s fuel
  | .call (.act c) k, s, fuel =>
      (acts c s fuel).bind fun r => unlocked acts (k r.1) r.2 fuel

/-- More fuel does not change what a program returns when it does not change what the
actions do. -/
theorem alone_stable {acts : Actions S σ} (h : ∀ c s, Stable (acts c s))
    (p : Prog (LockSig S) α) (s : σ) (b : BinSem) :
  Stable (alone acts p s b)
  := by
  induction p generalizing s b with
  | ret a => exact Stable.const _
  | fail => exact Stable.const _
  | call c k ih =>
      cases c with
      | lock =>
          apply Stable.bind (Stable.const (syncMutexLock b))
          intro r
          apply ih
      | unlock => apply ih
      | act c =>
          apply Stable.bind (h c s)
          intro r
          apply ih

/-! ### Many threads -/

/-- Where a thread is. The program it goes on with is given by what the call it is in
returns. -/
inductive Control (S : Signature) (α : Type) where
  /-- Between two operations. -/
  | idle
  /-- About to make the next call of its program. -/
  | run (p : Prog (LockSig S) α)
  /-- In `sync_atomic_decrement_safe`, about to read the counter. -/
  | read (k : ℤ → Prog (LockSig S) α)
  /-- In `sync_atomic_decrement_safe`, with `*oldval` read, about to exchange. -/
  | exchange (oldval : ℤ) (k : ℤ → Prog (LockSig S) α)
  /-- About to call `seL4_Wait`. -/
  | wait (k : ℤ → Prog (LockSig S) α)
  /-- In `seL4_Wait`, not woken yet. -/
  | blocked (k : ℤ → Prog (LockSig S) α)
  /-- In `sync_bin_sem_bare_post`, about to call `seL4_Signal`. -/
  | signal (k : ℤ → Prog (LockSig S) α)

/-- A thread: where it is, the operation it was last given, how often `sync_mutex_lock`
has returned to it and how often it has given the lock back. -/
structure Thread (S : Signature) (Ω α : Type) where
  control : Control S α
  op : Option Ω
  acquired : ℕ
  released : ℕ

namespace Thread

/-- The thread goes on from `c`. -/
def goto (t : Thread S Ω α) (c : Control S α) : Thread S Ω α :=
  { t with control := c }

/-- `sync_mutex_lock` returns `x` to the thread. -/
def locked (t : Thread S Ω α) (p : Prog (LockSig S) α) : Thread S Ω α :=
  { t with control := .run p, acquired := t.acquired + 1 }

/-- The thread is between the return of a `sync_mutex_lock` and its
`sync_mutex_unlock`. -/
def Holds (t : Thread S Ω α) : Prop :=
  t.released < t.acquired

/-- The thread waits for the lock. -/
def Waits (t : Thread S Ω α) : Prop :=
  match t.control with
  | .wait _ | .blocked _ => True
  | _ => False

/-- The thread is in `seL4_Wait`. -/
def Blocked (t : Thread S Ω α) : Prop :=
  match t.control with
  | .blocked _ => True
  | _ => False

instance (t : Thread S Ω α) : Decidable t.Holds :=
  inferInstanceAs (Decidable (_ < _))

instance (t : Thread S Ω α) : Decidable t.Waits :=
  match h : t.control with
  | .wait _ | .blocked _ => isTrue (by simp [Waits, h])
  | .idle | .run _ | .read _ | .exchange _ _ | .signal _ => isFalse (by simp [Waits, h])

instance (t : Thread S Ω α) : Decidable t.Blocked :=
  match h : t.control with
  | .blocked _ => isTrue (by simp [Blocked, h])
  | .idle | .run _ | .read _ | .exchange _ _ | .wait _ | .signal _ =>
      isFalse (by simp [Blocked, h])

end Thread

/-- The shared state, the lock and the threads. -/
structure State (S : Signature) (σ Ω α ι : Type) where
  shared : σ
  lock : BinSem
  thread : ι → Thread S Ω α

/-- The threads before their first operation. -/
def State.start (shared : σ) (lock : BinSem) : State S σ Ω α ι where
  shared := shared
  lock := lock
  thread _ := ⟨.idle, none, 0, 0⟩

/-- What the threads run: the program of every operation, the actions on the shared state,
and what may happen to the shared state from outside. -/
structure System (S : Signature) (σ Ω ε α : Type) where
  prog : Ω → Prog (LockSig S) α
  acts : Actions S σ
  env : ε → σ → σ

/-- An atomic step. -/
inductive Move (Ω ε ι : Type) where
  /-- The thread `i` is given an operation. -/
  | start (i : ι) (op : Ω)
  /-- The thread `i` goes on, an action having the given fuel. -/
  | go (i : ι) (fuel : ℕ)
  /-- The exchange of the thread `i` fails for no reason. -/
  | spurious (i : ι)
  /-- The signal of the thread `i` wakes the thread `j`. -/
  | wake (i j : ι)
  /-- Something happens to the shared state. -/
  | env (e : ε)

variable [DecidableEq ι]

/-- The thread `i` becomes `t`. -/
def State.set (s : State S σ Ω α ι) (i : ι) (t : Thread S Ω α) : State S σ Ω α ι :=
  { s with thread := Function.update s.thread i t }

theorem State.set_thread (s : State S σ Ω α ι) (i : ι) (t : Thread S Ω α) :
  (s.set i t).thread i = t
  := Function.update_self ..

theorem State.set_thread_of_ne (s : State S σ Ω α ι) {i j : ι} (h : j ≠ i) (t : Thread S Ω α) :
  (s.set i t).thread j = s.thread j
  := Function.update_of_ne h ..

/-- What is so of the thread that changes, and of all others, is so of all threads. -/
theorem State.forall_set {P : ι → Thread S Ω α → Prop} {s : State S σ Ω α ι} {i : ι}
    {t : Thread S Ω α} (ht : P i t) (h : ∀ j ≠ i, P j (s.thread j)) (j : ι) :
  P j ((s.set i t).thread j)
  := by
  by_cases hj : j = i
  · rw [hj, State.set_thread]
    exact ht
  · rw [State.set_thread_of_ne _ hj]
    exact h j hj

/-- The step of the thread `i` that makes the next call of its program, or returns. -/
def System.call (sys : System S σ Ω ε α) (i : ι) (fuel : ℕ) (s : State S σ Ω α ι) :
    Prog (LockSig S) α → Option (State S σ Ω α ι)
  | .ret _ => some (s.set i ((s.thread i).goto .idle))
  | .fail => none
  | .call .lock k => some (s.set i ((s.thread i).goto (.read k)))
  | .call .unlock k =>
      let b := s.lock.syncAtomicIncrement
      let t := { s.thread i with released := (s.thread i).released + 1 }
      some ({ s with lock := b }.set i (t.goto (if b.value ≤ 0 then .signal k else .run (k 0))))
  | .call (.act c) k =>
      match sys.acts c s.shared fuel with
      | none => some s
      | some (x, shared) =>
          some ({ s with shared := shared }.set i ((s.thread i).goto (.run (k x))))

variable [Fintype ι]

/-- The next step of the thread `i`. -/
def System.go (sys : System S σ Ω ε α) (i : ι) (fuel : ℕ) (s : State S σ Ω α ι) :
    Option (State S σ Ω α ι) :=
  let t := s.thread i
  match t.control with
  | .idle => none
  | .run p => sys.call i fuel s p
  | .read k =>
      some (s.set i
        (if s.lock.value = intMin then t.locked (k (-1)) else t.goto (.exchange s.lock.value k)))
  | .exchange oldval k =>
      if s.lock.value = oldval then
        some ({ s with lock := s.lock.decrement }.set i
          (if oldval ≤ 0 then t.goto (.wait k) else t.locked (k 0)))
      else some (s.set i (t.goto (.read k)))
  | .wait k =>
      if s.lock.pending then some ({ s with lock := s.lock.consume }.set i (t.locked (k 0)))
      else some (s.set i (t.goto (.blocked k)))
  | .blocked _ => none
  | .signal k =>
      if ∃ j, (s.thread j).Blocked then none
      else some ({ s with lock := s.lock.remember }.set i (t.goto (.run (k 0))))

/-- The step that a move makes, if it can be made. -/
def System.next (sys : System S σ Ω ε α) (s : State S σ Ω α ι) :
    Move Ω ε ι → Option (State S σ Ω α ι)
  | .start i op =>
      match (s.thread i).control with
      | .idle => some (s.set i { s.thread i with control := .run (sys.prog op), op := some op })
      | _ => none
  | .go i fuel => sys.go i fuel s
  | .spurious i =>
      match (s.thread i).control with
      | .exchange _ k => some (s.set i ((s.thread i).goto (.read k)))
      | _ => none
  | .wake i j =>
      match (s.thread i).control, (s.thread j).control with
      | .signal k, .blocked k' =>
          some ((s.set i ((s.thread i).goto (.run (k 0)))).set j ((s.thread j).locked (k' 0)))
      | _, _ => none
  | .env e => some { s with shared := sys.env e s.shared }

/-- The states reached from `s₀` by steps that meet the condition `C`. -/
inductive System.Reaches (sys : System S σ Ω ε α) (C : State S σ Ω α ι → Move Ω ε ι → Prop)
    (s₀ : State S σ Ω α ι) : State S σ Ω α ι → Prop where
  | refl : Reaches sys C s₀ s₀
  | step {s s' : State S σ Ω α ι} {m : Move Ω ε ι} :
      Reaches sys C s₀ s → C s m → sys.next s m = some s' → Reaches sys C s₀ s'

/-- The moves one after the other, if they all meet the condition `C` and can be made. -/
def System.play (sys : System S σ Ω ε α) (C : State S σ Ω α ι → Move Ω ε ι → Prop)
    [∀ s m, Decidable (C s m)] : List (Move Ω ε ι) → State S σ Ω α ι → Option (State S σ Ω α ι)
  | [], s => some s
  | m :: l, s => if C s m then (sys.next s m).bind (sys.play C l) else none

/-- What is so where the moves lead is so in a state that is reached. -/
theorem System.exists_reaches {sys : System S σ Ω ε α}
    {C : State S σ Ω α ι → Move Ω ε ι → Prop} [∀ s m, Decidable (C s m)]
    {s : State S σ Ω α ι} {P : State S σ Ω α ι → Prop} [DecidablePred P]
    {l : List (Move Ω ε ι)} (h : (sys.play C l s).any (fun s => P s) = true) :
  ∃ s', sys.Reaches C s s' ∧ P s'
  := by
  suffices hfrom : ∀ (l : List (Move Ω ε ι)) (t : State S σ Ω α ι), sys.Reaches C s t →
      (sys.play C l t).any (fun s => P s) = true → ∃ s', sys.Reaches C s s' ∧ P s' from
    hfrom l s Reaches.refl h
  intro l
  induction l with
  | nil =>
      intro t ht hP
      use t, ht
      simpa [play] using hP
  | cons m l ih =>
      intro t ht hP
      rw [play] at hP
      split at hP
      · rename_i hC
        cases hnext : sys.next t m with
        | none =>
            rw [hnext] at hP
            cases hP
        | some t' =>
            rw [hnext] at hP
            apply ih t' (Reaches.step ht hC hnext) hP
      · cases hP

end Sync
