import Mathlib.Algebra.Group.Int.Defs
import Mathlib.Algebra.Group.Nat.Defs

/-!
# The binary semaphore

A `sync_bin_sem_t` (bin_sem.h) is a notification object and a counter. A mutex
(mutex.h) is a binary semaphore that starts at one. The notification is modelled with the
one thing the kernel remembers of it when nobody waits: whether a signal is pending.

`syncBinSemBareWait` and `syncBinSemBarePost` are the functions of bin_sem_bare.h as a
thread runs them that has the semaphore to itself. Their parts are the atomic steps of
threads that share it.
-/

namespace Sync

/-- A `sync_bin_sem_t`, also named `sync_mutex_t`, with the state of its notification. -/
structure BinSem where
  notification : ℕ
  value : ℤ
  pending : Bool
  deriving DecidableEq

/-- `INT_MIN`. -/
abbrev intMin : ℤ := -2 ^ 31

/-- `sync_bin_sem_init`: the initialised semaphore, or `none` for the error code. -/
def syncBinSemInit (notification : ℕ) (value : ℤ) : Option BinSem :=
  if value ≠ 0 ∧ value ≠ 1 then none
  else some ⟨notification, value, false⟩

/-- `sync_mutex_init`. -/
def syncMutexInit (notification : ℕ) : Option BinSem :=
  syncBinSemInit notification 1

@[simp]
theorem syncMutexInit_eq (notification : ℕ) :
  syncMutexInit notification = some ⟨notification, 1, false⟩
  := rfl

namespace BinSem

/-- The exchange of `sync_atomic_decrement_safe` that succeeds. -/
def decrement (b : BinSem) : BinSem :=
  { b with value := b.value - 1 }

/-- `sync_atomic_increment`: an `int` wraps around. -/
def syncAtomicIncrement (b : BinSem) : BinSem :=
  { b with value := (b.value + 1).bmod (2 ^ 32) }

/-- `seL4_Wait` when a signal is pending. -/
def consume (b : BinSem) : BinSem :=
  { b with pending := false }

/-- `seL4_Signal` when nobody waits. -/
def remember (b : BinSem) : BinSem :=
  { b with pending := true }

end BinSem

/-- `sync_bin_sem_bare_wait`: the value returned and the semaphore, or `none` when the
thread waits for a signal and nobody is there to give it. -/
def syncBinSemBareWait (b : BinSem) : Option (ℤ × BinSem) :=
  if b.value = intMin then some (-1, b)
  else if b.value ≤ 0 then
    if b.pending then some (0, b.decrement.consume) else none
  else some (0, b.decrement)

/-- `sync_bin_sem_bare_post`. -/
def syncBinSemBarePost (b : BinSem) : ℤ × BinSem :=
  let b := b.syncAtomicIncrement
  if b.value ≤ 0 then (0, b.remember) else (0, b)

/-- `sync_mutex_lock`. -/
def syncMutexLock (b : BinSem) : Option (ℤ × BinSem) :=
  syncBinSemBareWait b

/-- `sync_mutex_unlock`. -/
def syncMutexUnlock (b : BinSem) : ℤ × BinSem :=
  syncBinSemBarePost b

end Sync
