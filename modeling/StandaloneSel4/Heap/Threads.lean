import StandaloneSel4.Heap.Entry
import StandaloneSel4.Heap.Layout
import StandaloneSel4.Sync.Exclusion

/-!
# Threads that share the heap

Any number of threads run `kmalloc`, `kfree` and `krealloc` with any arguments, each step
of the lock being atomic, and write to the memory as they like in between. One of them at
most holds the lock. But `krealloc` calls `kmalloc`, which takes the lock, while it holds
it: a thread that asks `krealloc` for no less than the block already has waits for itself.
Where every `krealloc` asks for less, no thread waits for a lock that it holds.
-/

namespace Kmalloc

open Sync Fuel Bytes

/-- The threads that use the heap. Their own writes change the memory in any way. -/
def heapSystem : System HeapSig Heap Op Mem ℕ where
  prog := Op.prog
  acts := heapActs
  env m h := { h with mem := m }

section

variable {allow : (c : HeapCall) → HeapSig.Answer c → Prop} {max d : ℕ}

/-- `kmalloc` keeps the balance of the program it is called in. -/
theorem balanced_kmalloc_bind {α : Type} {f : ℕ → Entry α} {size : ℕ} (hd : d < max)
    (hf : ∀ r, Balanced allow max d (f r)) :
  Balanced allow max d (kmalloc size >>= f)
  := by
  constructor
  · exact hd
  · intro _ r _
    constructor
    · exact Nat.succ_pos d
    · intro _
      apply hf r

theorem balanced_kmalloc {size : ℕ} (h : 0 < max) :
  Balanced allow max 0 (kmalloc size)
  := balanced_kmalloc_bind h (fun _ => rfl)

theorem balanced_kfree {ptr : ℕ} (h : 0 < max) :
  Balanced allow max 0 (Op.kfree ptr).prog
  := by
  constructor
  · exact h
  · intro _ _ _
    constructor
    · exact Nat.one_pos
    · intro _
      rfl

/-- `krealloc` keeps the balance when the lock may be held twice, and when what it reads
as the size of the block is more than it is asked for. -/
theorem balanced_krealloc {ptr size : ℕ} (h : 0 < max)
    (hsize : 1 < max ∨ ∀ c x, allow (.size c) x → size < x) :
  Balanced allow max 0 (krealloc ptr size)
  := by
  constructor
  · exact h
  intro _
  by_cases hptr : ptr = 0
  · rw [if_pos hptr]
    intro r _
    constructor
    · exact Nat.one_pos
    · intro _
      rfl
  · rw [if_neg hptr]
    intro prevSize hprev
    change Balanced (S := HeapSig) allow max 1 (if size < prevSize then _ else _)
    split
    · constructor
      · exact Nat.one_pos
      · intro _
        rfl
    · rename_i hle
      rcases hsize with hmax | hallow
      · apply balanced_kmalloc_bind hmax
        intro newPtr
        split
        · constructor
          · exact Nat.one_pos
          · intro _
            rfl
        · intro _ _ _ _ _ _
          constructor
          · exact Nat.one_pos
          · intro _
            rfl
      · exact absurd (hallow _ prevSize hprev) hle

end

variable {ι : Type}

/-- The step does not read, for a `krealloc`, a size that is not more than the one asked
for. -/
def shrinks (s : Sync.State HeapSig Heap Op ℕ ι) : Move Op Mem ι → Bool
  | .go i _ =>
      match (s.thread i).op, (s.thread i).control with
      | some (.krealloc _ size), .run (.call (.act (.size c)) _) =>
          size < get .size s.shared.mem c
      | _, _ => true
  | _ => true

/-- The answers to a `krealloc` that reads a size that is more than the one asked for. -/
def allowShrink : Option Op → (c : HeapCall) → HeapSig.Answer c → Prop
  | some (.krealloc _ size), .size _, x => size < x
  | _, _, _ => True

theorem shrinks_meets {s : Sync.State HeapSig Heap Op ℕ ι} {m : Move Op Mem ι}
    (h : shrinks s m) :
  Meets heapSystem allowShrink s m
  := by
  rintro i fuel c k x h' rfl hc hact
  simp only [shrinks, hc] at h
  cases hop : (s.thread i).op with
  | none => trivial
  | some op =>
      cases op with
      | kmalloc size => trivial
      | kfree ptr => trivial
      | krealloc ptr size =>
          cases c with
          | size chunk =>
              rw [hop] at h
              obtain ⟨rfl, -⟩ := Prod.mk.inj (Option.some.inj hact)
              have hlt : size < get .size s.shared.mem chunk := of_decide_eq_true h
              exact hlt
          | kmallocNoLock size => trivial
          | kfreeNoLock ptr => trivial
          | memcpy dest src n => trivial
          | memset s c len => trivial

variable [Fintype ι] [DecidableEq ι]

/-- `setMemoryPool` leaves the lock free, with no signal pending. -/
theorem setMemoryPool_lock {h₀ h : Heap} {start size mutexNotif : ℕ} {lock : BinSem}
    (hpool : setMemoryPool h₀ start size mutexNotif = some (h, lock)) :
  lock = ⟨mutexNotif, 1, false⟩
  := by
  simp only [setMemoryPool, syncMutexInit_eq, Option.some.injEq, Prod.mk.injEq] at hpool
  exact hpool.2.symm

/-! ### Mutual exclusion -/

/-- After `setMemoryPool`, whatever fewer than `2 ^ 31` threads do, one of them at most is
between the return of a `sync_mutex_lock` and its `sync_mutex_unlock`. -/
theorem heapLock_exclusion (hcard : Fintype.card ι < 2 ^ 31) {h₀ h : Heap}
    {start size mutexNotif : ℕ} {lock : BinSem}
    (hpool : setMemoryPool h₀ start size mutexNotif = some (h, lock))
    {s : Sync.State HeapSig Heap Op ℕ ι}
    (hs : heapSystem.Reaches (fun _ _ => True) (Sync.State.start h lock) s) :
  ∀ i j, (s.thread i).Holds → (s.thread j).Holds → i = j
  := by
  rw [setMemoryPool_lock hpool] at hs
  have hinv : Inv (fun _ _ _ => True) 2 s := by
    apply Inv.reaches hcard _ _ (Inv.start h mutexNotif) hs
    · rintro (size | ptr | ⟨ptr, size⟩)
      · exact balanced_kmalloc (by decide)
      · exact balanced_kfree (by decide)
      · exact balanced_krealloc (by decide) (.inl (by decide))
    · intro s m _ i fuel c k x shared _ _ _
      trivial
  intro i j hi hj
  apply hinv.exclusion hi hj

/-- The moves of the thread `i` that make it take the lock, when it is free. -/
def takesLock (i : ι) : List (Move Op Mem ι) :=
  [.go i 0, .go i 0, .go i 0]

/-- Of two threads that allocate, the first holds the lock while the second waits. -/
theorem heapLock_exclusion_two :
  ∃ s : Sync.State HeapSig Heap Op ℕ (Fin 2),
    ((s.thread 0).Holds ∧ (s.thread 1).Waits)
      ∧ ∀ i j, (s.thread i).Holds → (s.thread j).Holds → i = j
  := by
  obtain ⟨s, hs, hP⟩ := heapSystem.exists_reaches (ι := Fin 2) (C := fun _ _ => True)
    (s := Sync.State.start Heap.four ⟨7, 1, false⟩)
    (P := fun s => (s.thread 0).Holds ∧ (s.thread 1).Waits)
    (l := [.start 0 (.kmalloc 8), .start 1 (.kfree 0)] ++ takesLock 0 ++ takesLock 1)
    (by decide)
  use s, hP
  apply heapLock_exclusion (by decide) Heap.four_pool hs

/-! ### Self-deadlock -/

/-- After `setMemoryPool`, while every `krealloc` asks for less than its block has: a
thread that holds the lock does not wait for it and can make its next step, and a thread
whose call has returned has given the lock back as often as it has taken it. -/
theorem heapLock_no_selfDeadlock (hcard : Fintype.card ι < 2 ^ 31) {h₀ h : Heap}
    {start size mutexNotif : ℕ} {lock : BinSem}
    (hpool : setMemoryPool h₀ start size mutexNotif = some (h, lock))
    {s : Sync.State HeapSig Heap Op ℕ ι}
    (hs : heapSystem.Reaches (fun s m => shrinks s m) (Sync.State.start h lock) s) :
  (∀ i, (s.thread i).Holds →
      ¬ (s.thread i).Waits ∧ ∀ fuel, ∃ s', heapSystem.next s (.go i fuel) = some s')
    ∧ ∀ i a, (s.thread i).control = .idle ∨ (s.thread i).control = .run (.ret a) →
        (s.thread i).released = (s.thread i).acquired
  := by
  rw [setMemoryPool_lock hpool] at hs
  have hinv : Inv allowShrink 1 s := by
    apply Inv.reaches hcard _ _ (Inv.start h mutexNotif) hs
    · rintro (size | ptr | ⟨ptr, size⟩)
      · exact balanced_kmalloc (by decide)
      · exact balanced_kfree (by decide)
      · exact balanced_krealloc (by decide) (.inr (fun _ _ h => h))
    · intro s m hm
      apply shrinks_meets hm
  constructor
  · intro i hi
    constructor
    · apply hinv.not_waits hi
    · apply hinv.progress hi
  · rintro i a (hc | hc)
    · apply hinv.idle hc
    · apply hinv.ret hc

/-- The moves of the thread `i` that make it run `kmalloc(8)` to its end. -/
def allocates (i : ι) : List (Move Op Mem ι) :=
  .start i (.kmalloc 8) :: takesLock i ++ [.go i 10, .go i 0, .go i 0]

/-- A thread that allocates eight bytes and asks `krealloc` for four holds the lock. -/
theorem heapLock_no_selfDeadlock_four :
  ∃ s : Sync.State HeapSig Heap Op ℕ (Fin 1), (s.thread 0).Holds
    ∧ (∀ i, (s.thread i).Holds →
        ¬ (s.thread i).Waits ∧ ∀ fuel, ∃ s', heapSystem.next s (.go i fuel) = some s')
    ∧ ∀ i a, (s.thread i).control = .idle ∨ (s.thread i).control = .run (.ret a) →
        (s.thread i).released = (s.thread i).acquired
  := by
  obtain ⟨s, hs, hP⟩ := heapSystem.exists_reaches (ι := Fin 1)
    (C := fun s m => shrinks s m = true) (s := Sync.State.start Heap.four ⟨7, 1, false⟩)
    (P := fun s => (s.thread 0).Holds)
    (l := allocates 0 ++ .start 0 (.krealloc 4128 4) :: takesLock 0 ++ [.go 0 0])
    (by decide +kernel)
  use s, hP
  apply heapLock_no_selfDeadlock (by decide) Heap.four_pool hs

/-- A thread that allocates eight bytes and then asks `krealloc` for sixteen waits for the
lock while it holds it. -/
theorem krealloc_selfDeadlock :
  ¬ ∀ s : Sync.State HeapSig Heap Op ℕ (Fin 1),
      heapSystem.Reaches (fun _ _ => True) (Sync.State.start Heap.four ⟨7, 1, false⟩) s →
      ∀ i, (s.thread i).Holds → ¬ (s.thread i).Waits
  := by
  obtain ⟨s, hs, hholds, hwaits⟩ := heapSystem.exists_reaches (ι := Fin 1)
    (C := fun _ _ => True) (s := Sync.State.start Heap.four ⟨7, 1, false⟩)
    (P := fun s => (s.thread 0).Holds ∧ (s.thread 0).Waits)
    (l := allocates 0 ++ .start 0 (.krealloc 4128 16) :: takesLock 0 ++ [.go 0 0]
      ++ takesLock 0)
    (by decide +kernel)
  intro h
  apply h s hs 0 hholds hwaits

end Kmalloc
