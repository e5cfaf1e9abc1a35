import StandaloneSel4.Heap.Shared
import StandaloneSel4.Sync.Draining

/-!
# The shared heap under any interleaving

Threads that allocate and free what they own never wait for each other for ever: from every state
that they reach they can go on until all of them have returned, unless they ask for sizes for which
`kmalloc` does not return at all.
-/

namespace Kmalloc

open Sync Fuel Bytes

variable {ι : Type} {P : ℕ → Prop}

/-! ### What the programs do -/

/-- No size is read, since nothing is reallocated. -/
def allowFrees : Option Op → (c : HeapCall) → HeapSig.Answer c → Prop
  | _, .size _, _ => False
  | _, _, _ => True

theorem balanced_prog (op : Op) :
  Balanced (allowFrees (some op)) 1 0 op.prog
  := by
  cases op with
  | kmalloc size => exact balanced_kmalloc Nat.one_pos
  | kfree ptr => exact balanced_kfree Nat.one_pos
  | krealloc ptr size => exact balanced_krealloc Nat.one_pos (.inr fun _ _ h => h.elim)

theorem depth_kmalloc_bind {α : Type} {f : ℕ → Entry α} {n size : ℕ} (hf : ∀ r, Depth n (f r)) :
  Depth (n + 3) (kmalloc size >>= f)
  := fun _ r _ => hf r

/-- An operation makes nine calls at most. -/
theorem depth_prog (op : Op) :
  ∃ n, Depth n op.prog
  := by
  cases op with
  | kmalloc size => exact ⟨3, fun _ _ _ => trivial⟩
  | kfree ptr => exact ⟨3, fun _ _ _ => trivial⟩
  | krealloc ptr size =>
      use 9
      intro _
      by_cases hptr : ptr = 0
      · rw [if_pos hptr]
        exact fun _ _ => trivial
      · rw [if_neg hptr]
        intro prevSize
        change Depth (S := HeapSig) 7 (if size < prevSize then _ else _)
        split
        · exact fun _ => trivial
        · apply depth_kmalloc_bind
          intro newPtr
          split
          · exact fun _ => trivial
          · exact fun _ _ _ _ => trivial

/-! ### What they call comes back -/

variable {h : Heap} {lock : BinSem} {live : List Live}

/-- In a run `kmalloc_no_lock` returns when the count of the chunks does. -/
theorem Run.kmallocNoLock_returns (hrun : Run P h lock live) {size : ℕ} (hsize : size < 2 ^ 64)
    (hsmall : Word.add size 32 ≤ 2 ^ 64 - 32) :
  ∃ r, Returns (kmallocNoLock size h) r
  := by
  obtain ⟨ptr, h', fuel, hr⟩ :=
    hrun.kmalloc_returns hsize (chunkCount_returns_iff.mpr ⟨hsmall, rfl⟩)
  rw [alone_kmalloc hrun.tracks.1, Option.map_eq_some_iff] at hr
  obtain ⟨r, hr, -⟩ := hr
  exact ⟨r, fuel, hr⟩

/-- In a run `kfree_no_lock` of a live block returns. -/
theorem Run.kfreeNoLock_returns (hrun : Run P h lock live) {b : Live} (hb : b ∈ live) :
  ∃ h', Returns (kfreeNoLock (b.header + 32) h) h'
  := by
  obtain ⟨h', fuel, hr⟩ := hrun.kfree_returns hb
  rw [alone_kfree hrun.tracks.1, Option.map_eq_some_iff] at hr
  obtain ⟨h', hr, -⟩ := hr
  exact ⟨h', fuel, hr⟩

namespace Shared.Inv

variable {x : Shared ι}

/-- The work on the heap that the threads are about to do comes to an end. -/
theorem returning (h : x.Inv P lock) (hP : ∀ size, P size → Word.add size 32 ≤ 2 ^ 64 - 32) :
  heapSystem.Returning x.state
  := by
  intro i c k hcontrol
  have hthread := h.thread i
  rw [hcontrol] at hthread
  cases c with
  | kmallocNoLock size =>
      obtain ⟨hsize, hPsize, -⟩ := hthread
      obtain ⟨r, fuel, hr⟩ := h.run.kmallocNoLock_returns hsize (hP size hPsize)
      exact ⟨fuel, r, hr⟩
  | kfreeNoLock ptr =>
      obtain ⟨rfl, -⟩ := hthread
      obtain ⟨h', fuel, hr⟩ : ∃ h', Returns (Kmalloc.kfreeNoLock
          ((x.ledger.freeing i).elim 0 fun b => b.header + 32) x.state.shared) h' := by
        cases hfreeing : x.ledger.freeing i with
        | none => exact ⟨x.state.shared, 0, if_pos rfl⟩
        | some b => exact h.run.kfreeNoLock_returns (h.live i b hfreeing)
      use fuel, ((), h')
      exact congrArg (Option.map fun h => ((), h)) hr
  | size chunk => exact absurd hthread id
  | memcpy dest src n => exact absurd hthread id
  | memset s c len => exact absurd hthread id

theorem meets (h : x.Inv P lock) (m : Move Op Mem ι) :
  Meets heapSystem allowFrees x.state m
  := by
  rintro i fuel c k r shared rfl hcontrol -
  have hthread := h.thread i
  rw [hcontrol] at hthread
  cases c with
  | kmallocNoLock size => trivial
  | kfreeNoLock ptr => trivial
  | size chunk => exact absurd hthread id
  | memcpy dest src n => trivial
  | memset s c len => trivial

end Shared.Inv

/-- A move of threads that go on is allowed. -/
theorem Shared.allowed_of_inner (x : Shared ι) {m : Move Op Mem ι} (hm : m.Inner) :
  x.Allowed P m
  := by
  cases m with
  | start i op => exact absurd hm id
  | go i fuel => trivial
  | spurious i => trivial
  | wake i j => trivial
  | env e => exact absurd hm id

/-! ### All together -/

variable [Fintype ι]

/-- The threads keep to the ledger, and do not wait for each other for ever. -/
structure Shared.Sound (P : ℕ → Prop) (lock : BinSem) (x : Shared ι) : Prop where
  inv : x.Inv P lock
  balanced : Sync.Inv allowFrees 1 x.state
  draining : Draining x.state

namespace Shared

variable {x x' : Shared ι}

theorem Sound.start {mem : Mem} {head tail start size mutexNotif : ℕ}
    (hpool : setMemoryPool (Heap.boot mem head tail) start size mutexNotif = some (h, lock))
    (hplaced : h.Placed) :
  Sound P lock (Shared.start h lock : Shared ι)
  where
  inv := ⟨.setMemoryPool hpool hplaced, fun _ => rfl, nofun, nofun⟩
  balanced := by
    rw [setMemoryPool_lock hpool]
    exact Sync.Inv.start h mutexNotif
  draining := by
    rw [setMemoryPool_lock hpool]
    exact Draining.start h mutexNotif

variable [DecidableEq ι]

theorem Sound.next (h : x.Sound P lock) (hcard : Fintype.card ι < 2 ^ 31) {m : Move Op Mem ι}
    (hallowed : x.Allowed P m) (hnext : x.Next m x') :
  x'.Sound P lock
  where
  inv := h.inv.next hallowed hnext
  balanced := h.balanced.next hcard balanced_prog (h.inv.meets m) hnext.1
  draining := h.draining.next depth_prog hnext.1

/-- The ledger is kept beside the states that the threads go through. -/
theorem exists_of_reaches {C : Sync.State HeapSig Heap Op ℕ ι → Move Op Mem ι → Prop}
    {permitted : Shared ι → Move Op Mem ι → Prop} (hC : ∀ x m, C x.state m → permitted x m)
    {s : Sync.State HeapSig Heap Op ℕ ι} (hs : heapSystem.Reaches C x.state s) :
  ∃ L, Steps.Reaches Next permitted x ⟨s, L⟩
  := by
  induction hs with
  | refl => exact ⟨x.ledger, Steps.Reaches.refl x⟩
  | step _ hm hnext ih =>
      obtain ⟨L, hreach⟩ := ih
      exact ⟨_, hreach.step (hC _ _ hm) ⟨hnext, rfl⟩⟩

/-- The move, when it can be made. -/
def step (x : Shared ι) (m : Move Op Mem ι) : Option (Shared ι) :=
  (heapSystem.next x.state m).map fun s => ⟨s, x.ledger.record x.state m⟩

theorem next_of_step (x : Shared ι) (m : Move Op Mem ι) (x' : Shared ι) (h : x.step m = some x') :
  x.Next m x'
  := by
  obtain ⟨s, hs, rfl⟩ := Option.map_eq_some_iff.mp h
  exact ⟨hs, rfl⟩

/-- The threads can go on until all of them have returned. -/
theorem Sound.drains (h : x.Sound P lock) (hcard : Fintype.card ι < 2 ^ 31)
    (hP : ∀ size, P size → Word.add size 32 ≤ 2 ^ 64 - 32) :
  ∃ x', Steps.Reaches Next (fun _ m => m.Inner) x x' ∧ x'.Sound P lock
    ∧ ∀ i, (x'.state.thread i).control = .idle
  := by
  obtain ⟨s, hreach, hidle⟩ := heapSystem.drains
    (I := fun s => ∃ L, Sound P lock ⟨s, L⟩) (s := x.state)
    (fun s ⟨_, hs⟩ => ⟨hs.balanced, hs.draining, hs.inv.returning hP⟩)
    (fun s m s' ⟨L, hs⟩ hm hnext =>
      ⟨L.record s m, hs.next hcard (allowed_of_inner _ hm) ⟨hnext, rfl⟩⟩)
    ⟨x.ledger, h⟩
  obtain ⟨L, hreach⟩ := exists_of_reaches (fun _ _ hm => hm) hreach
  use ⟨s, L⟩, hreach
  constructor
  · apply hreach.invariant _ h
    intro y m y' hy hm hnext
    exact hy.next hcard (allowed_of_inner y hm) hnext
  · exact hidle

end Shared

/-! ### Whatever the threads do -/

variable [DecidableEq ι] {mem : Mem} {head tail start size mutexNotif : ℕ} {x x' : Shared ι}

/-- The moves by which the first of two threads allocates eight bytes, and the second takes the lock
to do so. -/
def allocatesTwice : List (Move Op Mem (Fin 2)) :=
  allocates 0 ++ .start 1 (.kmalloc 8) :: takesLock 1

theorem Shared.allowed_allocatesTwice (hP : P 8) :
  ∀ m ∈ allocatesTwice, ∀ x : Shared (Fin 2), x.Allowed P m
  := by
  intro m hm x
  simp only [allocatesTwice, allocates, takesLock, List.mem_append, List.mem_cons,
    List.not_mem_nil, or_false] at hm
  rcases hm with ((rfl | rfl | rfl | rfl) | rfl | rfl | rfl) | rfl | rfl | rfl | rfl
  all_goals first | exact trivial | exact ⟨by decide, hP⟩

/-- From every state that fewer than `2 ^ 31` threads reach, they can go on until all of them have
returned and nothing is being given back, unless a size wraps around so far that `kmalloc` does not
return for it. -/
theorem Shared.all_return (hcard : Fintype.card ι < 2 ^ 31)
    (hP : ∀ size, P size → Word.add size 32 ≤ 2 ^ 64 - 32)
    (hpool : setMemoryPool (Heap.boot mem head tail) start size mutexNotif = some (h, lock))
    (hplaced : h.Placed)
    (hx : Steps.Reaches Next (Allowed P) (Shared.start h lock) x) :
  ∃ x', Steps.Reaches Next (fun _ m => m.Inner) x x'
    ∧ (∀ i, (x'.state.thread i).control = .idle) ∧ ∀ i, x'.ledger.freeing i = none
  := by
  have hsound : x.Sound P lock := by
    apply hx.invariant (fun _ _ _ hy hm hnext => hy.next hcard hm hnext)
    exact .start hpool hplaced
  obtain ⟨x', hreach, hsound', hidle⟩ := hsound.drains hcard hP
  use x', hreach, hidle
  intro i
  have hthread := hsound'.inv.thread i
  rw [hidle i] at hthread
  exact hthread

/-- While the second of two threads holds the lock, they can go on until both have returned. -/
theorem Shared.all_return_two :
  ∃ x x' : Shared (Fin 2), (x.state.thread 1).Holds
    ∧ Steps.Reaches Next (fun _ m => m.Inner) x x'
    ∧ (∀ i, (x'.state.thread i).control = .idle) ∧ ∀ i, x'.ledger.freeing i = none
  := by
  obtain ⟨x, hx, hholds⟩ := Steps.exists_reaches (C := fun _ _ => True)
    (s := Shared.start Heap.four ⟨7, 1, false⟩) Shared.next_of_step
    (fun m hm x _ => Shared.allowed_allocatesTwice
      (P := fun size => Word.add size 32 ≤ 2 ^ 64 - 32) (by decide) m hm x)
    (Q := fun x => (x.state.thread 1).Holds) (by decide +kernel)
  obtain ⟨x', hx'⟩ := Shared.all_return (by decide) (fun _ h => h) Heap.four_pool Heap.four_placed
    hx
  exact ⟨x, x', hholds, hx'⟩

end Kmalloc
