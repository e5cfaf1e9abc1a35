import StandaloneSel4.Heap.Entry
import StandaloneSel4.Heap.Invariant

/-!
# Runs of the allocator

A run starts with `setMemoryPool` and goes on with `kmalloc` of any size, `kfree` of
blocks that are live, and writes of the clients to the chunks of live blocks other than
the first. Along every run the heap holds the arena of the live blocks.
-/

namespace Kmalloc

open Bytes Fuel Linked FirstFit Sync Arena

/-! ### The entry points on their own -/

theorem kmallocNoLock_stable (size : ℕ) (h : Heap) :
  Stable (kmallocNoLock size h)
  := by
  apply (chunkCount_stable size).bind
  intro chunks
  apply (loop_stable _ _).map

theorem kfreeNoLock_stable (ptr : ℕ) (h : Heap) :
  Stable (kfreeNoLock ptr h)
  := by
  unfold kfreeNoLock relink
  split
  · exact Stable.const _
  · split
    · exact Stable.const _
    · apply (loop_stable _ _).map

/-- More fuel does not change what the work on the heap does. -/
theorem heapActs_stable (c : HeapCall) (h : Heap) :
  Stable (heapActs c h)
  := by
  cases c with
  | kmallocNoLock size => apply kmallocNoLock_stable
  | kfreeNoLock ptr => apply (kfreeNoLock_stable ptr h).map
  | size chunk => exact Stable.const _
  | memcpy dest src n => exact Stable.const _
  | memset s c len => exact Stable.const _

/-- What an entry point returns does not depend on the fuel. -/
theorem alone_unique {α : Type} {p : Entry α} {h : Heap} {lock : BinSem}
    {r r' : α × Heap × BinSem} (hr : Returns (alone heapActs p h lock) r)
    (hr' : Returns (alone heapActs p h lock) r') :
  r = r'
  := (alone_stable heapActs_stable p h lock).unique hr hr'

section

variable {h : Heap} {lock : BinSem} (hlock : lock.value = 1)

include hlock

/-- A thread on its own takes a free lock. -/
theorem syncMutexLock_free :
  syncMutexLock lock = some (0, lock.decrement)
  := by
  simp [syncMutexLock, syncBinSemBareWait, hlock, intMin]

/-- Giving the lock back leaves it free. -/
theorem syncMutexUnlock_decrement :
  syncMutexUnlock lock.decrement = (0, lock)
  := by
  obtain ⟨notification, value, pending⟩ := lock
  obtain rfl : value = 1 := hlock
  rfl

/-- With the lock free, `kmalloc` does what `kmalloc_no_lock` does. -/
theorem alone_kmalloc (size fuel : ℕ) :
  alone heapActs (kmalloc size) h lock fuel
    = (kmallocNoLock size h fuel).map fun r => (r.1, r.2, lock)
  := by
  change (syncMutexLock lock).bind (fun r => (kmallocNoLock size h fuel).bind fun s =>
    some (s.1, s.2, (syncMutexUnlock r.2).2)) = _
  rw [syncMutexLock_free hlock, Option.bind_some, syncMutexUnlock_decrement hlock]
  cases kmallocNoLock size h fuel <;> rfl

/-- With the lock free, `kfree` does what `kfree_no_lock` does. -/
theorem alone_kfree (ptr fuel : ℕ) :
  alone heapActs (kfree ptr) h lock fuel
    = (kfreeNoLock ptr h fuel).map fun h' => ((), h', lock)
  := by
  change (syncMutexLock lock).bind (fun r =>
    ((kfreeNoLock ptr h fuel).map fun h => ((), h)).bind fun s =>
      some ((), s.2, (syncMutexUnlock r.2).2)) = _
  rw [syncMutexLock_free hlock, Option.bind_some, syncMutexUnlock_decrement hlock]
  cases kfreeNoLock ptr h fuel <;> rfl

theorem kmalloc_returns {size ptr : ℕ} {h' : Heap}
    (hr : Returns (kmallocNoLock size h) (ptr, h')) :
  Returns (alone heapActs (kmalloc size) h lock) (ptr, h', lock)
  := by
  obtain ⟨fuel, hr⟩ := hr
  use fuel
  rw [alone_kmalloc hlock, hr, Option.map_some]

theorem kfree_returns {ptr : ℕ} {h' : Heap} (hr : Returns (kfreeNoLock ptr h) h') :
  Returns (alone heapActs (kfree ptr) h lock) ((), h', lock)
  := by
  obtain ⟨fuel, hr⟩ := hr
  use fuel
  rw [alone_kfree hlock, hr, Option.map_some]

end

/-! ### Runs -/

/-- A block handed out and not freed since: the address of its header, the number of its
chunks and the size asked for. -/
structure Live where
  header : ℕ
  count : ℕ
  size : ℕ
  deriving DecidableEq

/-- The address lies in the block. -/
def Live.Covers (b : Live) (a : ℕ) : Prop :=
  b.header ≤ a ∧ a < b.header + 32 * b.count

/-- The address lies in the block after its header. -/
def Live.Payload (b : Live) (a : ℕ) : Prop :=
  b.header + 32 ≤ a ∧ a < b.header + 32 * b.count

/-- The live blocks after `kmalloc` has returned `ptr`. -/
def handOut (live : List Live) (ptr count size : ℕ) : List Live :=
  if ptr = 0 then live else ⟨Word.sub ptr sizeofInfo, count, size⟩ :: live

/-- The heap, the lock and the live blocks after a run in which the sizes asked for
satisfy `P`. -/
inductive Run (P : ℕ → Prop) : Heap → BinSem → List Live → Prop where
  | setMemoryPool {mem : Mem} {head tail start size mutexNotif : ℕ} {h : Heap}
      {lock : BinSem} :
      Kmalloc.setMemoryPool (Heap.boot mem head tail) start size mutexNotif
        = some (h, lock) →
      h.Placed → Run P h lock []
  | kmalloc {h h' : Heap} {lock lock' : BinSem} {live : List Live} {size count ptr : ℕ} :
      Run P h lock live → size < 2 ^ 64 → P size → Returns (chunkCount size) count →
      Returns (alone heapActs (Kmalloc.kmalloc size) h lock) (ptr, h', lock') →
      Run P h' lock' (handOut live ptr count size)
  | kfree {h h' : Heap} {lock lock' : BinSem} {live : List Live} {b : Live} :
      Run P h lock live → b ∈ live →
      Returns (alone heapActs (Kmalloc.kfree (b.header + 32)) h lock) ((), h', lock') →
      Run P h' lock' (live.erase b)
  | write {h : Heap} {lock : BinSem} {live : List Live} {m : Mem} :
      Run P h lock live → (∀ a, (∀ b ∈ live, ¬ b.Payload a) → m a = h.mem a) →
      Run P { h with mem := m } lock live

/-- The live block of a block of the arena. -/
def Heap.live (h : Heap) (b : Block ℕ) : Live :=
  ⟨h.chunk b.start, b.len, b.tag⟩

theorem Heap.live_injective (h : Heap) :
  Function.Injective h.live
  := by
  rintro ⟨start, len, tag⟩ ⟨start', len', tag'⟩ heq
  obtain ⟨hstart, rfl, rfl⟩ := Live.mk.inj heq
  obtain rfl := Heap.chunk_inj.mp hstart
  rfl

theorem Heap.live_congr {h h' : Heap} (hpool : h'.pool = h.pool) :
  h'.live = h.live
  := by
  funext b
  simp only [Heap.live, Heap.chunk, hpool]

/-- The state of the allocator before its first `kmalloc`. -/
structure Heap.Fresh (h : Heap) : Prop where
  placed : h.Placed
  ready : h.initialized = false
  total : h.totalAllocated = 0

/-- The heap holds an arena whose blocks are the live ones, each as long as its size, which
satisfies `P`, makes it. -/
structure Heap.Tracks {N : ℕ} (P : ℕ → Prop) (h : Heap) (live : List Live)
    (A : Arena N ℕ) : Prop where
  holds : h.Holds A
  live : live = A.live.map h.live
  counted : ∀ b ∈ A.live, P b.tag ∧ Returns (chunkCount b.tag) b.len

variable {P : ℕ → Prop} {h h' : Heap} {live : List Live}

/-- `init` makes the heap of a run track the empty arena. -/
theorem Heap.Fresh.init_tracks (hf : h.Fresh) :
  (init h).Tracks P [] (Arena.empty h.chunkMax ℕ)
  where
  holds := hf.placed.init_holds hf.total
  live := rfl
  counted := by simp [Arena.empty]

/-- The first `kmalloc` runs on the heap that `init` makes. -/
theorem Heap.Fresh.kmallocNoLock_eq (hf : h.Fresh) (size : ℕ) :
  kmallocNoLock size h = kmallocNoLock size (init h)
  := by
  have hready := hf.ready
  funext fuel
  simp [kmallocNoLock, ensureInit, hready, init]

namespace Heap.Tracks

variable {N : ℕ} {A : Arena N ℕ} (ht : h.Tracks P live A)

include ht

/-- A heap that holds a new block beside the live ones tracks it. -/
theorem take {t n size : ℕ} (hP : P size) (hn : Returns (chunkCount size) n) (hpos : 0 < n)
    (hrun : IsRun A.free n t) (hholds : h'.Holds (A.take ⟨t, n, size⟩ hpos hrun))
    (hpool : h'.pool = h.pool) :
  h'.Tracks P (⟨h.chunk t, n, size⟩ :: live) (A.take ⟨t, n, size⟩ hpos hrun)
  := by
  constructor
  · exact hholds
  · rw [ht.live, live_take, List.map_cons, Heap.live_congr hpool]
    rfl
  · intro b hb
    rcases List.mem_cons.mp hb with rfl | hb
    · exact ⟨hP, hn⟩
    · apply ht.counted b hb

/-- After `kmalloc` has returned, the heap tracks what it has handed out: nothing, when
there is no stretch of free chunks that is long enough or none is asked for, and else the
first such stretch. -/
theorem kmallocNoLock {size n ptr : ℕ} (hsize : size < 2 ^ 64) (hP : P size)
    (hn : Returns (chunkCount size) n) (hr : Returns (kmallocNoLock size h) (ptr, h')) :
  (ptr = 0 ∧ h' = h ∧ (n = 0 ∨ ∀ t, ¬ IsRun A.free n t))
    ∨ ∃ t, ∃ (hpos : 0 < n) (hrun : IsRun A.free n t), ptr = h.chunk t + 32 ∧ h'.pool = h.pool
        ∧ h'.Tracks P (handOut live ptr n size) (A.take ⟨t, n, size⟩ hpos hrun)
  := by
  rcases ht.holds.kmallocNoLock_spec hsize hn with
    ⟨hret, hnone⟩ | ⟨t, h'', hpos, hrun, hret, hholds, hpool, -⟩
  · obtain ⟨rfl, rfl⟩ := Prod.mk.inj ((kmallocNoLock_stable size h).unique hr hret)
    exact .inl ⟨rfl, rfl, hnone⟩
  · obtain ⟨rfl, rfl⟩ := Prod.mk.inj ((kmallocNoLock_stable size h).unique hr hret)
    right
    use t, hpos, hrun, rfl, hpool
    have hlt : t < h.chunkMax := ht.holds.lt_of_free (hrun t le_rfl (by omega))
    rw [handOut, if_neg (by omega), ht.holds.placed.sub_info hlt]
    apply ht.take hP hn hpos hrun hholds hpool

/-- After `kfree` of a live block, the heap tracks the others. -/
theorem kfreeNoLock {b : Live} (hb : b ∈ live)
    (hr : Returns (kfreeNoLock (b.header + 32) h) h') :
  ∃ c ∈ A.live, b = h.live c ∧ h'.Tracks P (live.erase b) (A.give c)
  := by
  rw [ht.live, List.mem_map] at hb
  obtain ⟨c, hc, rfl⟩ := hb
  obtain ⟨h'', hret, hholds, hpool⟩ := ht.holds.kfreeNoLock_spec hc
  obtain rfl := (kfreeNoLock_stable _ h).unique hr hret
  use c, hc, rfl
  constructor
  · exact hholds
  · rw [ht.live, live_give, Heap.live_congr hpool, List.map_erase h.live_injective]
  · intro b hb
    apply ht.counted b (List.mem_of_mem_erase hb)

/-- What the clients write to their blocks changes nothing. -/
theorem write {m : Mem} (hm : ∀ a, (∀ b ∈ live, ¬ b.Payload a) → m a = h.mem a) :
  { h with mem := m }.Tracks P live A
  := by
  constructor
  · apply ht.holds.write
    intro a ha
    apply hm
    intro b hb
    rw [ht.live, List.mem_map] at hb
    obtain ⟨c, hc, rfl⟩ := hb
    apply ha c hc
  · exact ht.live
  · exact ht.counted

end Heap.Tracks

/-- After the first `kmalloc` has returned, the heap tracks what it has handed out. -/
theorem Heap.Fresh.kmallocNoLock (hf : h.Fresh) {size n ptr : ℕ} (hsize : size < 2 ^ 64)
    (hP : P size) (hn : Returns (chunkCount size) n)
    (hr : Returns (Kmalloc.kmallocNoLock size h) (ptr, h')) :
  ∃ A' : Arena h.chunkMax ℕ, h'.Tracks P (handOut [] ptr n size) A'
  := by
  rw [hf.kmallocNoLock_eq] at hr
  rcases hf.init_tracks.kmallocNoLock hsize hP hn hr with
    ⟨rfl, rfl, -⟩ | ⟨t, hpos, hrun, -, -, ht'⟩
  · exact ⟨_, hf.init_tracks⟩
  · exact ⟨_, ht'⟩

/-- Along every run the lock is free between calls, and the heap either has not been used
or tracks an arena of the live blocks. -/
theorem Run.tracks {lock : BinSem} (hrun : Run P h lock live) :
  lock.value = 1
    ∧ (h.Fresh ∧ live = [] ∨ ∃ N, ∃ A : Arena N ℕ, h.Tracks P live A)
  := by
  induction hrun with
  | setMemoryPool hpool hplaced =>
      simp only [Kmalloc.setMemoryPool, syncMutexInit_eq, Option.some.injEq, Prod.mk.injEq]
        at hpool
      obtain ⟨rfl, rfl⟩ := hpool
      exact ⟨rfl, .inl ⟨⟨hplaced, rfl, rfl⟩, rfl⟩⟩
  | kmalloc hrun hsize hP hn hr ih =>
      obtain ⟨hlock, ih⟩ := ih
      obtain ⟨fuel, hr⟩ := hr
      rw [alone_kmalloc hlock, Option.map_eq_some_iff] at hr
      obtain ⟨⟨ptr, h'⟩, hr, heq⟩ := hr
      obtain ⟨rfl, rfl, rfl⟩ := heq
      use hlock
      right
      rcases ih with ⟨hf, rfl⟩ | ⟨N, A, ht⟩
      · obtain ⟨A', ht'⟩ := hf.kmallocNoLock hsize hP hn ⟨fuel, hr⟩
        exact ⟨_, A', ht'⟩
      · rcases ht.kmallocNoLock hsize hP hn ⟨fuel, hr⟩ with
          ⟨rfl, rfl, -⟩ | ⟨t, hpos, hrun, -, -, ht'⟩
        · exact ⟨N, A, ht⟩
        · exact ⟨N, _, ht'⟩
  | kfree hrun hb hr ih =>
      obtain ⟨hlock, ih⟩ := ih
      obtain ⟨fuel, hr⟩ := hr
      rw [alone_kfree hlock, Option.map_eq_some_iff] at hr
      obtain ⟨h', hr, heq⟩ := hr
      obtain ⟨-, rfl, rfl⟩ := heq
      use hlock
      rcases ih with ⟨-, rfl⟩ | ⟨N, A, ht⟩
      · cases hb
      · obtain ⟨c, -, -, ht'⟩ := ht.kfreeNoLock hb ⟨fuel, hr⟩
        exact .inr ⟨N, _, ht'⟩
  | write hrun hm ih =>
      obtain ⟨hlock, ih⟩ := ih
      use hlock
      rcases ih with ⟨hf, rfl⟩ | ⟨N, A, ht⟩
      · exact .inl ⟨⟨⟨hf.placed.1, hf.placed.2, hf.placed.3, hf.placed.4, hf.placed.5,
          hf.placed.6⟩, hf.ready, hf.total⟩, rfl⟩
      · exact .inr ⟨N, A, ht.write hm⟩

/-- In every state of a run, the heap that `kmalloc` works on tracks an arena of the live
blocks. -/
theorem Run.ensureInit_tracks {lock : BinSem} (hrun : Run P h lock live) :
  ∃ N, ∃ A : Arena N ℕ, (ensureInit h).Tracks P live A
  := by
  rcases hrun.tracks.2 with ⟨hf, rfl⟩ | ⟨N, A, ht⟩
  · rw [ensureInit, hf.ready]
    exact ⟨_, _, hf.init_tracks⟩
  · rw [ensureInit, if_pos ht.holds.ready]
    exact ⟨N, A, ht⟩

end Kmalloc
