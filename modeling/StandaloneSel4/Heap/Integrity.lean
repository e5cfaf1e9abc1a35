import StandaloneSel4.Heap.Runs
import Mathlib.Algebra.BigOperators.Ring.List
import Mathlib.Algebra.Order.BigOperators.Group.List

/-!
# What runs of the allocator keep

In every state of a run after `init` the free list is intact: it is ascending, doubly
linked, and consists of the chunks that belong to no live block, while the live blocks lie
apart inside the pool. While no size asked for is so large that it wraps around, the total
is that of the sizes of the live blocks and fits the pool. A block is large enough for the
size asked for unless adding the header to the size wraps around to something positive.
-/

namespace Kmalloc

open Bytes Fuel Linked FirstFit Sync Arena

/-! ### The free list and the blocks -/

/-- The free list is intact, and so are the live blocks. -/
structure Heap.Intact (h : Heap) (live : List Live) : Prop where
  /-- The chunks of the free list lie at ascending addresses, are linked both ways from
  `head` to `tail`, and are the chunks of the pool in no live block. -/
  free : ∃ l : List ℕ, Chained (get .next h.mem) (get .prev h.mem) (h.head :: l ++ [h.tail])
    ∧ l.Pairwise (· < ·)
    ∧ ∀ c, c ∈ l ↔ (∃ i < h.chunkMax, c = h.chunk i) ∧ ∀ b ∈ live, ¬ b.Covers c
  disjoint : live.Pairwise (fun b c =>
    b.header + 32 * b.count ≤ c.header ∨ c.header + 32 * c.count ≤ b.header)
  inside : ∀ b ∈ live, 0 < b.count ∧ ∃ i, b.header = h.chunk i ∧ i + b.count ≤ h.chunkMax
  count : ∀ b ∈ live, get .count h.mem b.header = b.count

variable {P : ℕ → Prop} {h h' : Heap} {live : List Live} {lock : BinSem}

namespace Heap.Tracks

variable {N : ℕ} {A : Arena N ℕ} (ht : h.Tracks P live A)

include ht

/-- The free positions are those of the chunks in no live block. -/
theorem mem_free_iff {i : ℕ} (hi : i < h.chunkMax) :
  i ∈ A.free ↔ ∀ b ∈ live, ¬ b.Covers (h.chunk i)
  := by
  have hcov : ∀ b : Block ℕ, (h.live b).Covers (h.chunk i) ↔ b.Covers i := by
    intro b
    simp only [Heap.live, Live.Covers, Block.Covers, Heap.chunk]
    omega
  have hlt : i < N := ht.holds.max ▸ hi
  rw [mem_free, ht.live]
  simp only [List.forall_mem_map, hcov]
  exact ⟨fun h => h.2, fun h => ⟨hlt, h⟩⟩

/-- A heap that tracks its live blocks is intact. -/
theorem intact :
  h.Intact live
  := by
  constructor
  · use A.free.map h.chunk
    and_intros
    · exact ht.holds.chain
    · rw [List.pairwise_map]
      apply A.free_sorted.imp
      intro i j hij
      simp only [Heap.chunk]
      omega
    · intro c
      rw [List.mem_map]
      constructor
      · rintro ⟨i, hi, rfl⟩
        have hlt := ht.holds.lt_of_free hi
        exact ⟨⟨i, hlt, rfl⟩, (ht.mem_free_iff hlt).mp hi⟩
      · rintro ⟨⟨i, hlt, rfl⟩, hno⟩
        exact ⟨i, (ht.mem_free_iff hlt).mpr hno, rfl⟩
  · rw [ht.live, List.pairwise_map]
    apply A.apart.imp
    intro b c hbc
    simp only [Heap.live, Heap.chunk]
    unfold Block.Apart at hbc
    omega
  · rw [ht.live, List.forall_mem_map, ht.holds.max]
    intro b hb
    exact ⟨A.pos b hb, b.start, rfl, A.inside b hb⟩
  · rw [ht.live, List.forall_mem_map]
    intro b hb
    apply ht.holds.count b hb

end Heap.Tracks

/-- In every state of a run after `init` the heap is intact. -/
theorem Run.intact_of_initialized (hrun : Run (fun _ => True) h lock live)
    (hinit : h.initialized = true) :
  h.Intact live
  := by
  rcases hrun.tracks.2 with ⟨hf, rfl⟩ | ⟨N, A, ht⟩
  · rw [hf.ready] at hinit
    cases hinit
  · apply ht.intact

/-- The run on eight chunks that allocates eight bytes twice and frees the first block, which is
too short for the forty bytes that it allocates then. -/
theorem Run.eight_filled (hP : P 8) (hP' : P 40) :
  ∃ h h' : Heap, Run P h ⟨7, 1, false⟩ [⟨4160, 2, 8⟩] ∧ h.pool = 4096 ∧ h.chunkMax = 8
    ∧ Run P h' ⟨7, 1, false⟩ [⟨4224, 3, 40⟩, ⟨4160, 2, 8⟩] ∧ h'.initialized = true
  := by
  have hshape : ((kmallocNoLock 8 Heap.eight 20).bind fun r₁ =>
      (kmallocNoLock 8 r₁.2 20).bind fun r₂ => (kfreeNoLock 4128 r₂.2 20).bind fun h =>
        (kmallocNoLock 40 h 20).map fun r₃ => ((r₁.1, r₂.1, r₃.1), h.pool, h.chunkMax,
          r₃.2.initialized)) = some ((4128, 4192, 4256), 4096, 8, true) := by
    decide +kernel
  obtain ⟨⟨ptr₁, h₁⟩, hr₁, hshape⟩ := Option.bind_eq_some_iff.mp hshape
  obtain ⟨⟨ptr₂, h₂⟩, hr₂, hshape⟩ := Option.bind_eq_some_iff.mp hshape
  obtain ⟨h₃, hr₃, hshape⟩ := Option.bind_eq_some_iff.mp hshape
  obtain ⟨⟨ptr₄, h₄⟩, hr₄, hshape⟩ := Option.map_eq_some_iff.mp hshape
  simp only [Prod.mk.injEq] at hshape
  obtain ⟨⟨rfl, rfl, rfl⟩, hpool, hmax, hinit⟩ := hshape
  have htwo : Returns (chunkCount 8) 2 := ⟨10, by decide⟩
  have hthree : Returns (chunkCount 40) 3 := ⟨10, by decide⟩
  have hstart := Run.setMemoryPool (P := P) Heap.eight_pool Heap.eight_placed
  have hfirst := hstart.kmalloc (by decide) hP htwo (Kmalloc.kmalloc_returns rfl ⟨20, hr₁⟩)
  have hsecond := hfirst.kmalloc (by decide) hP htwo (Kmalloc.kmalloc_returns rfl ⟨20, hr₂⟩)
  have hfreed := hsecond.kfree (b := ⟨4096, 2, 8⟩) (by decide)
    (Kmalloc.kfree_returns rfl ⟨20, hr₃⟩)
  have hthird := hfreed.kmalloc (by decide) hP' hthree (Kmalloc.kmalloc_returns rfl ⟨20, hr₄⟩)
  exact ⟨h₃, h₄, hfreed, hpool, hmax, hthird, hinit⟩

/-- The heap is intact then. -/
theorem Run.eight_intact :
  ∃ h lock, Run (fun _ => True) h lock [⟨4224, 3, 40⟩, ⟨4160, 2, 8⟩]
    ∧ h.Intact [⟨4224, 3, 40⟩, ⟨4160, 2, 8⟩]
  := by
  obtain ⟨-, h, -, -, -, hrun, hinit⟩ := Run.eight_filled (P := fun _ => True) trivial trivial
  exact ⟨h, _, hrun, Run.intact_of_initialized hrun hinit⟩

/-! ### Returning -/

/-- `kmalloc` runs on the heap that `init` makes, if that has not been called. -/
theorem kmallocNoLock_ensureInit (size : ℕ) (h : Heap) :
  kmallocNoLock size (ensureInit h) = kmallocNoLock size h
  := by
  have hinit : ensureInit (ensureInit h) = ensureInit h := by
    simp only [ensureInit]
    split
    · rfl
    · rfl
  funext fuel
  simp only [kmallocNoLock, hinit]

@[simp]
theorem ensureInit_pool (h : Heap) :
  (ensureInit h).pool = h.pool
  := by
  unfold ensureInit
  split <;> rfl

@[simp]
theorem ensureInit_chunkMax (h : Heap) :
  (ensureInit h).chunkMax = h.chunkMax
  := by
  unfold ensureInit
  split <;> rfl

/-- In every state of a run `kmalloc` returns when `chunk_count` does. -/
theorem Run.kmalloc_returns (hrun : Run P h lock live) {size count : ℕ} (hsize : size < 2 ^ 64)
    (hcount : Returns (chunkCount size) count) :
  ∃ ptr h', Returns (alone heapActs (Kmalloc.kmalloc size) h lock) (ptr, h', lock)
  := by
  obtain ⟨N, A, ht⟩ := hrun.ensureInit_tracks
  have hlock := hrun.tracks.1
  rcases ht.holds.kmallocNoLock_spec hsize hcount with
    ⟨hret, -⟩ | ⟨t, h', -, -, hret, -⟩
  · rw [kmallocNoLock_ensureInit] at hret
    exact ⟨_, _, Kmalloc.kmalloc_returns hlock hret⟩
  · rw [kmallocNoLock_ensureInit] at hret
    exact ⟨_, _, Kmalloc.kmalloc_returns hlock hret⟩

/-- In every state of a run `kfree` of a live block returns. -/
theorem Run.kfree_returns (hrun : Run P h lock live) {b : Live} (hb : b ∈ live) :
  ∃ h', Returns (alone heapActs (Kmalloc.kfree (b.header + 32)) h lock) ((), h', lock)
  := by
  obtain ⟨hlock, hstate⟩ := hrun.tracks
  rcases hstate with ⟨-, rfl⟩ | ⟨N, A, ht⟩
  · cases hb
  · rw [ht.live, List.mem_map] at hb
    obtain ⟨c, hc, rfl⟩ := hb
    obtain ⟨h', hret, -⟩ := ht.holds.kfreeNoLock_spec hc
    exact ⟨h', Kmalloc.kfree_returns hlock hret⟩

/-! ### The total -/

/-- The chunks of a block hold its header and the size asked for, unless that wraps
around. -/
theorem le_of_chunkCount {size count : ℕ} (hsize : size + 32 < 2 ^ 64)
    (hcount : Returns (chunkCount size) count) :
  size + 32 ≤ 32 * count
  := by
  obtain ⟨-, rfl⟩ := chunkCount_returns_iff.mp hcount
  rw [Word.add_of_lt hsize]
  omega

/-- In every state of a run without sizes close to `2 ^ 64`, the total is the sum of the
sizes asked for of the live blocks, and fits the pool. -/
theorem Run.total (hrun : Run (fun size => size < 2 ^ 64 - 63) h lock live) :
  getTotalKMallocated h = (live.map Live.size).sum
    ∧ getTotalKMallocated h ≤ h.chunkMax * sizeofChunk
  := by
  rcases hrun.tracks.2 with ⟨hf, rfl⟩ | ⟨N, A, ht⟩
  · rw [getTotalKMallocated, hf.total]
    exact ⟨rfl, Nat.zero_le _⟩
  · have hsum : (live.map Live.size).sum = sizes A.live := by
      rw [ht.live, List.map_map]
      rfl
    have hle : sizes A.live ≤ 32 * N := by
      calc sizes A.live
        _ ≤ (A.live.map (fun b => 32 * b.len)).sum := by
            apply List.sum_le_sum
            intro b hb
            obtain ⟨hlt, hcount⟩ := ht.counted b hb
            have hfits := le_of_chunkCount (by omega) hcount
            omega
        _ = 32 * (A.live.map Block.len).sum := List.sum_map_mul_left _ _ _
        _ ≤ 32 * N := Nat.mul_le_mul_left 32 A.sum_len_le
    have hend := ht.holds.placed.pool_end
    have hmax := ht.holds.max
    have htotal : getTotalKMallocated h = sizes A.live := by
      rw [getTotalKMallocated, ht.holds.total, Nat.mod_eq_of_lt (by omega)]
    rw [htotal, hsum]
    use rfl
    simp only [sizeofChunk]
    omega

/-- The total is that of the two blocks that are live after one was freed. -/
theorem Run.eight_total :
  ∃ h lock, Run (fun size => size < 2 ^ 64 - 63) h lock [⟨4224, 3, 40⟩, ⟨4160, 2, 8⟩]
    ∧ getTotalKMallocated h = 48 ∧ getTotalKMallocated h ≤ h.chunkMax * sizeofChunk
  := by
  obtain ⟨-, h, -, -, -, hrun, -⟩ :=
    Run.eight_filled (P := fun size => size < 2 ^ 64 - 63) (by decide) (by decide)
  exact ⟨h, _, hrun, Run.total hrun⟩

/-! ### Room -/

/-- What `kmalloc` returns, if it is not the null pointer, has room for the size asked
for. -/
def Room (h : Heap) (lock : BinSem) (size : ℕ) : Prop :=
  ∀ ptr h' lock', Returns (alone heapActs (kmalloc size) h lock) (ptr, h', lock') → ptr ≠ 0 →
    size ≤ (get .count h'.mem (ptr - 32) - 1) * sizeofChunk

/-- What `kmalloc_no_lock` returns, `chunk_count` has returned before. -/
theorem chunkCount_of_kmallocNoLock {size : ℕ} {r : ℕ × Heap}
    (hr : Returns (kmallocNoLock size h) r) :
  ∃ count, Returns (chunkCount size) count
  := by
  obtain ⟨fuel, hr⟩ := hr
  obtain ⟨count, hcount, -⟩ := Option.bind_eq_some_iff.mp hr
  exact ⟨count, fuel, hcount⟩

/-- What `kmalloc` does in a state of a run: it hands out the first stretch of free chunks
that is long enough, or nothing when there is none. -/
theorem Run.kmalloc_spec (hrun : Run (fun _ => True) h lock live) {size ptr : ℕ}
    {lock' : BinSem} (hsize : size < 2 ^ 64)
    (hr : Returns (alone heapActs (Kmalloc.kmalloc size) h lock) (ptr, h', lock'))
    (hptr : ptr ≠ 0) :
  ∃ count, Returns (chunkCount size) count ∧ 0 < count
    ∧ get .count h'.mem (ptr - 32) = count
    ∧ ∃ i < h.chunkMax, ∀ b ∈ live, ¬ b.Covers (h.chunk i)
  := by
  obtain ⟨N, A, ht⟩ := hrun.ensureInit_tracks
  obtain ⟨fuel, hr⟩ := hr
  rw [alone_kmalloc hrun.tracks.1, Option.map_eq_some_iff] at hr
  obtain ⟨⟨ptr, h'⟩, hr, heq⟩ := hr
  obtain ⟨rfl, rfl, rfl⟩ := heq
  rw [← kmallocNoLock_ensureInit] at hr
  obtain ⟨count, hcount⟩ := chunkCount_of_kmallocNoLock ⟨fuel, hr⟩
  rcases ht.kmallocNoLock hsize trivial hcount ⟨fuel, hr⟩ with
    ⟨rfl, -⟩ | ⟨t, hpos, hrunt, rfl, hpool', ht'⟩
  · exact absurd rfl hptr
  · use count, hcount, hpos
    constructor
    · have hheader := ht'.holds.count ⟨t, count, size⟩ List.mem_cons_self
      simp only [Heap.chunk, hpool'] at hheader ⊢
      rw [Nat.add_sub_cancel, hheader]
    · have hfree := hrunt t le_rfl (by omega)
      have hlt := ht.holds.lt_of_free hfree
      have hno := (ht.mem_free_iff hlt).mp hfree
      rw [ensureInit_chunkMax] at hlt
      use t, hlt
      simp only [Heap.chunk, ensureInit_pool] at hno ⊢
      exact hno

/-- In a state of a run with a free chunk, `kmalloc` hands out a block of one chunk. -/
theorem Run.kmalloc_free (hrun : Run (fun _ => True) h lock live) {size : ℕ}
    (hsize : size < 2 ^ 64) (hcount : Returns (chunkCount size) 1)
    (hfree : ∃ i < h.chunkMax, ∀ b ∈ live, ¬ b.Covers (h.chunk i)) :
  ∃ ptr h', Returns (alone heapActs (Kmalloc.kmalloc size) h lock) (ptr, h', lock) ∧ ptr ≠ 0
  := by
  obtain ⟨N, A, ht⟩ := hrun.ensureInit_tracks
  obtain ⟨i, hi, hno⟩ := hfree
  have hmem : i ∈ A.free := by
    rw [← ensureInit_chunkMax] at hi
    apply (ht.mem_free_iff hi).mpr
    simp only [Heap.chunk, ensureInit_pool] at hno ⊢
    exact hno
  rcases ht.holds.kmallocNoLock_spec hsize hcount with
    ⟨-, hzero | hnone⟩ | ⟨t, h', -, -, hret, -⟩
  · omega
  · exfalso
    apply hnone i
    intro j hij hj
    obtain rfl : j = i := by omega
    exact hmem
  · rw [kmallocNoLock_ensureInit] at hret
    use (ensureInit h).chunk t + 32, h', Kmalloc.kmalloc_returns hrun.tracks.1 hret
    omega

/-- In a state of a run, what `kmalloc` returns has room for the size asked for unless the
size is so large that with the header it wraps around to one chunk, and there is a free
chunk to hand out. -/
theorem Run.room_iff (hrun : Run (fun _ => True) h lock live) {size : ℕ}
    (hsize : size < 2 ^ 64) :
  Room h lock size
    ↔ size < 2 ^ 64 - 31 ∨ ∀ i < h.chunkMax, ∃ b ∈ live, b.Covers (h.chunk i)
  := by
  constructor
  · intro hroom
    by_contra hnot
    obtain ⟨hlarge, hfree⟩ := not_or.mp hnot
    have hcount : Returns (chunkCount size) 1 := by
      apply chunkCount_returns_iff.mpr
      simp only [Word.add]
      omega
    obtain ⟨ptr, h', hr, hptr⟩ := hrun.kmalloc_free hsize hcount (by simpa using hfree)
    have hle := hroom ptr h' lock hr hptr
    obtain ⟨count, hcount', -, hheader, -⟩ := hrun.kmalloc_spec hsize hr hptr
    obtain rfl := (chunkCount_stable size).unique hcount hcount'
    rw [hheader] at hle
    omega
  · intro hcond ptr h' lock' hr hptr
    obtain ⟨count, hcount, hpos, hheader, i, hi, hfree⟩ := hrun.kmalloc_spec hsize hr hptr
    rcases hcond with hlt | hfull
    · rw [hheader]
      by_cases hwrap : size + 32 < 2 ^ 64
      · have hfits := le_of_chunkCount hwrap hcount
        simp only [sizeofChunk]
        omega
      · obtain ⟨-, rfl⟩ := chunkCount_returns_iff.mp hcount
        simp only [Word.add] at hpos
        omega
    · obtain ⟨b, hb, hcov⟩ := hfull i hi
      exact absurd hcov (hfree b hb)

/-- With four free chunks, there is room for eight bytes. -/
theorem Run.four_room :
  Room Heap.four ⟨7, 1, false⟩ 8
  := (Run.room_iff (.setMemoryPool Heap.four_pool Heap.four_placed) (by decide)).mpr
    (.inl (by decide))

/-- With four free chunks, `kmalloc` returns a block of one chunk, the header, for a size of
`2 ^ 64 - 31` bytes. -/
theorem Run.four_no_room :
  ¬ ∀ h lock live, Run (fun _ => True) h lock live →
      ∀ size, size < 2 ^ 64 → Room h lock size
  := by
  intro hall
  have hroom := hall Heap.four ⟨7, 1, false⟩ []
    (.setMemoryPool Heap.four_pool Heap.four_placed) (2 ^ 64 - 31) (by decide)
  obtain ⟨⟨ptr, h⟩, hr⟩ : ∃ r, kmallocNoLock (2 ^ 64 - 31) Heap.four 10 = some r :=
    Option.isSome_iff_exists.mp (by decide +kernel)
  obtain ⟨rfl, hcount⟩ : ptr = 4128 ∧ get .count h.mem 4096 = 1 := by
    have hshape : (kmallocNoLock (2 ^ 64 - 31) Heap.four 10).map
        (fun r => (r.1, get .count r.2.mem 4096)) = some (4128, 1) := by decide +kernel
    rw [hr] at hshape
    simpa using hshape
  have hle := hroom 4128 h ⟨7, 1, false⟩ (Kmalloc.kmalloc_returns rfl ⟨10, hr⟩) (by decide)
  rw [hcount] at hle
  omega

end Kmalloc
