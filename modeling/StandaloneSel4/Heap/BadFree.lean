import StandaloneSel4.Heap.Cleared

/-!
# Freeing what is not allocated

`kfree` of a pointer whose header lies outside the pool does nothing. `kfree` of a pointer
whose header is a free chunk, as after a double free, finds the chunk before it in the free
list and links the two as they were linked; but it has subtracted the size in the header
from the total before, and that size is the one of the last block that began there.
-/

namespace Kmalloc

open Bytes Fuel Linked FirstFit Sync Arena

/-- The header before the pointer lies outside the pool. -/
def Heap.Outside (h : Heap) (ptr : ℕ) : Prop :=
  Word.sub ptr sizeofInfo < h.pool
    ∨ h.pool + sizeofChunk * h.chunkMax ≤ Word.sub ptr sizeofInfo

/-- The header before the pointer is a chunk of the free list. -/
def Heap.Freed (h : Heap) (live : List Live) (ptr : ℕ) : Prop :=
  h.initialized = true ∧ ∃ i < h.chunkMax, Word.sub ptr sizeofInfo = h.chunk i
    ∧ ∀ b ∈ live, ¬ b.Covers (h.chunk i)

/-- The heap after `relink` of a free chunk at `top`. -/
def Heap.discount (h : Heap) (top : ℕ) : Heap :=
  { h with totalAllocated := Word.sub h.totalAllocated (get .size h.mem top) }

variable {P : ℕ → Prop} {h h' : Heap} {live : List Live} {lock : BinSem}

@[simp]
theorem Heap.discount_mem (h : Heap) (top : ℕ) :
  (h.discount top).mem = h.mem
  := by
  simp only [Heap.discount]

/-- A discount of zero bytes is none, and one of more bytes changes the total. -/
theorem Heap.discount_total_iff {top : ℕ} (htotal : h.totalAllocated < 2 ^ 64) :
  getTotalKMallocated (h.discount top) = getTotalKMallocated h ↔ get .size h.mem top = 0
  := by
  have hlt := get_lt .size h.mem top
  simp only [getTotalKMallocated, Heap.discount, Word.sub]
  omega

theorem Heap.discount_eq_iff {top : ℕ} (htotal : h.totalAllocated < 2 ^ 64) :
  h.discount top = h ↔ get .size h.mem top = 0
  := by
  rw [← Heap.discount_total_iff htotal]
  constructor
  · intro heq
    rw [heq]
  · intro heq
    simp only [getTotalKMallocated, Heap.discount] at heq ⊢
    rw [heq]

/-- When the chunk to put back holds the count zero, and the chunk to put it behind and the
one after that are linked to each other, `relink` writes nothing. -/
theorem Heap.Placed.relinkBehind_zero (hp : h.Placed) {i x : ℕ} (hi : i < h.chunkMax)
    (hx : h.IsNode x) (hne : x ≠ h.chunk i) (hcount : get .count h.mem (h.chunk i) = 0)
    (hprev : get .prev h.mem (get .next h.mem x) = x) :
  relinkBehind h (h.chunk i) x = h.discount (h.chunk i)
  := by
  have hcount' : get .count (set .next h.mem x (h.chunk i)) (h.chunk i) = 0 := by
    rw [hp.get_set_of_ne (Heap.isNode_chunk hi) hx (by decide), hcount]
  have hset : set .prev h.mem (get .next h.mem x) x = h.mem := by
    calc set .prev h.mem (get .next h.mem x) x
      _ = set .prev h.mem (get .next h.mem x) (get .prev h.mem (get .next h.mem x)) := by
          rw [hprev]
      _ = h.mem := set_get_self _ _ _
  rw [relinkBehind, if_neg hne]
  simp only [hcount', linkChunks, linkEnds, set_set_self, set_get_self, hset, Heap.discount]

namespace Heap.Tracks

variable {N : ℕ} {A : Arena N ℕ} (ht : h.Tracks P live A)

include ht

/-- The chunk before a position in the free list is linked to the one after it and back, and is
no chunk from that position on. -/
theorem before_gap (i : ℕ) {k : List ℕ} {x : ℕ}
    (hk : h.head :: (A.free.filter (· < i)).map h.chunk = k ++ [x]) :
  ∃ y ∈ (A.free.filter (i ≤ ·)).map h.chunk ++ [h.tail],
    h.IsNode x ∧ get .next h.mem x = y ∧ get .prev h.mem y = x ∧
      ∀ j < h.chunkMax, i ≤ j → x ≠ h.chunk j
  := by
  have hh := ht.holds
  obtain ⟨-, -, y, u, -, hu⟩ := h.exists_gap [] (A.free.filter (i ≤ ·))
  have hchain := hh.chain
  have hlist := Heap.nodes_append (r := []) hk hu
  rw [List.append_nil, ← A.free_split i, List.map_nil, List.append_nil] at hlist
  unfold Heap.FreeChain at hchain
  rw [hlist, chained_append_iff] at hchain
  refine ⟨y, by simp [hu], ?_, hchain.2.2.1, hchain.2.2.2, ?_⟩
  · apply Heap.isNode_of_mem (l := A.free) (fun j hj => hh.lt_of_free hj)
    rw [hlist]
    simp
  · intro j hj hij
    have hxmem : x ∈ h.head :: (A.free.filter (· < i)).map h.chunk := by
      rw [hk]
      simp
    rcases List.mem_cons.mp hxmem with rfl | hxmem
    · apply hh.placed.head_ne_chunk hj
    · obtain ⟨l, hl, rfl⟩ := List.mem_map.mp hxmem
      have hlt := List.of_mem_filter hl
      simp only [decide_eq_true_eq] at hlt
      rw [ne_eq, Heap.chunk_inj]
      omega

/-- `relink` of a chunk that holds the count zero only discounts the size in its header. -/
theorem relinkBehind_zero {i : ℕ} (hi : i < h.chunkMax)
    (hcount : get .count h.mem (h.chunk i) = 0)
    {k : List ℕ} {x : ℕ} (hk : h.head :: (A.free.filter (· < i)).map h.chunk = k ++ [x]) :
  relinkBehind h (h.chunk i) x = h.discount (h.chunk i)
  := by
  obtain ⟨y, -, hx, rfl, hprev, hne⟩ := ht.before_gap i hk
  apply ht.holds.placed.relinkBehind_zero hi hx (hne i hi le_rfl) hcount hprev

/-- `kfree_no_lock` of a free chunk only discounts the size in its header. -/
theorem kfreeNoLock_free (hc : h.Cleared live) {i : ℕ} (hi : i ∈ A.free) :
  Returns (Kmalloc.kfreeNoLock (h.chunk i + 32) h) (h.discount (h.chunk i))
  := by
  have hlt := ht.holds.lt_of_free hi
  have hcount := hc i hlt ((ht.mem_free_iff hlt).mp hi)
  obtain ⟨k, x, y, u, hk, -⟩ := h.exists_gap (A.free.filter (· < i)) []
  rw [← ht.relinkBehind_zero hlt hcount hk]
  apply ht.holds.kfreeNoLock_returns hlt hk

end Heap.Tracks

/-- `kfree_no_lock` of a pointer whose header lies outside the pool does nothing, if the address of
a chunk before the end of the pool does not wrap around. -/
theorem Heap.Outside.kfreeNoLock (hp : h.Placed) (hlast : 32 ≤ h.pool + 32 * h.chunkMax) {ptr : ℕ}
    (hout : h.Outside ptr) :
  Returns (Kmalloc.kfreeNoLock ptr h) h
  := by
  have hend := hp.pool_end
  unfold Heap.Outside at hout
  have hguard : Word.sub ptr sizeofInfo < h.pool
      ∨ Word.sub (Word.add h.pool (sizeofChunk * h.chunkMax)) sizeofChunk
        < Word.sub ptr sizeofInfo := by
    have hadd : Word.add h.pool (sizeofChunk * h.chunkMax) = h.pool + 32 * h.chunkMax :=
      Word.add_of_lt hend
    rw [hadd, Word.sub_of_le hend (by simp only [sizeofChunk]; omega)]
    simp only [sizeofChunk] at hout ⊢
    omega
  use 0
  unfold Kmalloc.kfreeNoLock relink
  simp only [if_pos hguard, ite_self]

/-- The total is a word in every state of a run. -/
theorem Run.total_lt (hrun : Run P h lock live) :
  h.totalAllocated < 2 ^ 64
  := by
  rcases hrun.tracks.2 with ⟨hf, -⟩ | ⟨N, A, ht⟩
  · rw [hf.total]
    decide
  · rw [ht.holds.total]
    apply Nat.mod_lt
    decide

theorem Run.placed (hrun : Run P h lock live) :
  h.Placed
  := by
  rcases hrun.tracks.2 with ⟨hf, -⟩ | ⟨N, A, ht⟩
  · apply hf.placed
  · apply ht.holds.placed

/-- In every state of a run, `kfree` of a pointer whose header is outside the pool or a free
chunk returns and writes nothing to the memory. It leaves the heap as it was, and the total
too, exactly when the header is outside the pool or holds the size zero. -/
theorem Run.kfree_bad_iff (hrun : Run (fun _ => True) h lock live)
    (hlast : 32 ≤ h.pool + 32 * h.chunkMax) {ptr : ℕ} (hptr : ptr < 2 ^ 64)
    (hbad : h.Outside ptr ∨ h.Freed live ptr) :
  ∃ h', Returns (alone heapActs (Kmalloc.kfree ptr) h lock) ((), h', lock)
    ∧ h'.mem = h.mem
    ∧ (h' = h ↔ h.Outside ptr ∨ get .size h.mem (Word.sub ptr sizeofInfo) = 0)
    ∧ (getTotalKMallocated h' = getTotalKMallocated h
        ↔ h.Outside ptr ∨ get .size h.mem (Word.sub ptr sizeofInfo) = 0)
  := by
  have hp := hrun.placed
  by_cases hout : h.Outside ptr
  · use h, Kmalloc.kfree_returns hrun.tracks.1 (hout.kfreeNoLock hp hlast)
    simp [hout]
  · obtain ⟨hinit, i, hi, hheader, hfree⟩ := hbad.resolve_left hout
    have hend := hp.chunk_lt (i := i + 1) (by omega)
    rw [h.chunk_succ] at hend
    obtain rfl : ptr = h.chunk i + 32 := by
      simp only [Word.sub, sizeofInfo] at hheader
      omega
    rcases hrun.tracks.2 with ⟨hf, -⟩ | ⟨N, A, ht⟩
    · have hready := hf.ready
      rw [hready] at hinit
      cases hinit
    · have hret := ht.kfreeNoLock_free (hrun.cleared hinit) ((ht.mem_free_iff hi).mpr hfree)
      have hret := Kmalloc.kfree_returns hrun.tracks.1 hret
      refine ⟨h.discount (h.chunk i), hret, h.discount_mem _, ?_⟩
      rw [Heap.discount_total_iff hrun.total_lt, Heap.discount_eq_iff hrun.total_lt, hheader]
      simp [hout]

/-- The run on four chunks that allocates eight bytes and frees them, with the heaps before and
after. -/
theorem Run.four_freed :
  ∃ h₁ h₂ : Heap, Run (fun _ => True) h₁ ⟨7, 1, false⟩ [⟨4096, 2, 8⟩]
    ∧ Returns (kfreeNoLock 4128 h₁) h₂ ∧ Run (fun _ => True) h₂ ⟨7, 1, false⟩ []
    ∧ h₂.Freed [] 4128 ∧ h₂.chunkMax = 4 ∧ h₂.pool = 4096 ∧ h₂.totalAllocated = 0
    ∧ get .size h₂.mem 4096 = 8
  := by
  obtain ⟨⟨ptr, h₁⟩, hr₁⟩ : ∃ r, kmallocNoLock 8 Heap.four 10 = some r :=
    Option.isSome_iff_exists.mp (by decide +kernel)
  have hshape : ((kmallocNoLock 8 Heap.four 10).bind fun r =>
      (kfreeNoLock 4128 r.2 10).map fun h => (r.1, h.initialized, h.chunkMax, h.pool,
        h.totalAllocated, get .size h.mem 4096)) = some (4128, true, 4, 4096, 0, 8) := by
    decide +kernel
  rw [hr₁, Option.bind_some, Option.map_eq_some_iff] at hshape
  obtain ⟨h₂, hr₂, hshape⟩ := hshape
  simp only [Prod.mk.injEq] at hshape
  obtain ⟨rfl, hinit, hmax, hpool, htotal, hsize⟩ := hshape
  have hcount : Returns (chunkCount 8) 2 := ⟨10, by decide⟩
  have hstart := Run.setMemoryPool (P := fun _ => True) Heap.four_pool Heap.four_placed
  have hrun := hstart.kmalloc (by decide) trivial hcount (Kmalloc.kmalloc_returns rfl ⟨10, hr₁⟩)
  have hrun' := hrun.kfree (b := ⟨4096, 2, 8⟩) (by decide) (Kmalloc.kfree_returns rfl ⟨10, hr₂⟩)
  have hfreed : h₂.Freed [] 4128 := by
    refine ⟨hinit, 0, by omega, ?_, by simp⟩
    rw [Heap.chunk, hpool]
    decide
  exact ⟨h₁, h₂, hrun, ⟨10, hr₂⟩, hrun', hfreed, hmax, hpool, htotal, hsize⟩

/-- Freeing the eight bytes a second time changes the heap. -/
theorem Run.four_freed_iff :
  ∃ h h' : Heap, h.Freed [] 4128
    ∧ Returns (alone heapActs (Kmalloc.kfree 4128) h ⟨7, 1, false⟩) ((), h', ⟨7, 1, false⟩)
    ∧ h' ≠ h
  := by
  obtain ⟨-, h, -, -, hrun, hfreed, hmax, hpool, -, hsize⟩ := Run.four_freed
  obtain ⟨h', hret, -, hiff, -⟩ := Run.kfree_bad_iff hrun (by omega) (by decide) (.inr hfreed)
  refine ⟨h, h', hfreed, hret, ?_⟩
  rw [ne_eq, hiff, Heap.Outside, hmax, hpool]
  have hheader : Word.sub 4128 sizeofInfo = 4096 := by decide
  rw [hheader, hsize]
  decide

/-- After the eight bytes have been freed the total is zero, and after they have been freed a
second time it is eight less than zero, wrapped around. -/
theorem Run.four_doubleFree :
  ∃ h₁ h₂ h₃ : Heap, Run (fun _ => True) h₁ ⟨7, 1, false⟩ [⟨4096, 2, 8⟩]
    ∧ Returns (alone heapActs (Kmalloc.kfree 4128) h₁ ⟨7, 1, false⟩) ((), h₂, ⟨7, 1, false⟩)
    ∧ h₂.Freed [] 4128
    ∧ Returns (alone heapActs (Kmalloc.kfree 4128) h₂ ⟨7, 1, false⟩) ((), h₃, ⟨7, 1, false⟩)
    ∧ getTotalKMallocated h₂ = 0 ∧ getTotalKMallocated h₃ = 2 ^ 64 - 8
  := by
  obtain ⟨h₁, h₂, hrun₁, hret, hrun₂, hfreed, hmax, hpool, htotal, hsize⟩ := Run.four_freed
  have hchunk : h₂.chunk 0 = 4096 := by rw [Heap.chunk, hpool]
  rcases hrun₂.tracks.2 with ⟨hf, -⟩ | ⟨N, A, ht⟩
  · have hready := hf.ready
    rw [hfreed.1] at hready
    cases hready
  · have hmem : 0 ∈ A.free := (ht.mem_free_iff (by omega)).mpr (by simp)
    have hret' := ht.kfreeNoLock_free (hrun₂.cleared hfreed.1) hmem
    rw [hchunk] at hret'
    refine ⟨h₁, h₂, h₂.discount 4096, hrun₁, Kmalloc.kfree_returns rfl hret, hfreed,
      Kmalloc.kfree_returns rfl hret', htotal, ?_⟩
    simp only [getTotalKMallocated, Heap.discount, htotal, hsize]
    decide

end Kmalloc
