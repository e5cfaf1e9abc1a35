import StandaloneSel4.Heap.Integrity
import StandaloneSel4.Server.Service

/-!
# The book of the heap

What the allocator hands out along a run, as those see it who get it: blocks that begin at the
pointers returned, are as long as they were asked for, and lie apart. The sizes are such that
`chunk_count` counts them without wrapping around.
-/

namespace Kmalloc

open Fuel Sync Service

/-- The size, with the header, is counted in chunks without wrapping around. -/
def Countable (size : ℕ) : Prop :=
  size + 64 ≤ 2 ^ 64

instance (size : ℕ) : Decidable (Countable size) :=
  inferInstanceAs (Decidable (_ ≤ _))

/-- A block as its owner sees it. -/
def Live.entry (b : Live) : ℕ × ℕ :=
  (b.header + 32, b.size)

/-- The live blocks as their owners see them. -/
def book (live : List Live) : Book :=
  live.map Live.entry

/-- The live blocks after `kfree` of a pointer. -/
def release (live : List Live) (ptr : ℕ) : List Live :=
  live.eraseP fun b => b.header + 32 = ptr

variable {P : ℕ → Prop} {h h' : Heap} {lock lock' : BinSem} {live : List Live} {size count ptr : ℕ}

/-- Nothing is taken out for the null pointer. -/
theorem release_null (live : List Live) :
  release live 0 = live
  := by
  apply List.eraseP_of_forall_not
  simp

theorem Countable.returns (hsize : Countable size) :
  ∃ count, Returns (chunkCount size) count
  := by
  unfold Countable at hsize
  use (Word.add size 32 + 31) / 32
  rw [chunkCount_returns_iff, Word.add_of_lt (by omega)]
  exact ⟨by omega, rfl⟩

/-- What the live blocks of a heap are like. -/
theorem Heap.Tracks.sizes_fit {N : ℕ} {A : Arena N ℕ} (ht : h.Tracks Countable live A) {b : Live}
    (hb : b ∈ live) :
  b.size + 32 ≤ 32 * b.count ∧ b.header + 32 * b.count < 2 ^ 64
  := by
  rw [ht.live, List.mem_map] at hb
  obtain ⟨c, hc, rfl⟩ := hb
  obtain ⟨hcountable, hcount⟩ := ht.counted c hc
  have hend := ht.holds.placed.pool_end
  have hinside := A.inside c hc
  rw [← ht.holds.max] at hinside
  unfold Countable at hcountable
  simp only [Heap.live, Heap.chunk]
  use le_of_chunkCount (by omega) hcount
  omega

/-- What `kmalloc` returns in a run is the null pointer, or begins a block that is new in the book
and lies apart from those in it. -/
theorem Run.kmalloc_serves (hrun : Run Countable h lock live) (hsize : Countable size)
    (hcount : Returns (chunkCount size) count)
    (hr : Returns (alone heapActs (Kmalloc.kmalloc size) h lock) (ptr, h', lock')) :
  Run Countable h' lock' (handOut live ptr count size)
    ∧ Serves (book live) (.request .kMalloc (Syscall.KMallocRequest.mk size)) (some ptr)
      (book (handOut live ptr count size))
  := by
  have hlt : size < 2 ^ 64 := by
    unfold Countable at hsize
    omega
  have hrun' := hrun.kmalloc hlt hsize hcount hr
  use hrun'
  obtain ⟨fuel, hr⟩ := hr
  rw [alone_kmalloc hrun.tracks.1, Option.map_eq_some_iff] at hr
  obtain ⟨⟨p, h''⟩, hr, heq⟩ := hr
  obtain ⟨rfl, rfl, rfl⟩ := heq
  obtain ⟨N, A, ht⟩ := hrun.ensureInit_tracks
  have hret : Returns (kmallocNoLock size (ensureInit h)) (p, h'') :=
    ⟨fuel, by rw [kmallocNoLock_ensureInit, hr]⟩
  rcases ht.kmallocNoLock hlt hsize hcount hret with
    ⟨rfl, -, -⟩ | ⟨t, hpos, hfree, rfl, -, ht'⟩
  · exact .noMemory
  · have htlt : t < (ensureInit h).chunkMax := ht.holds.lt_of_free (hfree t le_rfl (by omega))
    rw [handOut, if_neg (by omega), ht.holds.placed.sub_info htlt] at ht' ⊢
    have hself := ht'.sizes_fit List.mem_cons_self
    have happart := (List.pairwise_cons.mp ht'.intact.disjoint).1
    dsimp only at hself happart
    refine .kMalloc (by omega) (by omega) ?_
    intro e he
    obtain ⟨b, hb, rfl⟩ := List.mem_map.mp he
    have hfit := ht'.sizes_fit (List.mem_cons_of_mem _ hb)
    have hapart := happart b hb
    simp only [Live.entry]
    omega

/-- In a run two live blocks do not begin at the same place. -/
theorem Run.header_eq_iff (hrun : Run Countable h lock live) {b c : Live} (hb : b ∈ live)
    (hc : c ∈ live) :
  c.header = b.header ↔ c = b
  := by
  refine ⟨fun heq => ?_, congrArg Live.header⟩
  obtain ⟨N, A, ht⟩ := hrun.ensureInit_tracks
  by_contra hne
  have hsymm : Std.Symm fun b c : Live =>
      b.header + 32 * b.count ≤ c.header ∨ c.header + 32 * c.count ≤ b.header :=
    ⟨fun _ _ => Or.symm⟩
  have hapart := ht.intact.disjoint.forall hc hb hne
  have hposb := (ht.intact.inside b hb).1
  have hposc := (ht.intact.inside c hc).1
  omega

/-- The block that is given back is taken out of the live ones, and out of the book. -/
theorem Run.release_eq (hrun : Run Countable h lock live) {b : Live} (hb : b ∈ live) :
  release live (b.header + 32) = live.erase b
    ∧ book (release live (b.header + 32)) = (book live).erase b.entry
  := by
  constructor
  · apply eraseP_eq_erase
    · exact decide_eq_true rfl
    intro c hc heq
    rw [← hrun.header_eq_iff hb hc]
    simpa using heq
  · have hmap : book (release live (b.header + 32))
        = (book live).eraseP fun e => e.1 = b.header + 32 := by
      rw [book, book, release, List.eraseP_map]
      rfl
    rw [hmap]
    apply eraseP_eq_erase
    · exact decide_eq_true rfl
    intro e he heq
    obtain ⟨c, hc, rfl⟩ := List.mem_map.mp he
    congr 1
    rw [← hrun.header_eq_iff hb hc]
    simpa [Live.entry] using heq

/-- No block begins at the null pointer. -/
theorem ne_zero_of_mem_book {e : ℕ × ℕ} (he : e ∈ book live) :
  e.1 ≠ 0
  := by
  obtain ⟨b, -, rfl⟩ := List.mem_map.mp he
  apply Nat.succ_ne_zero

/-- The blocks in the book lie apart. -/
theorem Run.disjoint_book (hrun : Run Countable h lock live) :
  (book live).Disjoint
  := by
  obtain ⟨N, A, ht⟩ := hrun.ensureInit_tracks
  apply List.pairwise_map.mpr
  apply ht.intact.disjoint.imp_of_mem
  intro b c hb hc happart
  have hposb := (ht.intact.inside b hb).1
  have hposc := (ht.intact.inside c hc).1
  have hfitb := ht.sizes_fit hb
  have hfitc := ht.sizes_fit hc
  simp only [Live.entry]
  omega

/-- `kfree` of the null pointer leaves the heap as it is. -/
theorem Run.kfree_null (hrun : Run Countable h lock live) :
  Returns (alone heapActs (Kmalloc.kfree 0) h lock) ((), h, lock)
  := Kmalloc.kfree_returns hrun.tracks.1 ⟨0, if_pos rfl⟩

/-- `kfree` returns for the null pointer and for the pointer of a block. -/
theorem Run.kfree_ends (hrun : Run Countable h lock live)
    (hptr : ptr = 0 ∨ ∃ b ∈ live, ptr = b.header + 32) :
  ∃ h', Returns (alone heapActs (Kmalloc.kfree ptr) h lock) ((), h', lock)
  := by
  rcases hptr with rfl | ⟨b, hb, rfl⟩
  · exact ⟨h, hrun.kfree_null⟩
  · exact hrun.kfree_returns hb

/-- It takes the block out of the book. -/
theorem Run.kfree_serves (hrun : Run Countable h lock live)
    (hptr : ptr = 0 ∨ ∃ b ∈ live, ptr = b.header + 32)
    (hr : Returns (alone heapActs (Kmalloc.kfree ptr) h lock) ((), h', lock')) :
  Run Countable h' lock' (release live ptr)
    ∧ Serves (book live) (.request .kFree (Syscall.KFreeRequest.mk ptr)) (some 0)
      (book (release live ptr))
  := by
  rcases hptr with rfl | ⟨b, hb, rfl⟩
  · obtain ⟨-, rfl, rfl⟩ := Prod.mk.inj (alone_unique hr hrun.kfree_null)
    rw [release_null]
    exact ⟨hrun, .kFreeNull⟩
  · obtain ⟨hlive, hbook⟩ := hrun.release_eq hb
    rw [hbook, hlive]
    use hrun.kfree hb hr
    exact .kFree (List.mem_map_of_mem hb)

end Kmalloc
