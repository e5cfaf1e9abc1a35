import StandaloneSel4.Heap.Integrity

/-!
# First fit

`kmalloc` hands out a block exactly when the pool has enough free chunks one after the
other, and then the block starts where the first such stretch does. When there is none it
changes nothing, but that the first `kmalloc` of all makes the free list.
-/

namespace Kmalloc

open Fuel FirstFit Sync Arena

/-- The `n` chunks from `pool[i]` on are chunks of the pool that belong to no live block. -/
def Heap.FreeRun (h : Heap) (live : List Live) (n i : ℕ) : Prop :=
  i + n ≤ h.chunkMax ∧ ∀ j, i ≤ j → j < i + n → ∀ b ∈ live, ¬ b.Covers (h.chunk j)

variable {P : ℕ → Prop} {h h' : Heap} {live : List Live} {lock : BinSem}

@[simp]
theorem ensureInit_freeRun (h : Heap) (live : List Live) (n i : ℕ) :
  (ensureInit h).FreeRun live n i ↔ h.FreeRun live n i
  := by
  simp only [Heap.FreeRun, Heap.chunk, ensureInit_pool, ensureInit_chunkMax]

/-- The runs of the free positions are the stretches of free chunks. -/
theorem Heap.Tracks.isRun_iff {N : ℕ} {A : Arena N ℕ} (ht : h.Tracks P live A) {n i : ℕ}
    (hpos : 0 < n) :
  IsRun A.free n i ↔ h.FreeRun live n i
  := by
  constructor
  · intro hrun
    have hlast := ht.holds.lt_of_free (hrun (i + n - 1) (by omega) (by omega))
    constructor
    · omega
    · intro j hij hj
      apply (ht.mem_free_iff (by omega)).mp (hrun j hij hj)
  · rintro ⟨hend, hfree⟩ j hij hj
    apply (ht.mem_free_iff (by omega)).mpr (hfree j hij hj)

/-- In every state of a run, `kmalloc` returns when `chunk_count` does. What it returns is not
the null pointer exactly when there are enough free chunks one after the other, the block
then being the first such stretch; and with the null pointer it leaves the heap as it was,
but for the free list that the first `kmalloc` makes. -/
theorem Run.kmalloc_firstFit (hrun : Run (fun _ => True) h lock live) {size n : ℕ}
    (hsize : size < 2 ^ 64) (hn : Returns (chunkCount size) n) (hpos : 0 < n) :
  ∃ ptr h', Returns (alone heapActs (Kmalloc.kmalloc size) h lock) (ptr, h', lock)
    ∧ (ptr ≠ 0 ↔ ∃ i, h.FreeRun live n i)
    ∧ (ptr ≠ 0 → ∃ i, ptr = h.chunk i + 32 ∧ h.FreeRun live n i
        ∧ ∀ j, h.FreeRun live n j → i ≤ j)
    ∧ (ptr = 0 → h' = ensureInit h ∧ (h.initialized = true → h' = h)
        ∧ getTotalKMallocated h' = getTotalKMallocated h)
  := by
  obtain ⟨N, A, ht⟩ := hrun.ensureInit_tracks
  have hiff : ∀ i, IsRun A.free n i ↔ h.FreeRun live n i := by
    intro i
    rw [ht.isRun_iff hpos, ensureInit_freeRun]
  have hret : ∀ {ptr h'}, Returns (kmallocNoLock size (ensureInit h)) (ptr, h') →
      Returns (alone heapActs (Kmalloc.kmalloc size) h lock) (ptr, h', lock) := by
    intro ptr h' hr
    rw [kmallocNoLock_ensureInit] at hr
    apply Kmalloc.kmalloc_returns hrun.tracks.1 hr
  rcases ht.holds.kmallocNoLock_spec hsize hn with
    ⟨hr, hnone⟩ | ⟨t, h', -, ht', hr, -, -, hleast⟩
  · have hnone : ∀ i, ¬ h.FreeRun live n i := by
      intro i hi
      apply hnone.resolve_left (by omega) i
      apply (hiff i).mpr hi
    use 0, ensureInit h, hret hr
    and_intros
    · simp [hnone]
    · intro hne
      exact absurd rfl hne
    · intro _
      use rfl
      constructor
      · intro hinit
        rw [ensureInit, if_pos hinit]
      · unfold ensureInit
        split <;> rfl
  · have hne : (ensureInit h).chunk t + 32 ≠ 0 := by omega
    use (ensureInit h).chunk t + 32, h', hret hr
    and_intros
    · simp only [ne_eq, hne, not_false_eq_true, true_iff]
      use t
      apply (hiff t).mp ht'
    · intro _
      use t, by simp only [Heap.chunk, ensureInit_pool], (hiff t).mp ht'
      intro j hj
      apply hleast j ((hiff j).mpr hj)
    · intro hzero
      exact absurd hzero hne

/-- Of eight chunks, of which the third and the fourth are a live block, three are free from the
fifth on and not before. -/
theorem Heap.eight_freeRun_iff (hpool : h.pool = 4096) (hmax : h.chunkMax = 8) (i : ℕ) :
  h.FreeRun [⟨4160, 2, 8⟩] 3 i ↔ i = 4 ∨ i = 5
  := by
  simp only [Heap.FreeRun, Live.Covers, Heap.chunk, hpool, hmax, List.forall_mem_singleton]
  constructor
  · rintro ⟨hend, hfree⟩
    by_contra hnot
    have hlow := hfree (max i 2)
    have hhigh := hfree 3
    omega
  · intro hi
    refine ⟨by omega, fun j hij hj => ?_⟩
    omega

/-- Three chunks are handed out for forty bytes from the fifth on, although the first one is free,
as the two chunks there are not enough. -/
theorem Run.eight_firstFit :
  ∃ h, Run (fun _ => True) h ⟨7, 1, false⟩ [⟨4160, 2, 8⟩] ∧ h.FreeRun [⟨4160, 2, 8⟩] 2 0
    ∧ ∃ ptr h', Returns (alone heapActs (Kmalloc.kmalloc 40) h ⟨7, 1, false⟩)
        (ptr, h', ⟨7, 1, false⟩)
      ∧ ptr = 4256
  := by
  obtain ⟨h, -, hrun, hpool, hmax, -⟩ := Run.eight_filled (P := fun _ => True) trivial trivial
  have hcount : Returns (chunkCount 40) 3 := ⟨10, by decide⟩
  obtain ⟨ptr, h', hr, hiff, hfirst, -⟩ := Run.kmalloc_firstFit hrun (by decide) hcount (by decide)
  obtain ⟨i, rfl, hi, hleast⟩ :=
    hfirst (hiff.mpr ⟨4, (Heap.eight_freeRun_iff hpool hmax 4).mpr (.inl rfl)⟩)
  have hle := hleast 4 ((Heap.eight_freeRun_iff hpool hmax 4).mpr (.inl rfl))
  have hfour : i = 4 := by
    have heq := (Heap.eight_freeRun_iff hpool hmax i).mp hi
    omega
  refine ⟨h, hrun, ⟨by omega, fun j _ hj => ?_⟩, _, h', hr, ?_⟩
  · simp only [Live.Covers, Heap.chunk, hpool, List.forall_mem_singleton]
    omega
  · rw [hfour, Heap.chunk, hpool]

end Kmalloc
