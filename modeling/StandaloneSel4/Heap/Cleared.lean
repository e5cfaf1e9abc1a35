import StandaloneSel4.Heap.Integrity

/-!
# The counts of the free chunks

Along every run, a chunk that belongs to no live block holds the count zero: `init` and
`relink` write it there, `unlink` writes the count of the chunk it hands out only, and the
clients write to their own blocks. The size in a chunk is never cleared.
-/

namespace Kmalloc

open Bytes Fuel Linked FirstFit Sync Arena

/-- The chunks of the pool in no live block hold the count zero. -/
def Heap.Cleared (h : Heap) (live : List Live) : Prop :=
  ∀ i < h.chunkMax, (∀ b ∈ live, ¬ b.Covers (h.chunk i)) → get .count h.mem (h.chunk i) = 0

variable {P : ℕ → Prop} {h h' : Heap} {live : List Live} {lock : BinSem}

/-- `init` writes the count zero to every chunk. -/
theorem Heap.Placed.init_cleared (hp : h.Placed) (live : List Live) :
  (init h).Cleared live
  := by
  intro i hi _
  have hpool : h.pool = h.chunk 0 := by simp [Heap.chunk]
  have hi : i < h.chunkMax := hi
  have hlast := hp.isNode_linkChunks (n := h.chunkMax) (i := 0) (by omega)
    (m := set .next h.mem h.head h.pool) Heap.isNode_head
  have hcount := hp.count_linkChunks (n := h.chunkMax) (i := 0) (by omega)
    (m := set .next h.mem h.head h.pool) (x := h.head) (Nat.zero_le i) (by omega)
  rw [← hpool] at hlast hcount
  have hlinked := hp.get_linkEnds hlast Heap.isNode_tail (Heap.isNode_chunk hi)
    (linkChunks h.chunkMax (set .next h.mem h.head h.pool) h.head h.pool).1
    (f := .count) (by decide) (by decide)
  apply hlinked.trans hcount

namespace Heap.Tracks

variable {N : ℕ} {A : Arena N ℕ} (ht : h.Tracks P live A)

include ht

/-- `unlink` writes to no header but that of the block it hands out. -/
theorem unlink_other {t n : ℕ} (hpos : 0 < n) (hrun : IsRun A.free n t) (size : ℕ) {i : ℕ}
    (hi : i < h.chunkMax) (hne : i ≠ t) :
  get .count (unlink h (h.chunk t) n size).2.mem (h.chunk i) = get .count h.mem (h.chunk i)
  := by
  have hmem := ht.holds.lt_of_split hrun
  have hchain := ht.holds.chain_split hrun
  exact (ht.holds.placed.unlink_other hpos hmem hchain size hi hne).1

/-- What `unlink` leaves in no block holds the count zero still. -/
theorem unlink_cleared (hc : h.Cleared live) {t n : ℕ} (hpos : 0 < n) (hrun : IsRun A.free n t)
    (size : ℕ) :
  (unlink h (h.chunk t) n size).2.Cleared (⟨h.chunk t, n, size⟩ :: live)
  := by
  intro i hi hfree
  obtain ⟨hnot, hfree⟩ := List.forall_mem_cons.mp hfree
  have hne : i ≠ t := by
    rintro rfl
    apply hnot
    simp only [Live.Covers, Heap.chunk, unlink]
    omega
  exact (ht.unlink_other hpos hrun size hi hne).trans (hc i hi hfree)

/-- What `relink` puts back holds the count zero. -/
theorem relinkBehind_cleared (hc : h.Cleared live) {b : Block ℕ} (hb : b ∈ A.live)
    {k u : List ℕ} {x y : ℕ}
    (hk : h.head :: (A.free.filter (· < b.start)).map h.chunk = k ++ [x])
    (hu : (A.free.filter (b.start ≤ ·)).map h.chunk ++ [h.tail] = y :: u) :
  (relinkBehind h (h.chunk b.start) x).Cleared (live.erase (h.live b))
  := by
  have hh := ht.holds
  have hp := hh.placed
  obtain ⟨hmem, hnot, hchain⟩ := hh.relink_start hb
  have hpos := A.pos b hb
  have hcount := hh.count b hb
  intro i hi hfree
  have hi : i < h.chunkMax := by
    rw [relinkBehind_chunkMax] at hi
    apply hi
  have hfree : ∀ c ∈ live.erase (h.live b), ¬ c.Covers (h.chunk i) := by
    simp only [Heap.chunk, relinkBehind_pool] at hfree
    apply hfree
  have hchunk : (relinkBehind h (h.chunk b.start) x).chunk i = h.chunk i := by
    simp only [Heap.chunk, relinkBehind_pool]
  rw [hchunk]
  by_cases hin : i ∈ List.range' b.start b.len
  · obtain ⟨hlo, hhi⟩ := List.mem_range'_1.mp hin
    have hinside := A.inside b hb
    rw [← hh.max] at hinside
    have hnode := Heap.isNode_gap hmem hk hu
    rw [hp.relinkBehind_eq hmem hpos hnot hchain hcount hk hu]
    have hlast := hp.isNode_linkChunks hinside (m := set .next h.mem x (h.chunk b.start))
      (hnode x (by simp))
    have hlinked := hp.get_linkEnds hlast (hnode y (by simp)) (Heap.isNode_chunk hi)
      (linkChunks b.len (set .next h.mem x (h.chunk b.start)) x (h.chunk b.start)).1
      (f := .count) (by decide) (by decide)
    apply hlinked.trans (hp.count_linkChunks hinside hlo hhi)
  · rw [(hp.relinkBehind_other hpos hmem hnot hchain hcount hk hu hi hin).1]
    apply hc i hi
    intro c hcl hcov
    by_cases heq : c = h.live b
    · subst heq
      apply hin
      apply List.mem_range'_1.mpr
      simp only [Live.Covers, Heap.live, Heap.chunk] at hcov
      omega
    · apply hfree c ((List.mem_erase_of_ne heq).mpr hcl) hcov

/-- What the clients write to their blocks leaves the counts of the free chunks. -/
theorem write_cleared (hc : h.Cleared live) {m : Mem}
    (hm : ∀ a, (∀ b ∈ live, ¬ b.Payload a) → m a = h.mem a) :
  { h with mem := m }.Cleared live
  := by
  have hm' : ∀ a, (∀ b ∈ A.live, ¬ (h.chunk b.start + 32 ≤ a ∧ a < h.chunk b.start + 32 * b.len)) →
      m a = h.mem a := by
    intro a ha
    apply hm
    rw [ht.live, List.forall_mem_map]
    apply ha
  intro i hi hfree
  have hmem := (ht.mem_free_iff hi).mpr hfree
  have hget := ht.holds.get_write_free hm'
    (List.mem_append_left _ (List.mem_cons_of_mem _ (List.mem_map_of_mem hmem))) .count
  apply hget.trans (hc i hi hfree)

/-- After `kmalloc_no_lock` the free chunks hold the count zero still. -/
theorem kmallocNoLock_cleared (hc : h.Cleared live) {size n ptr : ℕ}
    (hn : Returns (chunkCount size) n) (hr : Returns (Kmalloc.kmallocNoLock size h) (ptr, h')) :
  h'.Cleared (handOut live ptr n size)
  := by
  rcases ht.holds.kmallocNoLock_cases hn with ⟨hret, -⟩ | ⟨t, hpos, hrun, -, hret⟩
  · obtain ⟨rfl, rfl⟩ := Prod.mk.inj ((kmallocNoLock_stable size h).unique hr hret)
    apply hc
  · have heq := (kmallocNoLock_stable size h).unique hr hret
    have hlt : t < h.chunkMax := ht.holds.lt_of_free (hrun t le_rfl (by omega))
    have hptr : Word.add (h.chunk t) sizeofInfo = h.chunk t + 32 := by
      have hadd := ht.holds.placed.add_chunk hlt
      rw [h.chunk_succ] at hadd
      apply hadd
    have hcleared := ht.unlink_cleared hc hpos hrun size
    rw [← heq] at hcleared
    obtain rfl : ptr = h.chunk t + 32 := (congrArg Prod.fst heq).trans hptr
    rw [handOut, if_neg (by omega), ht.holds.placed.sub_info hlt]
    apply hcleared

/-- After `kfree_no_lock` of a live block the free chunks hold the count zero still. -/
theorem kfreeNoLock_cleared (hc : h.Cleared live) {b : Live} (hb : b ∈ live)
    (hr : Returns (Kmalloc.kfreeNoLock (b.header + 32) h) h') :
  h'.Cleared (live.erase b)
  := by
  have hb' := hb
  rw [ht.live, List.mem_map] at hb'
  obtain ⟨c, hcl, rfl⟩ := hb'
  obtain ⟨k, x, y, u, hk, hu⟩ :=
    h.exists_gap (A.free.filter (· < c.start)) (A.free.filter (c.start ≤ ·))
  have hret := ht.holds.kfreeNoLock_returns (ht.holds.start_lt hcl) hk
  obtain rfl := (kfreeNoLock_stable _ h).unique hr hret
  apply ht.relinkBehind_cleared hc hcl hk hu

end Heap.Tracks

/-- In every state of a run after `init` the free chunks hold the count zero. -/
theorem Run.cleared (hrun : Run P h lock live) (hinit : h.initialized = true) :
  h.Cleared live
  := by
  induction hrun with
  | setMemoryPool hpool hplaced =>
      simp only [Kmalloc.setMemoryPool, syncMutexInit_eq, Option.some.injEq, Prod.mk.injEq]
        at hpool
      obtain ⟨rfl, -⟩ := hpool
      cases hinit
  | @kmalloc h h' lock lock' live size n ptr hrun hsize hP hn hr ih =>
      obtain ⟨fuel, hr⟩ := hr
      rw [alone_kmalloc hrun.tracks.1, Option.map_eq_some_iff] at hr
      obtain ⟨⟨ptr, h'⟩, hr, heq⟩ := hr
      obtain ⟨rfl, rfl, rfl⟩ := heq
      obtain ⟨N, A, ht⟩ := hrun.ensureInit_tracks
      rw [← kmallocNoLock_ensureInit] at hr
      apply ht.kmallocNoLock_cleared _ hn ⟨fuel, hr⟩
      by_cases hready : h.initialized = true
      · rw [ensureInit, if_pos hready]
        apply ih hready
      · rw [ensureInit, if_neg hready]
        rcases hrun.tracks.2 with ⟨hf, -⟩ | ⟨N, A, ht⟩
        · apply hf.placed.init_cleared
        · exact absurd ht.holds.ready hready
  | kfree hrun hb hr ih =>
      obtain ⟨fuel, hr⟩ := hr
      rw [alone_kfree hrun.tracks.1, Option.map_eq_some_iff] at hr
      obtain ⟨h', hr, heq⟩ := hr
      obtain ⟨-, rfl, rfl⟩ := heq
      rcases hrun.tracks.2 with ⟨-, rfl⟩ | ⟨N, A, ht⟩
      · cases hb
      · apply ht.kfreeNoLock_cleared (ih ht.holds.ready) hb ⟨fuel, hr⟩
  | write hrun hm ih =>
      rcases hrun.tracks.2 with ⟨hf, -⟩ | ⟨N, A, ht⟩
      · have hready := hf.ready
        rw [hready] at hinit
        cases hinit
      · apply ht.write_cleared (ih ht.holds.ready) hm

end Kmalloc
