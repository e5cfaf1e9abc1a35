import StandaloneSel4.Heap.Search
import StandaloneSel4.Lib.Arena

/-!
# The heap holds an arena

The abstract state of the allocator is an arena: its positions are the chunks of the pool,
its blocks the blocks handed out and not freed since, labelled by the sizes asked for. The
heap holds an arena when its free list is the list of the free positions, the headers of
the blocks hold their lengths and sizes, and the total is that of the sizes. `init` makes
the heap hold the empty arena; `kmalloc_no_lock` takes the first stretch of free positions
that is long enough, `kfree_no_lock` gives a block back, and what the clients write to
their blocks changes nothing.
-/

namespace Kmalloc

open Bytes Fuel Linked FirstFit Arena

variable {N : ℕ}

/-- The sum of the sizes asked for. -/
def sizes (l : List (Arena.Block ℕ)) : ℕ :=
  (l.map Block.tag).sum

/-- The heap holds the blocks of the arena, and all other chunks of the pool are in its
free list. -/
structure Heap.Holds (h : Heap) (A : Arena N ℕ) : Prop where
  max : h.chunkMax = N
  placed : h.Placed
  ready : h.initialized = true
  chain : h.FreeChain A.free
  count : ∀ b ∈ A.live, get .count h.mem (h.chunk b.start) = b.len
  size : ∀ b ∈ A.live, get .size h.mem (h.chunk b.start) = b.tag
  total : h.totalAllocated = sizes A.live % 2 ^ 64

variable {h : Heap} {A : Arena N ℕ}

/-- `init` makes the heap hold the empty arena. -/
theorem Heap.Placed.init_holds (hp : h.Placed) (htotal : h.totalAllocated = 0) :
  (init h).Holds (Arena.empty h.chunkMax ℕ)
  where
  max := rfl
  placed := ⟨hp.1, hp.2, hp.3, hp.4, hp.5, hp.6⟩
  ready := rfl
  chain := by
    rw [free_empty]
    exact hp.init_freeChain
  count := by simp [Arena.empty]
  size := by simp [Arena.empty]
  total := htotal

namespace Heap.Holds

variable (hh : h.Holds A)

include hh

theorem lt_of_free {i : ℕ} (hi : i ∈ A.free) :
  i < h.chunkMax
  := by
  rw [hh.max]
  rw [mem_free] at hi
  exact hi.1

theorem start_lt {b : Block ℕ} (hb : b ∈ A.live) :
  b.start < h.chunkMax
  := by
  have hpos := A.pos b hb
  have hin := A.inside b hb
  rw [hh.max]
  omega

/-! ### Allocating -/

section

variable {t n : ℕ} (hrun : IsRun A.free n t)

include hrun

/-- The free positions before a stretch of them, the stretch, and those behind it are positions
of chunks of the pool. -/
theorem lt_of_split :
  ∀ i ∈ A.free.filter (· < t) ++ List.range' t n ++ A.free.filter (t + n ≤ ·), i < h.chunkMax
  := by
  intro i hi
  rw [← eq_append_of_isRun A.free_sorted hrun] at hi
  apply hh.lt_of_free hi

/-- They are the free list. -/
theorem chain_split :
  h.FreeChain (A.free.filter (· < t) ++ List.range' t n ++ A.free.filter (t + n ≤ ·))
  := by
  rw [← eq_append_of_isRun A.free_sorted hrun]
  exact hh.chain

end

/-- `unlink` on a stretch of free positions takes it as a block. -/
theorem unlink {t n size : ℕ} (hn : 0 < n) (hrun : IsRun A.free n t) (hsize : size < 2 ^ 64) :
  (unlink h (h.chunk t) n size).1 = h.chunk t + 32
    ∧ (Kmalloc.unlink h (h.chunk t) n size).2.Holds (A.take ⟨t, n, size⟩ hn hrun)
  := by
  have hp := hh.placed
  have hsplit := eq_append_of_isRun A.free_sorted hrun
  have hmem := hh.lt_of_split hrun
  have hchain := hh.chain_split hrun
  have hnodup := A.free_sorted.imp (fun h => Nat.ne_of_lt h)
  rw [hsplit] at hnodup
  have hother : ∀ b ∈ A.live, b.start ≠ t := by
    rintro b hb rfl
    have hcov := (A.mem_free _).mp (hrun b.start le_rfl (by omega))
    apply hcov.2 b hb
    have hpos := A.pos b hb
    constructor <;> omega
  obtain ⟨hcount, hsz⟩ := hp.unlink_header hn hmem hchain hsize
  obtain ⟨k, x, y, u, hk, hu⟩ := h.exists_gap (A.free.filter (· < t)) (A.free.filter (t + n ≤ ·))
  obtain ⟨heq, -, -⟩ := hp.unlink_eq hn hmem hchain hk hu size
  constructor
  · rw [heq]
  constructor
  · rw [← hh.max]
    rfl
  · exact ⟨hp.1, hp.2, hp.3, hp.4, hp.5, hp.6⟩
  · exact hh.ready
  · rw [A.free_take ⟨t, n, size⟩ hn hrun hsplit]
    apply hp.unlink_freeChain hn hmem hnodup hchain
  · intro b hb
    rcases List.mem_cons.mp hb with rfl | hb
    · exact hcount
    · rw [← hh.count b hb]
      apply (hp.unlink_other hn hmem hchain size (hh.start_lt hb) (hother b hb)).1
  · intro b hb
    rcases List.mem_cons.mp hb with rfl | hb
    · exact hsz
    · rw [← hh.size b hb]
      apply (hp.unlink_other hn hmem hchain size (hh.start_lt hb) (hother b hb)).2
  · rw [heq]
    simp only [live_take, sizes, List.map_cons, List.sum_cons, hh.total, Word.add]
    omega

/-- What the search of `kmalloc_no_lock` finds is what the walk along the free positions finds. -/
theorem search_returns (n : ℕ) :
  Returns (fun fuel => loop (searchRound h n) fuel
      ⟨get .next h.mem h.head, 0, get .next h.mem h.head⟩)
    ((firstRun n (A.free.headD 0) 0 A.free).map h.chunk)
  := by
  have hp := hh.placed
  have hlen : A.free.length < 2 ^ 64 := by
    have hend := hp.pool_end
    have hle := List.length_filter_le (fun i => ∀ b ∈ A.live, ¬ b.Covers i) (List.range N)
    rw [List.length_range] at hle
    have hmax := hh.max
    simp only [Arena.free]
    omega
  have hfirst : get .next h.mem h.head = (A.free.map h.chunk).headD h.tail := by
    have hchain := hh.chain
    unfold Heap.FreeChain at hchain
    cases hfree : A.free with
    | nil =>
        rw [hfree] at hchain
        exact (List.isChain_cons_cons.mp hchain).1.1
    | cons a l =>
        rw [hfree] at hchain
        exact (List.isChain_cons_cons.mp hchain).1.1
  have hchain : Chained (get .next h.mem) (get .prev h.mem) (A.free.map h.chunk ++ [h.tail]) := by
    have hchain := hh.chain
    apply List.IsChain.tail hchain
  have hsearch : Returns
      (fun fuel => loop (searchRound h n) fuel
        ⟨(A.free.map h.chunk).headD h.tail, 0, get .next h.mem h.head⟩)
      ((firstRun n (A.free.headD 0) 0 A.free).map h.chunk) := by
    apply hp.search_returns
    · intro i hi
      apply hh.lt_of_free hi
    · exact hchain
    · rw [hfirst]
      cases hfree : A.free with
      | nil => simp
      | cons a l => simp
    · omega
  rwa [← hfirst] at hsearch

/-- So what it finds is the first stretch of free positions that is long enough. -/
theorem search_cases (n : ℕ) :
  (Returns (fun fuel => loop (searchRound h n) fuel
        ⟨get .next h.mem h.head, 0, get .next h.mem h.head⟩) none
      ∧ (n = 0 ∨ ∀ t, ¬ IsRun A.free n t))
    ∨ ∃ t, 0 < n ∧ IsRun A.free n t ∧ (∀ s, IsRun A.free n s → t ≤ s)
        ∧ Returns (fun fuel => loop (searchRound h n) fuel
          ⟨get .next h.mem h.head, 0, get .next h.mem h.head⟩) (some (h.chunk t))
  := by
  have hret := hh.search_returns n
  have hhead : ∀ a ∈ A.free.head?, a = A.free.headD 0 := by
    cases A.free <;> simp
  rcases Nat.eq_zero_or_pos n with rfl | hpos
  · left
    rw [firstRun_zero] at hret
    exact ⟨hret, .inl rfl⟩
  · cases hfound : firstRun n (A.free.headD 0) 0 A.free with
    | none =>
        left
        rw [hfound] at hret
        use hret
        right
        apply firstRun_none A.free_sorted hpos hhead hfound
    | some t =>
        right
        obtain ⟨hrun, hleast⟩ := firstRun_some A.free_sorted hpos hhead hfound
        rw [hfound] at hret
        exact ⟨t, hpos, hrun, hleast, hret⟩

/-- `kmalloc_no_lock` does what it does with what its search finds. -/
theorem kmallocNoLock_returns {size n : ℕ} {found : Option ℕ} (hn : Returns (chunkCount size) n)
    (hfound : Returns (fun fuel => loop (searchRound h n) fuel
      ⟨get .next h.mem h.head, 0, get .next h.mem h.head⟩) found) :
  Returns (kmallocNoLock size h) (takeFound h n size found)
  := by
  have hinit : ensureInit h = h := by rw [ensureInit, if_pos hh.ready]
  unfold kmallocNoLock
  rw [hinit]
  apply Returns.bind (chunkCount_stable size)
    (fun chunks => (loop_stable (searchRound h chunks) _).map _) hn
  apply hfound.map

/-- `kmalloc_no_lock` hands the first stretch of free positions that is as long as it needs
to `unlink`, or gives the null pointer where there is none or it needs none. -/
theorem kmallocNoLock_cases {size n : ℕ} (hn : Returns (chunkCount size) n) :
  (Returns (kmallocNoLock size h) (0, h) ∧ (n = 0 ∨ ∀ t, ¬ IsRun A.free n t))
    ∨ ∃ t, 0 < n ∧ IsRun A.free n t ∧ (∀ s, IsRun A.free n s → t ≤ s)
        ∧ Returns (kmallocNoLock size h) (Kmalloc.unlink h (h.chunk t) n size)
  := by
  rcases hh.search_cases n with ⟨hfound, hnone⟩ | ⟨t, hpos, hrun, hleast, hfound⟩
  · exact .inl ⟨hh.kmallocNoLock_returns hn hfound, hnone⟩
  · exact .inr ⟨t, hpos, hrun, hleast, hh.kmallocNoLock_returns hn hfound⟩

/-- `kmalloc_no_lock` takes the first stretch of free positions that is as long as it
needs, or gives the null pointer where there is none or it needs none. -/
theorem kmallocNoLock_spec {size n : ℕ} (hsize : size < 2 ^ 64)
    (hn : Returns (chunkCount size) n) :
  (Returns (kmallocNoLock size h) (0, h) ∧ (n = 0 ∨ ∀ t, ¬ IsRun A.free n t))
    ∨ ∃ t h', ∃ (hpos : 0 < n) (hrun : IsRun A.free n t),
        Returns (kmallocNoLock size h) (h.chunk t + 32, h')
          ∧ h'.Holds (A.take ⟨t, n, size⟩ hpos hrun) ∧ h'.pool = h.pool
          ∧ ∀ s, IsRun A.free n s → t ≤ s
  := by
  rcases hh.kmallocNoLock_cases hn with hnone | ⟨t, hpos, hrun, hleast, hret⟩
  · exact .inl hnone
  · right
    obtain ⟨hptr, hholds⟩ := hh.unlink hpos hrun hsize
    use t, (Kmalloc.unlink h (h.chunk t) n size).2, hpos, hrun
    rw [← hptr]
    exact ⟨hret, hholds, rfl, hleast⟩

/-! ### Freeing -/

/-- `relink` does not take a chunk of the pool for an address outside it, and finds the free
chunk before it. -/
theorem relink_returns {s : ℕ} (hs : s < h.chunkMax) {k : List ℕ} {x : ℕ}
    (hk : h.head :: (A.free.filter (· < s)).map h.chunk = k ++ [x]) :
  Returns (relink h (h.chunk s)) (relinkBehind h (h.chunk s) x)
  := by
  have hp := hh.placed
  have hend := hp.pool_end
  have hguard : ¬ (h.chunk s < h.pool
      ∨ Word.sub (Word.add h.pool (sizeofChunk * h.chunkMax)) sizeofChunk < h.chunk s) := by
    simp only [Heap.chunk, sizeofChunk]
    rw [Word.add_of_lt (by omega), Word.sub_of_le (by omega) (by omega)]
    omega
  have hsplit := A.free_split s
  have hsearch : Returns (fun fuel => loop (relinkRound h (h.chunk s)) fuel h.head) x := by
    apply hp.relink_search _ _ _ _ hk
    · exact A.free.filter (s ≤ ·)
    · rw [← hsplit]
      intro i hi
      apply hh.lt_of_free hi
    · rw [← hsplit]
      exact hh.chain
    · intro i hi
      simp only [List.mem_filter, decide_eq_true_eq] at hi
      simp only [Heap.chunk]
      omega
    · intro i hi
      have hi := List.mem_of_mem_head? hi
      simp only [List.mem_filter, decide_eq_true_eq] at hi
      simp only [Heap.chunk]
      omega
  unfold relink
  simp only [if_neg hguard]
  apply hsearch.map

/-- `kfree_no_lock` has the chunk before its pointer linked behind the free chunk before
that. -/
theorem kfreeNoLock_returns {s : ℕ} (hs : s < h.chunkMax) {k : List ℕ} {x : ℕ}
    (hk : h.head :: (A.free.filter (· < s)).map h.chunk = k ++ [x]) :
  Returns (kfreeNoLock (h.chunk s + 32) h) (relinkBehind h (h.chunk s) x)
  := by
  unfold kfreeNoLock
  rw [hh.placed.sub_info hs]
  simp only [if_neg (show h.chunk s + 32 ≠ 0 by omega)]
  apply hh.relink_returns hs hk

/-- Where `relink` starts from when it is given a live block: the free chunks before the block
and those after it. -/
theorem relink_start {b : Block ℕ} (hb : b ∈ A.live) :
  (∀ i ∈ A.free.filter (· < b.start) ++ List.range' b.start b.len
        ++ A.free.filter (b.start ≤ ·), i < h.chunkMax)
    ∧ b.start ∉ A.free.filter (· < b.start)
    ∧ h.FreeChain (A.free.filter (· < b.start) ++ A.free.filter (b.start ≤ ·))
  := by
  and_intros
  · rw [← A.free_give hb, hh.max]
    intro i hi
    rw [mem_free] at hi
    exact hi.1
  · simp
  · rw [← A.free_split b.start]
    exact hh.chain

/-- A block linked back behind the free chunk before it is given back. -/
theorem relinkBehind_holds {b : Block ℕ} (hb : b ∈ A.live) {k u : List ℕ} {x y : ℕ}
    (hk : h.head :: (A.free.filter (· < b.start)).map h.chunk = k ++ [x])
    (hu : (A.free.filter (b.start ≤ ·)).map h.chunk ++ [h.tail] = y :: u) :
  (relinkBehind h (h.chunk b.start) x).Holds (A.give b)
  := by
  have hp := hh.placed
  have hpos := A.pos b hb
  have hcount := hh.count b hb
  have hgive := A.free_give hb
  obtain ⟨hmem, hnot, hchain⟩ := hh.relink_start hb
  have hnodup := (A.give b).free_sorted.imp (fun h => Nat.ne_of_lt h)
  rw [hgive] at hnodup
  have hother : ∀ c ∈ (A.give b).live, c ∈ A.live ∧
      get .count (relinkBehind h (h.chunk b.start) x).mem (h.chunk c.start)
        = get .count h.mem (h.chunk c.start)
      ∧ get .size (relinkBehind h (h.chunk b.start) x).mem (h.chunk c.start)
        = get .size h.mem (h.chunk c.start) := by
    intro c hc
    obtain ⟨hc, hap⟩ := A.apart_of_mem_give hb hc
    have hcpos := A.pos c hc
    use hc
    apply hp.relinkBehind_other hpos hmem hnot hchain hcount hk hu (hh.start_lt hc)
    rw [List.mem_range'_1]
    unfold Block.Apart at hap
    omega
  have heq := hp.relinkBehind_eq hmem hpos hnot hchain hcount hk hu
  constructor
  · rw [heq]
    exact hh.max
  · rw [heq]
    exact ⟨hp.1, hp.2, hp.3, hp.4, hp.5, hp.6⟩
  · rw [heq]
    exact hh.ready
  · rw [hgive]
    apply hp.relinkBehind_freeChain hpos hmem hnodup hchain hcount hk hu
  · intro c hc
    obtain ⟨hc, hc', -⟩ := hother c hc
    rw [← hh.count c hc, ← hc', heq]
    rfl
  · intro c hc
    obtain ⟨hc, -, hc'⟩ := hother c hc
    rw [← hh.size c hc, ← hc', heq]
    rfl
  · rw [heq]
    have hsum := List.sum_map_erase Block.tag hb
    have htag := get_lt .size h.mem (h.chunk b.start)
    simp only [hh.size b hb] at htag ⊢
    simp only [hh.total, live_give, sizes, Word.sub]
    omega

/-- `kfree_no_lock` gives a block back. -/
theorem kfreeNoLock_spec {b : Block ℕ} (hb : b ∈ A.live) :
  ∃ h', Returns (kfreeNoLock (h.chunk b.start + 32) h) h' ∧ h'.Holds (A.give b)
    ∧ h'.pool = h.pool
  := by
  obtain ⟨k, x, y, u, hk, hu⟩ :=
    h.exists_gap (A.free.filter (· < b.start)) (A.free.filter (b.start ≤ ·))
  use relinkBehind h (h.chunk b.start) x
  and_intros
  · apply hh.kfreeNoLock_returns (hh.start_lt hb) hk
  · apply hh.relinkBehind_holds hb hk hu
  · apply relinkBehind_pool

/-! ### What the clients write -/

variable {m : Mem}
  (hm : ∀ a, (∀ b ∈ A.live, ¬ (h.chunk b.start + 32 ≤ a ∧ a < h.chunk b.start + 32 * b.len)) →
    m a = h.mem a)

include hm

/-- A chunk that is outside the pool, or in no live block but as its first, is not written. -/
theorem get_write {c : ℕ} (hc : h.IsNode c)
    (hchunk : ∀ i < h.chunkMax, c = h.chunk i →
      ∀ b ∈ A.live, ¬ (b.start < i ∧ i < b.start + b.len)) (f : Field) :
  get f m c = get f h.mem c
  := by
  have hhead := hh.placed.head_pool
  have htail := hh.placed.tail_pool
  have hmax := hh.max
  apply get_congr
  intro a hca hac
  apply hm
  rintro b hb ⟨hlo, hhi⟩
  have hin := A.inside b hb
  simp only [Heap.chunk] at hlo hhi
  rcases hc with rfl | rfl | ⟨i, hi, rfl⟩
  · omega
  · omega
  · apply hchunk i hi rfl b hb
    simp only [Heap.chunk] at hca hac
    omega

/-- The chunks of the free list are not written. -/
theorem get_write_free {c : ℕ} (hc : c ∈ h.head :: A.free.map h.chunk ++ [h.tail]) (f : Field) :
  get f m c = get f h.mem c
  := by
  have hp := hh.placed
  apply hh.get_write hm (Heap.isNode_of_mem (fun i hi => hh.lt_of_free hi) hc)
  rintro i hi rfl b hb ⟨hlo, hhi⟩
  rw [List.cons_append, List.mem_cons, List.mem_append, List.mem_map, List.mem_singleton] at hc
  rcases hc with hc | ⟨j, hj, hc⟩ | hc
  · exact hp.head_ne_chunk hi hc.symm
  · obtain rfl := Heap.chunk_inj.mp hc
    rw [mem_free] at hj
    exact hj.2 b hb ⟨by omega, hhi⟩
  · exact hp.tail_ne_chunk hi hc.symm

/-- The headers of the live blocks are not written. -/
theorem get_write_header {b : Block ℕ} (hb : b ∈ A.live) (f : Field) :
  get f m (h.chunk b.start) = get f h.mem (h.chunk b.start)
  := by
  apply hh.get_write hm (Heap.isNode_chunk (hh.start_lt hb))
  rintro i hi hbi c hc ⟨hlo, hhi⟩
  obtain rfl := Heap.chunk_inj.mp hbi
  have hne : b ≠ c := by
    rintro rfl
    omega
  have hap := A.apart_of_mem hb hc hne
  have hpos := A.pos b hb
  unfold Block.Apart at hap
  omega

/-- What is written to chunks of live blocks other than their first changes nothing. -/
theorem write :
  { h with mem := m }.Holds A
  := by
  have hp := hh.placed
  constructor
  · exact hh.max
  · exact ⟨hp.1, hp.2, hp.3, hp.4, hp.5, hp.6⟩
  · exact hh.ready
  · apply hh.chain.congr
    · intro a ha
      apply hh.get_write_free hm (List.dropLast_subset _ ha)
    · intro a ha
      apply hh.get_write_free hm (List.mem_of_mem_tail ha)
  · intro b hb
    rw [← hh.count b hb]
    apply hh.get_write_header hm hb
  · intro b hb
    rw [← hh.size b hb]
    apply hh.get_write_header hm hb
  · exact hh.total

end Heap.Holds

end Kmalloc
