import StandaloneSel4.Heap.Realloc

/-!
# What the release of a header frees

`krealloc` releases the pointer to the header of the old block where it should release the
pointer behind it. `kfree` then takes the chunk before the block for the header. When that
chunk is outside the pool or holds the count zero nothing is freed; else chunks are linked
into the free list from that one on, which another block holds. In no case is it the old
block that is freed.
-/

namespace Kmalloc

open Bytes Fuel Linked FirstFit Sync Arena

/-! ### Linking any number of chunks -/

variable {n : ℕ} {m : Mem} {p c a : ℕ}

theorem prev_linkChunk_self (hp : p < 2 ^ 64) :
  get .prev (linkChunk m p c) c = p
  := by
  rw [linkChunk, get_set_of_ne (by decide), get_set_of_ne (by decide), get_set_self _ _ _ hp]

theorem get_linkChunk_of_apart (hap : Apart c a) (f : Field) :
  get f (linkChunk m p c) a = get f m a
  := by
  rw [linkChunk, get_set_of_apart hap, get_set_of_apart hap, get_set_of_apart hap]

/-- Addresses a multiple of the size of a chunk apart are those of one chunk or of two that do
not overlap. -/
theorem eq_or_apart_of_mod (hmod : c % 32 = a % 32) :
  c = a ∨ Apart c a
  := by
  unfold Apart
  omega

/-- A chunk linked back to the chunk before it stays so when chunks are linked one after the
other, even around the end of the addresses. -/
theorem prev_linkChunks (ha : 32 ≤ a) (halt : a < 2 ^ 64) (hc : c < 2 ^ 64)
    (hmod : c % 32 = a % 32) (hp : c = a → p = a - 32) (h : get .prev m a = a - 32) :
  get .prev (linkChunks n m p c).1 a = a - 32
  := by
  induction n generalizing m p c with
  | zero => apply h
  | succ n ih =>
      rw [linkChunks]
      apply ih
      · apply Nat.mod_lt
        decide
      · simp only [Word.add, sizeofChunk]
        omega
      · simp only [Word.add, sizeofChunk]
        omega
      · rcases eq_or_apart_of_mod hmod with rfl | hap
        · rw [prev_linkChunk_self (by omega), hp rfl]
        · rw [get_linkChunk_of_apart hap, h]

/-- The last of the chunks linked is a multiple of the size of a chunk away from the first. -/
theorem linkChunks_last_mod (hn : 0 < n) :
  (linkChunks n m p c).2 % 32 = c % 32
  := by
  induction n generalizing m p c with
  | zero => omega
  | succ n ih =>
      rw [linkChunks]
      rcases Nat.eq_zero_or_pos n with rfl | hpos
      · rfl
      · rw [ih hpos]
        simp only [Word.add, sizeofChunk]
        omega

/-- When two chunks or more are linked from a chunk on, the next one is linked back to it. -/
theorem prev_linkChunks_second (hc : c + 32 < 2 ^ 64) :
  get .prev (linkChunks (n + 2) m p c).1 (c + 32) = c
  := by
  have hnext : Word.add c sizeofChunk = c + 32 := Word.add_of_lt hc
  have hback : c = c + 32 - 32 := (Nat.add_sub_cancel c 32).symm
  rw [linkChunks, linkChunks, hnext]
  nth_rewrite 4 [hback]
  apply prev_linkChunks (by omega) hc (Nat.mod_lt _ (by decide))
  · simp only [sizeofChunk]
    omega
  · simp only [sizeofChunk]
    omega
  · rw [prev_linkChunk_self (by omega), Nat.add_sub_cancel]

/-- The chunks that are no ends are linked back as they were. -/
theorem prev_linkEnds {prev next : ℕ} (hprev : prev = a ∨ Apart prev a) (hnext : Apart next a) :
  get .prev (linkEnds m prev next) a = get .prev m a
  := by
  unfold linkEnds
  rw [get_set_of_apart hnext]
  rcases hprev with rfl | hap
  · rw [get_set_of_ne (by decide)]
  · rw [get_set_of_apart hap]

/-! ### The release -/

variable {P : ℕ → Prop} {h h' : Heap} {live : List Live} {lock : BinSem}

/-- In an intact heap the chunks linked back from `tail` and from the free chunks are `head` and
free chunks. -/
theorem Heap.Intact.prev_free (hi : h.Intact live) {z i : ℕ} (hp : h.Placed)
    (hz : z = h.tail ∨ ∃ j < h.chunkMax, z = h.chunk j ∧ ∀ b ∈ live, ¬ b.Covers (h.chunk j))
    (hlt : i < h.chunkMax) (hprev : get .prev h.mem z = h.chunk i) :
  ∀ b ∈ live, ¬ b.Covers (h.chunk i)
  := by
  obtain ⟨l, hchain, -, hmem⟩ := hi.free
  have hz : z ∈ l ++ [h.tail] := by
    rw [List.mem_append, List.mem_singleton]
    rcases hz with rfl | ⟨j, hj, rfl, hno⟩
    · exact .inr rfl
    · exact .inl ((hmem _).mpr ⟨⟨j, hj, rfl⟩, hno⟩)
  have hin := hchain.prev_mem hz
  rw [hprev] at hin
  rcases List.mem_cons.mp hin with heq | hin
  · exact absurd heq.symm (hp.head_ne_chunk hlt)
  · exact ((hmem _).mp hin).2

/-- `relink` changes the memory and the total only. -/
theorem exists_relinkBehind (h : Heap) (top prev : ℕ) :
  ∃ m total, relinkBehind h top prev = { h with mem := m, totalAllocated := total }
  := by
  unfold relinkBehind
  dsimp only
  split
  · exact ⟨h.mem, _, rfl⟩
  · exact ⟨_, _, rfl⟩

namespace Heap.Tracks

variable {N : ℕ} {A : Arena N ℕ} (ht : h.Tracks P live A)

include ht

/-- The other live blocks do not cover what a live block covers. -/
theorem not_covers_erase {b c : Live} (hb : b ∈ live) (hc : c ∈ live.erase b) {a : ℕ}
    (ha : b.Covers a) :
  ¬ c.Covers a
  := by
  rw [ht.live, List.mem_map] at hb
  obtain ⟨b, hb, rfl⟩ := hb
  rw [ht.live, ← List.map_erase h.live_injective, ← A.live_give, List.mem_map] at hc
  obtain ⟨c, hc, rfl⟩ := hc
  have hap := (A.apart_of_mem_give hb hc).2
  simp only [Live.Covers, Heap.live, Heap.chunk, Block.Apart] at ha hap ⊢
  omega

/-- With the memory as it is, a live block is not in the free list. -/
theorem not_intact_erase {b : Live} (hb : b ∈ live) (total : ℕ) :
  ¬ { h with totalAllocated := total }.Intact (live.erase b)
  := by
  intro hintact
  have hp := ht.holds.placed
  obtain ⟨l, hchain, -, hl⟩ := hintact.free
  have hchunk : ∀ i, { h with totalAllocated := total }.chunk i = h.chunk i := fun _ => rfl
  simp only [hchunk] at hchain hl
  have htail' : ∀ c ∈ l, c ≠ h.tail := by
    intro c hc
    obtain ⟨⟨i, hi, rfl⟩, -⟩ := (hl c).mp hc
    exact (hp.tail_ne_chunk hi).symm
  have hfree : ∀ c ∈ A.free.map h.chunk, c ≠ h.tail := by
    intro c hc
    obtain ⟨i, hi, rfl⟩ := List.mem_map.mp hc
    exact (hp.tail_ne_chunk (ht.holds.lt_of_free hi)).symm
  obtain rfl := hchain.unique ht.holds.chain (fun ht => htail' _ ht rfl)
    (fun ht => hfree _ ht rfl)
  -- the block is in the list that is to hold the chunks in no other block
  obtain ⟨s, hs, hpos, hend, -⟩ := ht.exists_start hb
  have hcov : b.Covers (h.chunk s) := by
    rw [← hs]
    constructor <;> omega
  have hin : h.chunk s ∈ A.free.map h.chunk := by
    apply (hl _).mpr
    use ⟨s, by omega, rfl⟩
    intro c hc
    apply ht.not_covers_erase hb hc hcov
  obtain ⟨i, hi, heq⟩ := List.mem_map.mp hin
  obtain rfl := Heap.chunk_inj.mp heq
  exact (ht.mem_free_iff (by omega)).mp hi b hb hcov

/-- What `relink` writes for a chunk of the pool, whatever count it holds. -/
theorem relinkBehind_mem {i : ℕ} (hi : i < h.chunkMax) {k : List ℕ} {x : ℕ}
    (hk : h.head :: (A.free.filter (· < i)).map h.chunk = k ++ [x]) :
  let r := linkChunks (get .count h.mem (h.chunk i)) (set .next h.mem x (h.chunk i)) x (h.chunk i)
  (relinkBehind h (h.chunk i) x).mem = linkEnds r.1 r.2 (get .next h.mem x)
  := by
  obtain ⟨y, -, hx, -, -, hne⟩ := ht.before_gap i hk
  have hcount : get .count (set .next h.mem x (h.chunk i)) (h.chunk i)
      = get .count h.mem (h.chunk i) :=
    ht.holds.placed.get_set_of_ne (Heap.isNode_chunk hi) hx (by decide) _ _
  intro r
  rw [relinkBehind, if_neg (hne i hi le_rfl)]
  simp only [hcount, r]

/-- When the chunk before a live block holds a count other than zero, its release has a chunk
that is free, or would be if that block were freed, linked back to it. -/
theorem relinkBehind_prev {b : Live} (hb : b ∈ live) {i : ℕ} (hheader : b.header = h.chunk (i + 1))
    (hcount : get .count h.mem (h.chunk i) ≠ 0) {k : List ℕ} {x : ℕ}
    (hk : h.head :: (A.free.filter (· < i)).map h.chunk = k ++ [x]) :
  ∃ z, (z = h.tail ∨ ∃ j < h.chunkMax, z = h.chunk j
        ∧ ∀ c ∈ live.erase b, ¬ c.Covers (h.chunk j))
    ∧ get .prev (relinkBehind h (h.chunk i) x).mem z = h.chunk i
  := by
  have hp := ht.holds.placed
  obtain ⟨s, hs, hpos, hend, -⟩ := ht.exists_start hb
  obtain rfl : i + 1 = s := Heap.chunk_inj.mp (hheader.symm.trans hs)
  have hi : i < h.chunkMax := by omega
  have hcov : b.Covers (h.chunk (i + 1)) := by
    rw [← hheader]
    constructor <;> omega
  obtain ⟨y, hy, hx, hnext, -, -⟩ := ht.before_gap i hk
  rw [ht.relinkBehind_mem hi hk, hnext]
  have hyfree : y = h.tail
      ∨ ∃ j < h.chunkMax, y = h.chunk j ∧ ∀ c ∈ live, ¬ c.Covers (h.chunk j) := by
    rw [List.mem_append, List.mem_map, List.mem_singleton] at hy
    rcases hy with ⟨j, hj, rfl⟩ | rfl
    · have hjlt := ht.holds.lt_of_free (List.mem_of_mem_filter hj)
      exact .inr ⟨j, hjlt, rfl, (ht.mem_free_iff hjlt).mp (List.mem_of_mem_filter hj)⟩
    · exact .inl rfl
  by_cases hone : get .count h.mem (h.chunk i) = 1
  · -- one chunk is linked, and the chunk after the gap back to it
    use y
    constructor
    · rcases hyfree with rfl | ⟨j, hj, rfl, hno⟩
      · exact .inl rfl
      · exact .inr ⟨j, hj, rfl, fun c hc => hno c (List.mem_of_mem_erase hc)⟩
    · rw [hone]
      simp only [linkChunks, linkEnds]
      apply get_set_self _ _ _ (hp.chunk_lt (by omega))
  · -- more are linked, and the second of them is the header of the block
    obtain ⟨n, hn⟩ := Nat.exists_eq_add_of_le' ((Nat.two_le_iff _).mpr ⟨hcount, hone⟩)
    have hap : Apart y (h.chunk (i + 1)) := by
      rcases hyfree with rfl | ⟨j, hj, rfl, hno⟩
      · apply (hp.eq_or_apart Heap.isNode_tail (Heap.isNode_chunk (by omega))).resolve_left
        apply hp.tail_ne_chunk (by omega)
      · apply (hp.eq_or_apart (Heap.isNode_chunk hj) (Heap.isNode_chunk (by omega))).resolve_left
        intro heq
        rw [Heap.chunk_inj.mp heq] at hno
        apply hno b hb hcov
    use h.chunk (i + 1)
    constructor
    · right
      use i + 1, by omega, rfl
      intro c hc
      apply ht.not_covers_erase hb hc hcov
    · have hlast := linkChunks_last_mod (n := n + 2)
        (m := set .next h.mem x (h.chunk i)) (p := x) (c := h.chunk i) (by omega)
      have hsecond := hp.chunk_lt (i := i + 1) (by omega)
      rw [h.chunk_succ] at hap hsecond ⊢
      rw [hn, prev_linkEnds (eq_or_apart_of_mod (hlast.trans (by omega))) hap,
        prev_linkChunks_second hsecond]

/-- `kfree_no_lock` of the pointer to the header of a live block returns: at once when the block
is the first of the pool, and else it puts the chunk before the block back. -/
theorem kfreeNoLock_header {b : Live} (hb : b ∈ live) :
  b.header = h.pool ∧ Returns (Kmalloc.kfreeNoLock b.header h) h
    ∨ ∃ i k x, b.header = h.chunk (i + 1) ∧ i < h.chunkMax
        ∧ h.head :: (A.free.filter (· < i)).map h.chunk = k ++ [x]
        ∧ Returns (Kmalloc.kfreeNoLock b.header h) (relinkBehind h (h.chunk i) x)
  := by
  have hp := ht.holds.placed
  have hend := hp.pool_end
  obtain ⟨s, hs, hpos, hlast, -⟩ := ht.exists_start hb
  cases s with
  | zero =>
      left
      have hout : h.Outside b.header := by
        rw [hs]
        simp only [Heap.Outside, Heap.chunk, Word.sub, sizeofInfo, sizeofChunk]
        omega
      use hs
      apply hout.kfreeNoLock hp (by omega)
  | succ i =>
      right
      have hi : i < h.chunkMax := by omega
      obtain ⟨k, x, y, u, hk, -⟩ := h.exists_gap (A.free.filter (· < i)) []
      use i, k, x, hs, hi, hk
      rw [hs, h.chunk_succ]
      apply ht.holds.kfreeNoLock_returns hi hk

/-- `kfree_no_lock` of the pointer to the header of a live block does not free this block. -/
theorem kfreeNoLock_header_not_intact (hc : h.Cleared live) {b : Live} (hb : b ∈ live) :
  ∃ h', Returns (Kmalloc.kfreeNoLock b.header h) h' ∧ ¬ h'.Intact (live.erase b)
  := by
  have hp := ht.holds.placed
  rcases ht.kfreeNoLock_header hb with ⟨-, hret⟩ | ⟨i, k, x, hs, hi, hk, hret⟩
  · use h, hret
    apply ht.not_intact_erase hb h.totalAllocated
  · use relinkBehind h (h.chunk i) x, hret
    by_cases hcount : get .count h.mem (h.chunk i) = 0
    · rw [ht.relinkBehind_zero hi hcount hk]
      apply ht.not_intact_erase hb
    · intro hintact
      obtain ⟨z, hz, hprev⟩ := ht.relinkBehind_prev hb hs hcount hk
      obtain ⟨m, total, heq⟩ := exists_relinkBehind h (h.chunk i) x
      rw [heq] at hintact hprev
      have hno := hintact.prev_free ⟨hp.1, hp.2, hp.3, hp.4, hp.5, hp.6⟩ hz hi hprev
      -- the chunk before the block is not free, so that another block covers it
      apply hcount
      apply hc i hi
      intro c hcl hcov
      have hne : c ≠ b := by
        rintro rfl
        unfold Live.Covers at hcov
        rw [hs, h.chunk_succ] at hcov
        omega
      apply hno c ((List.mem_erase_of_ne hne).mpr hcl) hcov

end Heap.Tracks

/-! ### Reallocating -/

/-- When `krealloc` returns a block, the live blocks are the old ones with this block in place of
`b`, the heap is intact for them, and the other ones hold what they held. -/
def Released (h : Heap) (live : List Live) (b : Live) (size : ℕ) : Prop :=
  ∀ q h', Returns (unlocked faultingActs (krealloc (b.header + 32) size) h) (q, h') → q ≠ 0 →
    ∃ n, Returns (chunkCount size) n
      ∧ h'.Intact (⟨Word.sub q sizeofInfo, n, size⟩ :: live.erase b)
      ∧ ∀ c ∈ live.erase b, ∀ a, c.Covers a → h'.mem a = h.mem a

/-- A run with a live block has called `init`, and tracks an arena. -/
theorem Run.tracks_of_mem (hrun : Run P h lock live) {b : Live} (hb : b ∈ live) :
  h.Cleared live ∧ ∃ N, ∃ A : Arena N ℕ, h.Tracks P live A
  := by
  rcases hrun.tracks.2 with ⟨-, rfl⟩ | ⟨N, A, ht⟩
  · cases hb
  · exact ⟨hrun.cleared ht.holds.ready, N, A, ht⟩

/-- In every state of a run, `krealloc` to a size not less than the old one releases exactly the
old block only when it has no new block to return. -/
theorem Run.krealloc_released_iff (hrun : Run (fun _ => True) h lock live) {b : Live}
    (hb : b ∈ live) {size : ℕ} (hle : b.size ≤ size) (hsize : size < 2 ^ 64) :
  Released h live b size ↔ ¬ h.Grows live size
  := by
  obtain ⟨hc, N, A, ht⟩ := hrun.tracks_of_mem hb
  constructor
  · intro hreleased hgrows
    obtain ⟨n, t, hn, hpos, hrunt, -, hret⟩ := ht.exists_grown hgrows
    have htracks := ht.grown_tracks hle hgrows.1 hn hpos hrunt trivial
    have hcleared := ht.grown_cleared hle hgrows.1 hn hpos hrunt trivial hc
    obtain ⟨h', hfree, hnot⟩ :=
      htracks.kfreeNoLock_header_not_intact hcleared (List.mem_cons_of_mem _ hb)
    have hreturns := ht.unlocked_grown hle hgrows.1 hn hpos hrunt hb hret hfree
    obtain ⟨n', hn', hintact, -⟩ := hreleased _ h' hreturns (by omega)
    obtain rfl := (chunkCount_stable size).unique hn hn'
    have hlt : t < h.chunkMax := ht.holds.lt_of_free (hrunt t le_rfl (by omega))
    have hne : (⟨h.chunk t, n, size⟩ : Live) ≠ b := by
      rintro rfl
      have hap := ht.apart_of_isRun hb hpos hrunt
      simp only at hap
      omega
    apply hnot
    rw [List.erase_cons_tail (by simpa using hne)]
    rw [ht.holds.placed.sub_info hlt] at hintact
    apply hintact
  · intro hgrows q h' hr hq
    exact absurd (ht.grows_of_returns hb hle hsize hr hq) hgrows

/-- The eight bytes of a pool of four chunks are not released. -/
theorem Run.four_released_iff :
  ∃ h : Heap, ¬ Released h [⟨4096, 2, 8⟩] ⟨4096, 2, 8⟩ 8
  := by
  obtain ⟨h, h', hrun, -, hpool, hmax, -⟩ := Run.four_krealloc
  use h
  rw [Run.krealloc_released_iff hrun (by simp) (by simp) (by decide), not_not]
  apply Heap.four_grows hpool hmax

/-- After `krealloc` of the eight bytes of a pool of four chunks to as many, the free list is
empty, though the old block is no longer live. -/
theorem Run.four_not_released :
  ¬ ∀ h lock live, Run (fun _ => True) h lock live → ∀ b ∈ live, ∀ size, b.size ≤ size →
      size < 2 ^ 64 → Released h live b size
  := by
  intro hall
  obtain ⟨h, h', hrun, hret, -, -, -, hhead, htail, hpool, hmax, hnext, -⟩ := Run.four_krealloc
  obtain ⟨n, hn, hintact, -⟩ := hall h _ _ hrun ⟨4096, 2, 8⟩ (by simp) 8 (by decide) (by decide)
    4192 h' hret (by decide)
  obtain rfl : n = 2 := (chunkCount_stable 8).unique hn ⟨10, by decide⟩
  obtain ⟨l, hchain, -, hl⟩ := hintact.free
  have hcovers : ∀ b ∈ [(⟨Word.sub 4192 sizeofInfo, 2, 8⟩ : Live)], ¬ b.Covers (h'.chunk 0) := by
    rw [List.forall_mem_singleton, Heap.chunk, hpool]
    simp only [Live.Covers, Word.sub, sizeofInfo]
    omega
  have hin : h'.chunk 0 ∈ l := (hl _).mpr ⟨⟨0, by omega, rfl⟩, hcovers⟩
  cases l with
  | nil => cases hin
  | cons c l =>
      obtain ⟨⟨hfirst, -⟩, -⟩ := List.isChain_cons_cons.mp hchain
      obtain ⟨⟨i, -, rfl⟩, -⟩ := (hl c).mp List.mem_cons_self
      rw [hhead, hnext, Heap.chunk, hpool] at hfirst
      omega

end Kmalloc
