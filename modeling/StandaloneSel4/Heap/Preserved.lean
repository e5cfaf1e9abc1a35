import StandaloneSel4.Heap.Released

/-!
# What a reallocated block holds

`krealloc` copies from the header of the old block on, so the new block begins with the 32
bytes of the old header and goes on with the bytes that the old block held 32 bytes before.
It holds what the old one held only where the bytes of the old block repeat after 32 bytes,
the header being the first of them; and then only if the release that follows does not
write to it.
-/

namespace Kmalloc

open Bytes Fuel Linked FirstFit Sync Arena

variable {P : ℕ → Prop} {h h' : Heap} {live : List Live} {lock : BinSem}

/-! ### What the release writes -/

/-- Linking chunks one after the other, even around the end of the addresses, writes to these
chunks only, and ends at the chunk it started behind or at one of them. -/
theorem linkChunks_spares {n a : ℕ} {m : Mem} {p c : ℕ} (hc : c < 2 ^ 64)
    (ha : ∀ j < n, a < Word.add c (32 * j) ∨ Word.add c (32 * j) + 32 ≤ a) :
  (linkChunks n m p c).1 a = m a
    ∧ ((linkChunks n m p c).2 = p ∨ ∃ j < n, (linkChunks n m p c).2 = Word.add c (32 * j))
  := by
  have hself : Word.add c (32 * 0) = c := Word.add_of_lt hc
  induction n generalizing m p c with
  | zero => exact ⟨rfl, .inl rfl⟩
  | succ n ih =>
      have hnext : ∀ j, Word.add (Word.add c sizeofChunk) (32 * j) = Word.add c (32 * (j + 1)) := by
        intro j
        simp only [Word.add, sizeofChunk]
        omega
      obtain ⟨hmem, hlast⟩ := ih (m := linkChunk m p c) (p := c) (c := Word.add c sizeofChunk)
        (Nat.mod_lt _ (by decide)) (by
          intro j hj
          rw [hnext]
          apply ha (j + 1) (by omega)) (by
          simp only [Word.add, sizeofChunk]
          omega)
      have hzero := ha 0 (by omega)
      rw [hself] at hzero
      rw [linkChunks]
      constructor
      · rw [hmem, linkChunk_outside hzero]
      · right
        rcases hlast with hlast | ⟨j, hj, hlast⟩
        · exact ⟨0, by omega, by rw [hlast, hself]⟩
        · exact ⟨j + 1, by omega, by rw [hlast, hnext]⟩

namespace Heap.Tracks

variable {N : ℕ} {A : Arena N ℕ} (ht : h.Tracks P live A)

include ht

/-- `kfree_no_lock` of the pointer to the header of a live block returns. To live blocks it
writes nothing when the block is the first of the pool, and else only in as many chunks from
the one before the block on as that chunk holds for its count. -/
theorem kfreeNoLock_header_mem {b : Live} (hb : b ∈ live) :
  ∃ h', Returns (Kmalloc.kfreeNoLock b.header h) h' ∧ ∀ c ∈ live, ∀ a, c.Covers a →
    (b.header = h.pool ∨ ∀ j < get .count h.mem (b.header - 32),
      a < Word.add (b.header - 32) (32 * j) ∨ Word.add (b.header - 32) (32 * j) + 32 ≤ a) →
    h'.mem a = h.mem a
  := by
  rcases ht.kfreeNoLock_header hb with ⟨-, hret⟩ | ⟨i, k, x, hs, hi, hk, hret⟩
  · exact ⟨h, hret, fun _ _ _ _ _ => rfl⟩
  · use relinkBehind h (h.chunk i) x, hret
    intro c hcl a ha hspares
    have hilt := ht.holds.placed.chunk_lt (i := i) (by omega)
    have hsucc := h.chunk_succ i
    have hspares := hspares.resolve_left (by
      rw [hs]
      simp only [Heap.chunk]
      omega)
    have htop : b.header - 32 = h.chunk i := by omega
    rw [htop] at hspares
    -- the chunks around the gap are not part of a live block either
    obtain ⟨y, hy, -, hnext, -, -⟩ := ht.before_gap i hk
    have hyout : a < y ∨ y + 32 ≤ a := by
      apply ht.outside_of_covers hcl ha
      rw [A.free_split i, List.map_append, List.cons_append, List.append_assoc]
      apply List.mem_cons_of_mem
      apply List.mem_append_right
      apply hy
    have hxout : a < x ∨ x + 32 ≤ a := by
      apply ht.outside_of_covers hcl ha
      apply List.mem_append_left
      rw [A.free_split i, List.map_append, ← List.cons_append, hk]
      simp
    obtain ⟨hmem, hlast⟩ := linkChunks_spares (m := set .next h.mem x (h.chunk i)) (p := x)
      hilt hspares
    have hlastout : ∀ z, (z = x ∨ ∃ j < get .count h.mem (h.chunk i),
        z = Word.add (h.chunk i) (32 * j)) → a < z ∨ z + 32 ≤ a := by
      rintro z (rfl | ⟨j, hj, rfl⟩)
      · apply hxout
      · apply hspares j hj
    rw [ht.relinkBehind_mem hi hk, hnext]
    simp only [linkEnds]
    rw [set_of_outside hyout, set_of_outside (hlastout _ hlast), hmem, set_of_outside hxout]

end Heap.Tracks

/-- The count that the release finds in the chunk before the old block, when the new block is `n`
chunks from `pool[t]` on. That chunk may be the header of the new block or, if it is behind
that, hold bytes copied from the old one. -/
def Heap.foundCount (h : Heap) (b : Live) (n t : ℕ) : ℕ :=
  if h.chunk (t + n) = b.header then
    if n = 1 then 1
    else load (fun a => if a < b.header + b.size then h.mem a else 0) (b.header + (32 * n - 48)) 8
  else get .count h.mem (b.header - 32)

namespace Heap.Tracks

variable {N : ℕ} {A : Arena N ℕ} (ht : h.Tracks P live A) {size n t : ℕ} {b : Live}
  (hle : b.size ≤ size) (hword : size + 32 < 2 ^ 64) (hn : Returns (chunkCount size) n)
  (hpos : 0 < n) (hrun : IsRun A.free n t) (hP : P size) (hb : b ∈ live)

include ht hle hword hn hpos hrun hP hb

/-- In the last chunk of the new block, behind its header, the release finds the bytes copied,
or the count zero that the chunk held when it was free. -/
theorem grown_count_last (hc : h.Cleared live) (hadj : h.chunk (t + n) = b.header) (hone : n ≠ 1) :
  get .count (h.grown b size n t).mem (b.header - 32)
    = load (fun a => if a < b.header + b.size then h.mem a else 0) (b.header + (32 * n - 48)) 8
  := by
  have hfits := le_of_chunkCount hword hn
  have hsucc := h.chunk_succ (t + n - 1)
  rw [show t + n - 1 + 1 = t + n by omega, hadj] at hsucc
  have hlast := hrun (t + n - 1) (by omega) (by omega)
  have hlt := ht.holds.lt_of_free hlast
  have hzero :
      get .count (Kmalloc.unlink h (h.chunk t) n size).2.mem (h.chunk (t + n - 1)) = 0 := by
    rw [ht.unlink_other hpos hrun size hlt (by omega)]
    apply hc _ hlt ((ht.mem_free_iff hlt).mp hlast)
  have hnew : h.chunk (t + n - 1) = h.chunk t + 32 * (n - 1) := by
    simp only [Heap.chunk]
    omega
  unfold get at hzero ⊢
  simp only [Field.offset] at hzero ⊢
  apply load_congr_add
  intro j hj
  -- the byte of the new block that the release reads, and where it comes from
  have haddr : b.header - 32 + 16 + j = h.chunk t + 32 + (32 * n - 48 + j) := by omega
  rw [haddr, Nat.add_assoc b.header]
  by_cases hcopied : 32 * n - 48 + j < b.size
  · rw [if_pos (by omega)]
    apply ht.grown_copied hle hword hn hpos hrun hb hP hcopied
  · rw [if_neg (by omega)]
    by_cases hfilled : 32 * n - 48 + j < size
    · apply Heap.moved_filled (by omega) hfilled
    · unfold Heap.grown
      rw [Heap.moved_outside hle (by omega)]
      apply load_eq_zero_iff.mp hzero
      · omega
      · omega

/-- What the release finds. -/
theorem grown_count (hc : h.Cleared live) (hfirst : b.header ≠ h.pool) :
  get .count (h.grown b size n t).mem (b.header - 32) = h.foundCount b n t
  := by
  obtain ⟨s, hs, hcpos, hend, -⟩ := ht.exists_start hb
  obtain ⟨i, rfl⟩ : ∃ i, s = i + 1 := by
    apply Nat.exists_eq_add_one.mpr
    apply Nat.pos_of_ne_zero
    rintro rfl
    apply hfirst hs
  have hsucc := h.chunk_succ i
  have hbefore : b.header - 32 = h.chunk i := by omega
  have hap := ht.apart_of_isRun hb hpos hrun
  unfold Heap.foundCount
  split
  · rename_i hadj
    split
    · rename_i hone
      subst hone
      have hti : t = i := by
        simp only [Heap.chunk] at hadj hs
        omega
      have hcount := (ht.grown_tracks hle hword hn hpos hrun hP (b := b)).holds.count
        ⟨t, 1, size⟩ List.mem_cons_self
      rw [hbefore, ← hti]
      apply hcount
    · rename_i hone
      apply ht.grown_count_last hle hword hn hpos hrun hP hb hc hadj hone
  · rename_i hadj
    rw [hbefore]
    have hout : i < t ∨ t + n ≤ i := by
      simp only [Heap.chunk] at hadj hs hap
      omega
    have hwritten : get .count (h.grown b size n t).mem (h.chunk i)
        = get .count (Kmalloc.unlink h (h.chunk t) n size).2.mem (h.chunk i) := by
      apply get_congr
      intro a hlo hhi
      apply grown_outside hle hword hn
      simp only [Live.Payload, Heap.chunk] at hlo hhi ⊢
      omega
    rw [hwritten, ht.unlink_other hpos hrun size (by omega) (by omega)]

end Heap.Tracks

/-! ### Reallocating -/

/-- When `krealloc` returns a block, it begins with what the old block held, and the rest of the
new size is zero. -/
def Preserved (h : Heap) (b : Live) (size : ℕ) : Prop :=
  ∀ q h', Returns (unlocked faultingActs (krealloc (b.header + 32) size) h) (q, h') → q ≠ 0 →
    (∀ i < b.size, h'.mem (q + i) = h.mem (b.header + 32 + i))
      ∧ ∀ i, b.size ≤ i → i < size → h'.mem (q + i) = 0

/-- The bytes of the block repeat after 32 bytes, those of the header being the first. -/
def Heap.Repeats (h : Heap) (b : Live) : Prop :=
  ∀ i < b.size, h.mem (b.header + i) = h.mem (b.header + 32 + i)

/-- The release writes to none of the bytes of the new block: there is no chunk before the old
block, or no chunk that it links, from that one on, has a byte of the new block. -/
def Heap.Spares (h : Heap) (live : List Live) (b : Live) (size : ℕ) : Prop :=
  b.header = h.pool ∨ ∀ n t, Returns (chunkCount size) n → h.FreeRun live n t →
    (∀ s, h.FreeRun live n s → t ≤ s) → ∀ j < h.foundCount b n t, ∀ i < size,
      h.chunk t + 32 + i < Word.add (b.header - 32) (32 * j)
        ∨ Word.add (b.header - 32) (32 * j) + 32 ≤ h.chunk t + 32 + i

/-- Where there is a block to get, `krealloc` returns one with the bytes copied from the old header
on and zeros behind them, if the release spares it. -/
theorem Heap.Tracks.krealloc_spared {N : ℕ} {A : Arena N ℕ} (ht : h.Tracks (fun _ => True) live A)
    (hc : h.Cleared live) {b : Live} (hb : b ∈ live) {size : ℕ} (hle : b.size ≤ size)
    (hgrows : h.Grows live size) (hspares : h.Spares live b size) :
  ∃ q h', Returns (unlocked faultingActs (krealloc (b.header + 32) size) h) (q, h') ∧ q ≠ 0
    ∧ (∀ i < b.size, h'.mem (q + i) = h.mem (b.header + i))
    ∧ ∀ i, b.size ≤ i → i < size → h'.mem (q + i) = 0
  := by
  have hword := hgrows.1
  obtain ⟨n, t, hn, hpos, hrun, hleast, hret⟩ := ht.exists_grown hgrows
  have htracks := ht.grown_tracks hle hword hn hpos hrun trivial (b := b)
  have hfits := le_of_chunkCount hword hn
  obtain ⟨h', hfree, hmem⟩ := htracks.kfreeNoLock_header_mem (List.mem_cons_of_mem _ hb)
  have hkept : ∀ i < size, h'.mem (h.chunk t + 32 + i)
      = (h.grown b size n t).mem (h.chunk t + 32 + i) := by
    intro i hi
    apply hmem _ List.mem_cons_self
    · simp only [Live.Covers]
      omega
    · by_cases hfirst : b.header = h.pool
      · exact .inl hfirst
      · right
        rw [ht.grown_count hle hword hn hpos hrun trivial hb hc hfirst]
        intro j hj
        apply hspares.resolve_left hfirst n t hn ((ht.isRun_iff hpos).mp hrun) _ j hj i hi
        intro s hs
        apply hleast s ((ht.isRun_iff hpos).mpr hs)
  refine ⟨h.chunk t + 32, h', ht.unlocked_grown hle hword hn hpos hrun hb hret hfree, by omega,
    ?_, ?_⟩
  · intro i hi
    rw [hkept i (by omega)]
    apply ht.grown_copied hle hword hn hpos hrun hb trivial hi
  · intro i hlo hhi
    rw [hkept i hhi]
    apply Heap.moved_filled hlo hhi

/-- In every state of a run, `krealloc` to a size not less than the old one preserves what the
block holds when it has no new block to return, or the bytes of the block repeat after 32 bytes
and the release spares the new block; and where the release spares it, only then. -/
theorem Run.krealloc_preserved_iff (hrun : Run (fun _ => True) h lock live) {b : Live}
    (hb : b ∈ live) {size : ℕ} (hle : b.size ≤ size) (hsize : size < 2 ^ 64) :
  ((h.Grows live size → h.Repeats b ∧ h.Spares live b size) → Preserved h b size)
    ∧ (h.Spares live b size → Preserved h b size → h.Grows live size → h.Repeats b)
  := by
  obtain ⟨hc, N, A, ht⟩ := hrun.tracks_of_mem hb
  constructor
  · intro hcond q h' hr hq
    obtain ⟨hrepeats, hspares⟩ := hcond (ht.grows_of_returns hb hle hsize hr hq)
    obtain ⟨q', h'', hr', -, hcopied, hfilled⟩ := ht.krealloc_spared hc hb hle
      (ht.grows_of_returns hb hle hsize hr hq) hspares
    obtain ⟨rfl, rfl⟩ := Prod.mk.inj ((ht.unlocked_stable hb hle hsize).unique hr hr')
    refine ⟨fun i hi => ?_, hfilled⟩
    rw [hcopied i hi, hrepeats i hi]
  · intro hspares hpreserved hgrows i hi
    obtain ⟨q, h', hr, hq, hcopied, -⟩ := ht.krealloc_spared hc hb hle hgrows hspares
    rw [← hcopied i hi, (hpreserved q h' hr hq).1 i hi]

/-- The eight bytes that were allocated first from four chunks are not preserved: the second one of
them is sixteen, and four in the new block. -/
theorem Run.four_lost :
  ∃ h : Heap, Run (fun _ => True) h ⟨7, 1, false⟩ [⟨4096, 2, 8⟩] ∧ h.pool = 4096
    ∧ h.chunkMax = 4 ∧ ¬ Preserved h ⟨4096, 2, 8⟩ 8
  := by
  obtain ⟨h, h', hrun, hret, hpool, hmax, hold, -, -, -, -, -, hnew⟩ := Run.four_krealloc
  refine ⟨h, hrun, hpool, hmax, fun hpreserved => ?_⟩
  obtain ⟨hcopied, -⟩ := hpreserved 4192 h' hret (by decide)
  have hbyte := hcopied 1 (by decide)
  simp only [hold, hnew] at hbyte
  revert hbyte
  decide

/-- As there are two more chunks, and the block is the first one, that is because they do not repeat
the header. When they have been overwritten with its bytes they are preserved. -/
theorem Run.four_preserved_iff :
  ∃ h h' : Heap, (Run (fun _ => True) h ⟨7, 1, false⟩ [⟨4096, 2, 8⟩]
      ∧ h.Grows [⟨4096, 2, 8⟩] 8 ∧ ¬ h.Repeats ⟨4096, 2, 8⟩ ∧ ¬ Preserved h ⟨4096, 2, 8⟩ 8)
    ∧ Run (fun _ => True) h' ⟨7, 1, false⟩ [⟨4096, 2, 8⟩]
      ∧ h'.Grows [⟨4096, 2, 8⟩] 8 ∧ h'.Repeats ⟨4096, 2, 8⟩ ∧ Preserved h' ⟨4096, 2, 8⟩ 8
  := by
  obtain ⟨h, hrun, hpool, hmax, hlost⟩ := Run.four_lost
  have hpreserved := fun {h : Heap} (hrun : Run (fun _ => True) h ⟨7, 1, false⟩ [⟨4096, 2, 8⟩])
      (hpool : h.pool = 4096) (hrepeats : h.Repeats ⟨4096, 2, 8⟩) =>
    (Run.krealloc_preserved_iff hrun (List.mem_singleton_self _) le_rfl (by decide)).1
      fun _ => ⟨hrepeats, .inl hpool.symm⟩
  let m : Mem := fun a => if 4128 ≤ a ∧ a < 4136 then h.mem (a - 32) else h.mem a
  have hwritten : Run (fun _ => True) { h with mem := m } ⟨7, 1, false⟩ [⟨4096, 2, 8⟩] := by
    apply hrun.write
    intro a ha
    have hout := ha _ List.mem_cons_self
    simp only [Live.Payload] at hout
    exact if_neg (by omega)
  have hrepeats : ({ h with mem := m } : Heap).Repeats ⟨4096, 2, 8⟩ := by
    intro i hi
    dsimp only at hi
    have hheader : m (4096 + i) = h.mem (4096 + i) := if_neg (by omega)
    have hpayload : m (4096 + 32 + i) = h.mem (4096 + 32 + i - 32) := if_pos (by omega)
    dsimp only
    rw [hheader, hpayload, Nat.add_right_comm, Nat.add_sub_cancel]
  exact ⟨h, { h with mem := m },
    ⟨hrun, Heap.four_grows hpool hmax, fun hrep => hlost (hpreserved hrun hpool hrep), hlost⟩,
    hwritten, Heap.four_grows hpool hmax, hrepeats, hpreserved hwritten hpool hrepeats⟩

/-- So they are not always preserved. -/
theorem Run.four_not_preserved :
  ¬ ∀ h lock live, Run (fun _ => True) h lock live → ∀ b ∈ live, ∀ size, b.size ≤ size →
      size < 2 ^ 64 → Preserved h b size
  := by
  intro hall
  obtain ⟨h, hrun, -, -, hlost⟩ := Run.four_lost
  exact hlost (hall h _ _ hrun _ (List.mem_singleton_self _) 8 le_rfl (by decide))

end Kmalloc
