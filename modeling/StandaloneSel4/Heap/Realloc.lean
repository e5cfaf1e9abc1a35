import StandaloneSel4.Heap.BadFree
import StandaloneSel4.Heap.Fit

/-!
# Reallocating

What `krealloc` does when the lock is left aside and the new size is not less than the old
one. It takes a block for the new size, copies as many bytes as the old block was asked for
from the header of the old block on to the new one, fills the rest of the new one with
zeros, and releases the pointer to the header of the old block, that is, the chunk before
the old block. Copying and filling fault where there are no more addresses.
-/

namespace Kmalloc

open Bytes Fuel Linked FirstFit Sync Arena

/-! ### Running without the lock -/

/-- The work on the heap, in which `memcpy` and `memset` fault unless the address after the
last byte of theirs is an address too. -/
def faultingActs : Actions HeapSig Heap
  | .memcpy dest src n, h, fuel =>
      if dest + n < 2 ^ 64 ∧ src + n < 2 ^ 64 then heapActs (.memcpy dest src n) h fuel else none
  | .memset s c len, h, fuel =>
      if s + len < 2 ^ 64 then heapActs (.memset s c len) h fuel else none
  | .kmallocNoLock size, h, fuel => heapActs (.kmallocNoLock size) h fuel
  | .kfreeNoLock ptr, h, fuel => heapActs (.kfreeNoLock ptr) h fuel
  | .size chunk, h, fuel => heapActs (.size chunk) h fuel

/-- The heap after `krealloc` has copied to `newPtr` and filled what is left there. -/
def Heap.moved (h : Heap) (newPtr ptr prevSize size : ℕ) : Heap :=
  { h with
    mem := CString.memset (CString.memcpy h.mem newPtr ptr prevSize) (newPtr + prevSize) 0
      (size - prevSize) }

/-- What `krealloc` does when it has got a new block: it faults, or returns after the copy and
the release. -/
def moveBlock (newPtr ptr prevSize size : ℕ) (h : Heap) (fuel : ℕ) : Option (ℕ × Heap) :=
  if ptr + prevSize < 2 ^ 64 ∧ newPtr + size < 2 ^ 64 then
    (kfreeNoLock ptr (h.moved newPtr ptr prevSize size) fuel).map fun h => (newPtr, h)
  else none

variable {P : ℕ → Prop} {h h' : Heap} {live : List Live} {lock : BinSem}

/-- What `krealloc` does after it has found a new block, without the lock. -/
theorem unlocked_moveBlock {newPtr ptr prevSize size : ℕ} (hsize : size < 2 ^ 64)
    (hprev : prevSize ≤ size) (h : Heap) (fuel : ℕ) :
  unlocked faultingActs (do
      let _ ← act (S := HeapSig) (.memcpy newPtr ptr prevSize)
      let _ ← act (S := HeapSig)
        (.memset (Word.add newPtr prevSize) 0 (Word.sub size prevSize))
      let _ ← act (S := HeapSig) (.kfreeNoLock ptr)
      let _ ← unlock
      return newPtr) h fuel
    = moveBlock newPtr ptr prevSize size h fuel
  := by
  have hsub := Word.sub_of_le hsize hprev
  simp only [act, unlock, Prog.perform, Prog.call_bind, Prog.ret_bind, Prog.pure_def, unlocked,
    faultingActs, heapActs, hsub, moveBlock]
  by_cases hfits : ptr + prevSize < 2 ^ 64 ∧ newPtr + size < 2 ^ 64
  · have hadd : Word.add newPtr prevSize = newPtr + prevSize := Word.add_of_lt (by omega)
    have hcopy : newPtr + prevSize < 2 ^ 64 ∧ ptr + prevSize < 2 ^ 64 := by omega
    have hfill : newPtr + prevSize + (size - prevSize) < 2 ^ 64 := by omega
    simp only [if_pos hfits, if_pos hcopy, hadd, if_pos hfill, Option.bind_some, Heap.moved]
    cases kfreeNoLock ptr _ fuel <;> rfl
  · rw [if_neg hfits]
    by_cases hcopy : newPtr + prevSize < 2 ^ 64 ∧ ptr + prevSize < 2 ^ 64
    · have hadd : Word.add newPtr prevSize = newPtr + prevSize := Word.add_of_lt (by omega)
      have hfill : ¬ newPtr + prevSize + (size - prevSize) < 2 ^ 64 := by omega
      simp only [if_pos hcopy, hadd, if_neg hfill, Option.bind_some, Option.bind_none]
    · rw [if_neg hcopy, Option.bind_none]

/-- `krealloc` to a size not less than the old one, without the lock. -/
theorem unlocked_krealloc {ptr size prevSize header : ℕ} (hptr : ptr ≠ 0) (hsize : size < 2 ^ 64)
    (hheader : Word.sub ptr sizeofInfo = header) (hsz : get .size h.mem header = prevSize)
    (hprev : prevSize ≤ size) (fuel : ℕ) :
  unlocked faultingActs (krealloc ptr size) h fuel
    = (kmallocNoLock size h fuel).bind fun r =>
        if r.1 = 0 then some (0, r.2) else moveBlock r.1 header prevSize size r.2 fuel
  := by
  have hless : ¬ size < prevSize := by omega
  unfold krealloc
  rw [if_neg hptr, hheader]
  simp only [lock, kmalloc, act, unlock, Prog.perform, Prog.call_bind, Prog.ret_bind, Prog.pure_def,
    unlocked, faultingActs, heapActs, Option.bind_some, hsz, if_neg hless]
  cases kmallocNoLock size h fuel with
  | none => rw [Option.bind_none, Option.bind_none]
  | some r =>
      rw [Option.bind_some, Option.bind_some]
      by_cases hnull : r.1 = 0
      · simp only [if_pos hnull, unlocked]
      · simp only [if_neg hnull, ← unlocked_moveBlock hsize hprev]
        simp only [act, unlock, Prog.perform, Prog.call_bind, Prog.ret_bind, Prog.pure_def,
          unlocked, faultingActs, heapActs]

/-! ### The copy -/

section

variable {newPtr ptr prevSize size a i : ℕ}

/-- The copy and the filling write to the new bytes only. -/
theorem Heap.moved_outside (hprev : prevSize ≤ size) (ha : a < newPtr ∨ newPtr + size ≤ a) :
  (h.moved newPtr ptr prevSize size).mem a = h.mem a
  := by
  simp only [Heap.moved]
  rw [CString.memset_outside (by omega), CString.memcpy_outside (by omega)]

/-- The new bytes begin with those at the pointer given to the copy. -/
theorem Heap.moved_copied (hap : ptr + prevSize ≤ newPtr ∨ newPtr + prevSize ≤ ptr)
    (hi : i < prevSize) :
  (h.moved newPtr ptr prevSize size).mem (newPtr + i) = h.mem (ptr + i)
  := by
  simp only [Heap.moved]
  rw [CString.memset_outside (by omega), CString.memcpy_apply (by omega) hi]

/-- The other new bytes are zero. -/
theorem Heap.moved_filled (hprev : prevSize ≤ i) (hi : i < size) :
  (h.moved newPtr ptr prevSize size).mem (newPtr + i) = 0
  := by
  simp only [Heap.moved]
  apply CString.memset_apply (by omega) (by omega)

end

namespace Heap.Tracks

variable {N : ℕ} {A : Arena N ℕ} (ht : h.Tracks P live A)

include ht

/-- A live block starts at a chunk, and its header holds what it should. -/
theorem exists_start {b : Live} (hb : b ∈ live) :
  ∃ s, b.header = h.chunk s ∧ 0 < b.count ∧ s + b.count ≤ h.chunkMax
    ∧ get .count h.mem b.header = b.count ∧ get .size h.mem b.header = b.size
    ∧ Returns (chunkCount b.size) b.count
  := by
  rw [ht.live, List.mem_map] at hb
  obtain ⟨c, hc, rfl⟩ := hb
  rw [ht.holds.max]
  exact ⟨c.start, rfl, A.pos c hc, A.inside c hc, ht.holds.count c hc, ht.holds.size c hc,
    (ht.counted c hc).2⟩

/-- The bytes of a live block lie outside the chunks that are linked. -/
theorem outside_of_covers {b : Live} (hb : b ∈ live) {a z : ℕ} (ha : b.Covers a)
    (hz : z ∈ h.head :: A.free.map h.chunk ++ [h.tail]) :
  a < z ∨ z + 32 ≤ a
  := by
  have hhead := ht.holds.placed.head_pool
  have htail := ht.holds.placed.tail_pool
  obtain ⟨s, hs, -, hend, -⟩ := ht.exists_start hb
  unfold Live.Covers at ha
  rw [hs] at ha
  simp only [Heap.chunk] at ha
  rw [List.cons_append, List.mem_cons, List.mem_append, List.mem_map, List.mem_singleton] at hz
  rcases hz with rfl | ⟨i, hi, rfl⟩ | rfl
  · omega
  · have hno := (ht.mem_free_iff (ht.holds.lt_of_free hi)).mp hi b hb
    unfold Live.Covers at hno
    rw [hs] at hno
    simp only [Heap.chunk] at hno ⊢
    omega
  · omega

/-- `unlink` of the first chunks of a stretch of free chunks makes them a live block, and
leaves the bytes of the other live blocks as they are. -/
theorem unlink {t n size : ℕ} (hsize : size < 2 ^ 64) (hP : P size)
    (hn : Returns (chunkCount size) n) (hpos : 0 < n) (hrun : IsRun A.free n t) :
  let r := Kmalloc.unlink h (h.chunk t) n size
  r.1 = h.chunk t + 32
    ∧ r.2.Tracks P (⟨h.chunk t, n, size⟩ :: live) (A.take ⟨t, n, size⟩ hpos hrun)
    ∧ ∀ b ∈ live, ∀ a, b.Covers a → r.2.mem a = h.mem a
  := by
  have hh := ht.holds
  obtain ⟨hptr, hholds⟩ := hh.unlink hpos hrun hsize
  refine ⟨hptr, ht.take hP hn hpos hrun hholds rfl, ?_⟩
  intro b hb a ha
  have hsplit := eq_append_of_isRun A.free_sorted hrun
  have hmem := hh.lt_of_split hrun
  have hchain := hh.chain_split hrun
  obtain ⟨k, x, y, u, hk, hu⟩ :=
    h.exists_gap (A.free.filter (· < t)) (A.free.filter (t + n ≤ ·))
  obtain ⟨heq, -, -⟩ := hh.placed.unlink_eq hpos hmem hchain hk hu size
  have hnodes := Heap.nodes_append (r := List.range' t n) hk hu
  rw [← hsplit] at hnodes
  have hout : ∀ z ∈ [x, y, h.chunk t], a < z ∨ z + 32 ≤ a := by
    intro z hz
    apply ht.outside_of_covers hb ha
    rw [hnodes]
    have ht : h.chunk t ∈ (List.range' t n).map h.chunk :=
      List.mem_map_of_mem (List.mem_range'_1.mpr ⟨le_rfl, by omega⟩)
    simp only [List.mem_cons, List.not_mem_nil, or_false] at hz
    rcases hz with rfl | rfl | rfl
    · simp
    · simp
    · apply List.mem_append_left _ (List.mem_append_right _ ht)
  rw [heq]
  simp only [linkEnds]
  rw [set_of_outside (hout _ (by simp)), set_of_outside (hout _ (by simp)),
    set_of_outside (hout _ (by simp)), set_of_outside (hout _ (by simp))]

end Heap.Tracks

/-! ### Getting a new block -/

theorem moveBlock_stable (newPtr ptr prevSize size : ℕ) (h : Heap) :
  Stable (moveBlock newPtr ptr prevSize size h)
  := by
  unfold moveBlock
  split
  · apply (kfreeNoLock_stable _ _).map
  · apply Stable.const none

/-- The size and the header fit a word, and there are enough free chunks one after the
other. -/
def Heap.Grows (h : Heap) (live : List Live) (size : ℕ) : Prop :=
  size + 32 < 2 ^ 64 ∧ ∃ n, Returns (chunkCount size) n ∧ ∃ i, h.FreeRun live n i

/-- The heap in which `krealloc` releases, the new block being `n` chunks from `pool[t]` on. -/
def Heap.grown (h : Heap) (b : Live) (size n t : ℕ) : Heap :=
  (unlink h (h.chunk t) n size).2.moved (h.chunk t + 32) b.header b.size size

/-- A size that fits a word with the header takes a chunk at least. -/
theorem chunkCount_pos {size n : ℕ} (hsize : size + 32 < 2 ^ 64)
    (hn : Returns (chunkCount size) n) :
  0 < n
  := by
  have hle := le_of_chunkCount hsize hn
  omega

namespace Heap.Tracks

variable {N : ℕ} {A : Arena N ℕ} (ht : h.Tracks P live A) {size n t : ℕ} {b : Live}

include ht

/-- Where there is a block to get, `kmalloc_no_lock` gets it. -/
theorem exists_grown (hgrows : h.Grows live size) :
  ∃ n t, Returns (chunkCount size) n ∧ 0 < n ∧ IsRun A.free n t ∧ (∀ s, IsRun A.free n s → t ≤ s)
    ∧ Returns (Kmalloc.kmallocNoLock size h) (Kmalloc.unlink h (h.chunk t) n size)
  := by
  obtain ⟨hword, n, hn, i, hi⟩ := hgrows
  have hpos := chunkCount_pos hword hn
  rcases ht.holds.kmallocNoLock_cases hn with ⟨-, hnone⟩ | ⟨t, -, hrun, hleast, hret⟩
  · have hrun := (ht.isRun_iff hpos).mpr hi
    exact absurd hrun ((hnone.resolve_left (by omega)) i)
  · exact ⟨n, t, hn, hpos, hrun, hleast, hret⟩

/-- A live block and a stretch of free chunks do not overlap. -/
theorem apart_of_isRun (hb : b ∈ live) (hpos : 0 < n) (hrun : IsRun A.free n t) :
  b.header + 32 * b.count ≤ h.chunk t ∨ h.chunk t + 32 * n ≤ b.header
  := by
  obtain ⟨s, hs, hcpos, hend, -⟩ := ht.exists_start hb
  by_contra hnot
  obtain ⟨hlo, hhi⟩ := not_or.mp hnot
  -- else a chunk of the stretch would lie in the block
  obtain ⟨j, htj, hjn, hcov⟩ : ∃ j, t ≤ j ∧ j < t + n ∧ b.Covers (h.chunk j) := by
    use max s t
    simp only [Live.Covers, hs, Heap.chunk] at hlo hhi ⊢
    omega
  have hj := hrun j htj hjn
  exact (ht.mem_free_iff (ht.holds.lt_of_free hj)).mp hj b hb hcov

section

variable (hb : b ∈ live) (hle : b.size ≤ size)

include hb hle

theorem unlocked_eq (hsize : size < 2 ^ 64) (fuel : ℕ) :
  unlocked faultingActs (krealloc (b.header + 32) size) h fuel
    = (Kmalloc.kmallocNoLock size h fuel).bind fun r =>
        if r.1 = 0 then some (0, r.2) else moveBlock r.1 b.header b.size size r.2 fuel
  := by
  obtain ⟨s, hs, hpos, hend, -, hsz, -⟩ := ht.exists_start hb
  apply unlocked_krealloc (by omega) hsize _ hsz hle
  rw [hs]
  apply ht.holds.placed.sub_info (by omega)

/-- More fuel does not change what `krealloc` returns. -/
theorem unlocked_stable (hsize : size < 2 ^ 64) :
  Stable (unlocked faultingActs (krealloc (b.header + 32) size) h)
  := by
  have heq := funext (ht.unlocked_eq hb hle hsize)
  rw [heq]
  apply (kmallocNoLock_stable size h).bind
  intro r
  split
  · apply Stable.const _
  · apply moveBlock_stable

/-- Where `krealloc` returns a block, there was one to get. -/
theorem grows_of_returns (hsize : size < 2 ^ 64) {q : ℕ}
    (hr : Returns (unlocked faultingActs (krealloc (b.header + 32) size) h) (q, h')) (hq : q ≠ 0) :
  h.Grows live size
  := by
  obtain ⟨fuel, hr⟩ := hr
  rw [ht.unlocked_eq hb hle hsize, Option.bind_eq_some_iff] at hr
  obtain ⟨r, hr, hmove⟩ := hr
  obtain ⟨n, hn⟩ := chunkCount_of_kmallocNoLock ⟨fuel, hr⟩
  rcases ht.holds.kmallocNoLock_cases hn with ⟨hret, -⟩ | ⟨t, hpos, hrun, -, hret⟩
  · obtain rfl := (kmallocNoLock_stable size h).unique ⟨fuel, hr⟩ hret
    rw [if_pos rfl] at hmove
    obtain ⟨rfl, -⟩ := Prod.mk.inj (Option.some.inj hmove)
    exact absurd rfl hq
  · obtain rfl := (kmallocNoLock_stable size h).unique ⟨fuel, hr⟩ hret
    obtain ⟨hptr, -⟩ := ht.holds.unlink hpos hrun hsize
    have hne : (Kmalloc.unlink h (h.chunk t) n size).1 ≠ 0 := by omega
    rw [if_neg hne, moveBlock] at hmove
    split at hmove
    · rename_i hfits
      have hword : size + 32 < 2 ^ 64 := by omega
      exact ⟨hword, n, hn, t, (ht.isRun_iff hpos).mp hrun⟩
    · cases hmove

end

variable (hle : b.size ≤ size) (hword : size + 32 < 2 ^ 64) (hn : Returns (chunkCount size) n)
  (hpos : 0 < n) (hrun : IsRun A.free n t)

include hle hword hn

omit ht in
/-- `krealloc` writes to the payload of the new block only before it releases. -/
theorem grown_outside {a : ℕ} (ha : ¬ Live.Payload ⟨h.chunk t, n, size⟩ a) :
  (h.grown b size n t).mem a = (Kmalloc.unlink h (h.chunk t) n size).2.mem a
  := by
  have hfits := le_of_chunkCount hword hn
  apply Heap.moved_outside hle
  simp only [Live.Payload] at ha
  omega

include hrun hpos

/-- The heap in which `krealloc` releases tracks both blocks. -/
theorem grown_tracks (hP : P size) :
  (h.grown b size n t).Tracks P (⟨h.chunk t, n, size⟩ :: live)
    (A.take ⟨t, n, size⟩ hpos hrun)
  := by
  obtain ⟨-, htracks, -⟩ := ht.unlink (by omega) hP hn hpos hrun
  apply htracks.write
  intro a ha
  apply grown_outside hle hword hn (ha _ List.mem_cons_self)

/-- In it the free chunks hold the count zero still. -/
theorem grown_cleared (hP : P size) (hc : h.Cleared live) :
  (h.grown b size n t).Cleared (⟨h.chunk t, n, size⟩ :: live)
  := by
  obtain ⟨-, htracks, -⟩ := ht.unlink (by omega) hP hn hpos hrun
  apply htracks.write_cleared (ht.unlink_cleared hc hpos hrun size)
  intro a ha
  apply grown_outside hle hword hn (ha _ List.mem_cons_self)

variable (hb : b ∈ live)

include hb

/-- In it the new bytes begin with those of the old block from its header on. -/
theorem grown_copied (hP : P size) {i : ℕ} (hi : i < b.size) :
  (h.grown b size n t).mem (h.chunk t + 32 + i) = h.mem (b.header + i)
  := by
  obtain ⟨-, -, hsame⟩ := ht.unlink (by omega) hP hn hpos hrun
  obtain ⟨s, hs, hcpos, hend, -, -, hcount⟩ := ht.exists_start hb
  have hfits := le_of_chunkCount hword hn
  have hold := le_of_chunkCount (by omega) hcount
  have hap := ht.apart_of_isRun hb hpos hrun
  calc (h.grown b size n t).mem (h.chunk t + 32 + i)
    _ = (Kmalloc.unlink h (h.chunk t) n size).2.mem (b.header + i) :=
        Heap.moved_copied (by omega) hi
    _ = h.mem (b.header + i) := by
        apply hsame b hb
        constructor <;> omega

/-- What `krealloc` returns where there is a block to get. -/
theorem unlocked_grown
    (hret : Returns (Kmalloc.kmallocNoLock size h) (Kmalloc.unlink h (h.chunk t) n size))
    (hfree : Returns (Kmalloc.kfreeNoLock b.header (h.grown b size n t)) h') :
  Returns (unlocked faultingActs (krealloc (b.header + 32) size) h) (h.chunk t + 32, h')
  := by
  obtain ⟨s, hs, hcpos, hend, -, -, hcount⟩ := ht.exists_start hb
  have hpool := ht.holds.placed.pool_end
  have hsize : size < 2 ^ 64 := by omega
  obtain ⟨hptr, -⟩ := ht.holds.unlink hpos hrun hsize
  have hlast := ht.holds.lt_of_free (hrun (t + n - 1) (by omega) (by omega))
  have hfits := le_of_chunkCount hword hn
  have hold := le_of_chunkCount (by omega) hcount
  have hbounds : b.header + b.size < 2 ^ 64 ∧ h.chunk t + 32 + size < 2 ^ 64 := by
    rw [hs]
    simp only [Heap.chunk]
    omega
  have hmove : Returns (moveBlock (h.chunk t + 32) b.header b.size size
      (Kmalloc.unlink h (h.chunk t) n size).2) (h.chunk t + 32, h') := by
    unfold moveBlock
    simp only [if_pos hbounds]
    apply hfree.map
  have hbind := Returns.bind
    (g := fun r fuel =>
      if r.1 = 0 then some (0, r.2) else moveBlock r.1 b.header b.size size r.2 fuel)
    (kmallocNoLock_stable size h) (fun r => by
      split
      · apply Stable.const _
      · apply moveBlock_stable) hret (b := (h.chunk t + 32, h')) (by
      simp only [hptr, if_neg (show h.chunk t + 32 ≠ 0 by omega)]
      exact hmove)
  obtain ⟨fuel, hbind⟩ := hbind
  use fuel
  rw [ht.unlocked_eq hb hle (by omega)]
  apply hbind

end Heap.Tracks

/-! ### Reallocating eight of four chunks -/

/-- The run on four chunks that allocates eight bytes, and what `krealloc` to as many makes of
its heap. -/
theorem Run.four_krealloc :
  ∃ h h' : Heap, Run (fun _ => True) h ⟨7, 1, false⟩ [⟨4096, 2, 8⟩]
    ∧ Returns (unlocked faultingActs (krealloc 4128 8) h) (4192, h')
    ∧ h.pool = 4096 ∧ h.chunkMax = 4 ∧ h.mem 4129 = 16 ∧ h'.head = 1024 ∧ h'.tail = 2048
    ∧ h'.pool = 4096 ∧ h'.chunkMax = 4 ∧ get .next h'.mem 1024 = 2048 ∧ h'.mem 4193 = 4
  := by
  obtain ⟨⟨ptr, h⟩, hr⟩ : ∃ r, kmallocNoLock 8 Heap.four 10 = some r :=
    Option.isSome_iff_exists.mp (by decide +kernel)
  have hshape : ((kmallocNoLock 8 Heap.four 10).bind fun r =>
      (unlocked faultingActs (krealloc 4128 8) r.2 10).map fun s =>
        ((r.1, s.1, r.2.pool, r.2.chunkMax), (s.2.head, s.2.tail, s.2.pool, s.2.chunkMax),
          get .next s.2.mem 1024, r.2.mem 4129, s.2.mem 4193))
      = some ((4128, 4192, 4096, 4), (1024, 2048, 4096, 4), 2048, 16, 4) := by
    decide +kernel
  rw [hr, Option.bind_some, Option.map_eq_some_iff] at hshape
  obtain ⟨⟨q, h'⟩, hr', hshape⟩ := hshape
  simp only [Prod.mk.injEq] at hshape
  obtain ⟨⟨rfl, rfl, hpool, hmax⟩, ⟨hhead, htail, hpool', hmax'⟩, hnext, hold, hnew⟩ := hshape
  have hcount : Returns (chunkCount 8) 2 := ⟨10, by decide⟩
  have hstart := Run.setMemoryPool (P := fun _ => True) Heap.four_pool Heap.four_placed
  have hrun := hstart.kmalloc (by decide) trivial hcount (Kmalloc.kmalloc_returns rfl ⟨10, hr⟩)
  exact ⟨h, h', hrun, ⟨10, hr'⟩, hpool, hmax, hold, hhead, htail, hpool', hmax', hnext, hnew⟩

/-- There are two more chunks for eight bytes. -/
theorem Heap.four_grows (hpool : h.pool = 4096) (hmax : h.chunkMax = 4) :
  h.Grows [⟨4096, 2, 8⟩] 8
  := by
  refine ⟨by decide, 2, ⟨10, by decide⟩, 2, by omega, ?_⟩
  intro j hlo hhi b hb
  obtain rfl := List.mem_singleton.mp hb
  simp only [Live.Covers, Heap.chunk, hpool]
  omega

end Kmalloc
