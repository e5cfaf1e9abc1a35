import StandaloneSel4.Heap.Accesses
import StandaloneSel4.Heap.Preserved

/-!
# What the allocator accesses

`kmalloc_no_lock` makes no access to what the clients have in their blocks, and `kfree_no_lock` none
but to the block that it is given: they read and write the chunks of the free list, the two chunks
outside the pool, and the header and the chunks of the block. So what clients write to their blocks
in between commutes with their accesses.
-/

namespace Kmalloc

open Bytes Fuel Linked FirstFit Prog Arena

/-- A chunk that holds no byte in `W`. -/
def Misses (W : ℕ → Prop) (c : ℕ) : Prop :=
  ∀ a, W a → a < c ∨ c + 32 ≤ a

/-- The access is to none of the bytes in `W`. An access to a field is taken for one to its
chunk. -/
def Avoids (W : ℕ → Prop) : HeapAccess → Prop
  | .get _ c | .set _ c _ => Misses W c
  | .byte a | .setByte a _ => ¬ W a
  | .static _ | .setTotal _ | .initialized | .setInitialized => True

/-- A client writes a byte. -/
def Heap.writeByte (a : ℕ) (b : UInt8) (h : Heap) : Heap :=
  { h with mem := fun a' => if a' = a then b else h.mem a' }

variable {W : ℕ → Prop} {h : Heap}

/-- A byte written outside the stored ones may as well be written before. -/
theorem writeByte_store {m : Mem} {a c k : ℕ} {b : UInt8} (v : ℕ) (ha : a < c ∨ c + k ≤ a) :
  store (fun a' => if a' = a then b else m a') c v k
    = fun a' => if a' = a then b else store m c v k a'
  := by
  funext a'
  by_cases heq : a' = a
  · rw [heq, if_pos rfl, store_of_outside _ _ ha, if_pos rfl]
  · rw [if_neg heq]
    apply store_congr
    intro _
    exact if_neg heq

/-- What a client writes to bytes in `W` commutes with the accesses that avoid them. -/
theorem commutes_writeByte {a : ℕ} (b : UInt8) (ha : W a) {c : HeapAccess} (hc : Avoids W c) :
  Commutes heapAccess (Heap.writeByte a b) c
  := by
  intro h
  cases c with
  | static v => cases v <;> rfl
  | setTotal v | initialized | setInitialized => rfl
  | get f c =>
      have hout := hc a ha
      have hsame : get f (fun a' => if a' = a then b else h.mem a') c = get f h.mem c := by
        apply get_congr
        intro a' hlo hhi
        apply if_neg
        omega
      simp only [heapAccess, Heap.writeByte, hsame]
  | set f c v =>
      have hout := hc a ha
      have hf := f.offset_le
      have hsame := writeByte_store (m := h.mem) (b := b) v
        (show a < c + f.offset ∨ c + f.offset + 8 ≤ a by omega)
      simp only [heapAccess, Heap.writeByte, set, hsame]
  | byte a' =>
      have hne : a' ≠ a := by
        rintro rfl
        exact hc ha
      simp only [heapAccess, Heap.writeByte, if_neg hne]
  | setByte a' b' =>
      have hne : a' ≠ a := by
        rintro rfl
        exact hc ha
      simp only [heapAccess, Heap.writeByte, Prod.mk.injEq, true_and]
      congr 1
      funext a''
      by_cases h₁ : a'' = a'
      · rw [if_pos h₁, if_neg (h₁ ▸ hne), if_pos h₁]
      · by_cases h₂ : a'' = a
        · rw [if_neg h₁, if_pos h₂, if_pos h₂]
        · rw [if_neg h₁, if_neg h₂, if_neg h₂, if_neg h₁]

/-- And these change none of the bytes in `W`. -/
theorem Avoids.mem_eq {c : HeapAccess} (hc : Avoids W c) {a : ℕ} (ha : W a) :
  (heapAccess c h).2.mem a = h.mem a
  := by
  cases c with
  | static v | setTotal v | initialized | setInitialized | get f c | byte a' => rfl
  | set f c v => exact set_of_outside (hc a ha) f h.mem v
  | setByte a' b =>
      apply if_neg
      rintro rfl
      exact hc ha

/-! ### The accesses of a function -/

section

variable {α : Type}

theorem within_static (v : Static) (k : ℕ → Work α) (h : Heap) :
  Within heapAccess (Avoids W) (Work.static v >>= k) h
    ↔ Within heapAccess (Avoids W) (k (h.static v)) h
  := (within_call (S := AccessSig) (.static v) k h).trans (and_iff_right trivial)

theorem within_setTotal (v : ℕ) (k : Unit → Work α) (h : Heap) :
  Within heapAccess (Avoids W) (Work.setTotal v >>= k) h
    ↔ Within heapAccess (Avoids W) (k ()) { h with totalAllocated := v }
  := (within_call (S := AccessSig) (.setTotal v) k h).trans (and_iff_right trivial)

theorem within_initialized (k : Bool → Work α) (h : Heap) :
  Within heapAccess (Avoids W) (Work.initialized >>= k) h
    ↔ Within heapAccess (Avoids W) (k h.initialized) h
  := (within_call (S := AccessSig) .initialized k h).trans (and_iff_right trivial)

theorem within_get (f : Field) (c : ℕ) (k : ℕ → Work α) (h : Heap) :
  Within heapAccess (Avoids W) (Work.get f c >>= k) h
    ↔ Misses W c ∧ Within heapAccess (Avoids W) (k (get f h.mem c)) h
  := within_call (S := AccessSig) (.get f c) k h

theorem within_set (f : Field) (c v : ℕ) (k : Unit → Work α) (h : Heap) :
  Within heapAccess (Avoids W) (Work.set f c v >>= k) h
    ↔ Misses W c ∧ Within heapAccess (Avoids W) (k ()) { h with mem := set f h.mem c v }
  := within_call (S := AccessSig) (.set f c v) k h

end

theorem within_linkEnds {prev next : ℕ} (hprev : Misses W prev) (hnext : Misses W next)
    (h : Heap) :
  Within heapAccess (Avoids W) (Work.linkEnds prev next) h
  := .call hprev (.call hnext (.ret _ _))

/-- Chunks that are linked one after the other are accessed, and no others. -/
theorem within_linkChunks {n prev curr : ℕ} (hcurr : curr < 2 ^ 64)
    (hout : ∀ j < n, Misses W (Word.add curr (32 * j))) (h : Heap) :
  Within heapAccess (Avoids W) (Work.linkChunks n prev curr) h
  := by
  induction n generalizing prev curr h with
  | zero => exact .ret prev h
  | succ n ih =>
      have hself : Misses W curr := by
        have hzero := hout 0 (Nat.succ_pos n)
        rwa [Nat.mul_zero, Word.add_of_lt (by omega), Nat.add_zero] at hzero
      apply Within.call hself
      apply Within.call hself
      apply Within.call hself
      apply ih
      · exact Nat.mod_lt _ (by decide)
      · intro j hj
        have hnext : Word.add (Word.add curr sizeofChunk) (32 * j)
            = Word.add curr (32 * (j + 1)) := by
          simp only [Word.add, sizeofChunk]
          omega
        rw [hnext]
        exact hout (j + 1) (Nat.succ_lt_succ hj)

/-- The last of them holds no byte in `W` either. -/
theorem misses_linkChunks {n prev curr : ℕ} {m : Mem} (hcurr : curr < 2 ^ 64)
    (hprev : Misses W prev) (hout : ∀ j < n, Misses W (Word.add curr (32 * j))) :
  Misses W (linkChunks n m prev curr).2
  := by
  intro a ha
  rcases (linkChunks_spares (m := m) (p := prev) hcurr fun j hj => hout j hj a ha).2 with
    hlast | ⟨j, hj, hlast⟩
  · rw [hlast]
    exact hprev a ha
  · rw [hlast]
    exact hout j hj a ha

/-- `relink` accesses the chunks around the gap and those of the block. -/
theorem within_relinkBehind {top prev n : ℕ} (htop : top < 2 ^ 64) (hprev : Misses W prev)
    (hnext : Misses W (get .next h.mem prev)) (hself : Misses W top)
    (hcount : get .count (set .next h.mem prev top) top = n)
    (hout : ∀ j < n, Misses W (Word.add top (32 * j))) :
  Within heapAccess (Avoids W) (Work.relinkBehind top prev) h
  := by
  unfold Work.relinkBehind
  split
  · exact .ret _ _
  · simp only [within_get, within_set]
    rw [hcount, within_bind]
    refine ⟨hprev, hprev, hself, ?_⟩
    use within_linkChunks htop hout _
    intro last h' hr
    rw [through_linkChunks, Option.some.injEq, Prod.mk.injEq] at hr
    obtain ⟨rfl, rfl⟩ := hr
    exact within_linkEnds (misses_linkChunks htop hprev hout) hnext _

/-! ### In a heap that tracks its blocks -/

variable {P : ℕ → Prop} {live : List Live} {size n ptr : ℕ}

theorem Live.Payload.covers {b : Live} {a : ℕ} (h : b.Payload a) :
  b.Covers a
  := ⟨le_trans (Nat.le_add_right _ _) h.1, h.2⟩

namespace Heap.Tracks

variable {N : ℕ} {A : Arena N ℕ} (ht : h.Tracks P live A)

include ht

/-- The chunks that are linked hold nothing of the clients. -/
theorem misses (hW : ∀ a, W a → ∃ b ∈ live, b.Payload a) {z : ℕ}
    (hz : z ∈ h.head :: A.free.map h.chunk ++ [h.tail]) :
  Misses W z
  := by
  intro a ha
  obtain ⟨b, hb, hpayload⟩ := hW a ha
  exact ht.outside_of_covers hb hpayload.covers hz

/-- The chunk after one that is linked is linked. -/
theorem next_mem {z : ℕ} (hz : z ∈ h.head :: A.free.map h.chunk) :
  get .next h.mem z ∈ A.free.map h.chunk ++ [h.tail]
  := Chained.next_mem ht.holds.chain hz

/-- And so is the chunk before. -/
theorem prev_mem {z : ℕ} (hz : z ∈ A.free.map h.chunk ++ [h.tail]) :
  get .prev h.mem z ∈ h.head :: A.free.map h.chunk
  := Chained.prev_mem ht.holds.chain hz

/-- The search of `kmalloc_no_lock` walks along the free list. -/
theorem within_search (hW : ∀ a, W a → ∃ b ∈ live, b.Payload a) (chunks : ℕ) {s : Search}
    (hs : s.curr ∈ A.free.map h.chunk ++ [h.tail]) :
  Within heapAccess (Avoids W) (rounds (Work.searchRound chunks) n s) h
  := by
  have hnode : ∀ s : Search, s.curr ∈ A.free.map h.chunk ++ [h.tail] → Misses W s.curr :=
    fun s hs => ht.misses hW (List.mem_cons_of_mem _ hs)
  apply within_rounds (through_searchRound chunks h)
    (I := fun s => s.curr ∈ A.free.map h.chunk ++ [h.tail])
  · intro s hs
    simp only [Work.searchRound, within_static]
    split
    · exact .ret _ _
    split
    · exact .ret _ _
    simp only [within_get]
    refine ⟨hnode s hs, ?_⟩
    by_cases hadjacent : get .next h.mem s.curr = Word.add s.curr sizeofChunk
    · rw [if_pos hadjacent, within_get]
      exact ⟨hnode s hs, .ret _ _⟩
    · rw [if_neg hadjacent, within_get, within_get]
      exact ⟨hnode s hs, hnode s hs, .ret _ _⟩
  · intro s s' hs hround
    simp only [searchRound] at hround
    split at hround
    · cases hround
    rename_i htail
    have hcurr : s.curr ∈ h.head :: A.free.map h.chunk := by
      rw [List.mem_append, List.mem_singleton] at hs
      exact List.mem_cons_of_mem _ (hs.resolve_right htail)
    have hnext := ht.next_mem hcurr
    split at hround
    · cases hround
    · split at hround <;> (obtain rfl := Sum.inl.inj hround; exact hnext)
  · exact hs

/-- `unlink` of a stretch of free chunks accesses these and the chunks around them. -/
theorem within_unlink (hW : ∀ a, W a → ∃ b ∈ live, b.Payload a) {t : ℕ} (hpos : 0 < n)
    (hrun : FirstFit.IsRun A.free n t) :
  Within heapAccess (Avoids W) (Work.unlink (h.chunk t) n size) h
  := by
  have hfree : ∀ i, t ≤ i → i < t + n → h.chunk i ∈ A.free.map h.chunk :=
    fun i hi hin => List.mem_map_of_mem (hrun i hi hin)
  have hlast : Word.add (h.chunk t) (sizeofChunk * Word.sub n 1) = h.chunk (t + n - 1) := by
    have hlt := ht.holds.lt_of_free (hrun (t + n - 1) (by omega) (by omega))
    have hend := ht.holds.placed.chunk_lt (i := t + n - 1) (by omega)
    have hmax := ht.holds.placed.pool_end
    simp only [Heap.chunk] at hend ⊢
    rw [Word.sub_of_le (by omega) (by omega), Word.add_of_lt]
    · simp only [sizeofChunk]
      omega
    · simp only [sizeofChunk]
      omega
  have hnode : ∀ z, z ∈ h.head :: A.free.map h.chunk ++ [h.tail] → Misses W z :=
    fun z hz => ht.misses hW hz
  have htop := hfree t le_rfl (by omega)
  have hend := hfree (t + n - 1) (by omega) (by omega)
  have htop' := hnode _ (List.mem_cons_of_mem _ (List.mem_append_left _ htop))
  have hend' := hnode _ (List.mem_cons_of_mem _ (List.mem_append_left _ hend))
  have hprev := hnode _ (List.mem_append_left _ (ht.prev_mem (List.mem_append_left _ htop)))
  have hnext := hnode _ (List.mem_cons_of_mem _ (ht.next_mem (List.mem_cons_of_mem _ hend)))
  simp only [Work.unlink, within_get, hlast]
  refine ⟨htop', hend', ?_⟩
  rw [within_bind]
  use within_linkEnds hprev hnext h
  intro _ h' _
  rw [within_set, within_set, within_static, within_setTotal]
  exact ⟨htop', htop', .ret _ _⟩

/-- `kmalloc_no_lock` accesses nothing that clients have in their blocks. -/
theorem within_kmallocNoLock (hW : ∀ a, W a → ∃ b ∈ live, b.Payload a) (size n : ℕ) :
  Within heapAccess (Avoids W) (Work.kmallocNoLock size n) h
  := by
  have hinit : Kmalloc.ensureInit h = h := if_pos ht.holds.ready
  rw [Work.kmallocNoLock, within_bind]
  constructor
  · rw [Work.ensureInit, within_initialized, if_pos ht.holds.ready]
    exact .ret _ _
  intro _ h' hr
  rw [through_ensureInit, hinit, Option.some.injEq, Prod.mk.injEq] at hr
  obtain ⟨-, rfl⟩ := hr
  cases chunkCount size n with
  | none => exact .fail h
  | some chunks =>
      have hhead : h.head ∈ h.head :: A.free.map h.chunk := List.mem_cons_self
      dsimp only [Work.search]
      rw [within_static, within_get, within_bind]
      refine ⟨ht.misses hW (List.mem_append_left _ hhead),
        ht.within_search hW chunks (ht.next_mem hhead), ?_⟩
      intro found h' hr
      rw [through_rounds (through_searchRound chunks h), Option.map_eq_some_iff] at hr
      obtain ⟨found, hloop, heq⟩ := hr
      obtain ⟨rfl, rfl⟩ := Prod.mk.inj heq
      rcases ht.holds.search_cases chunks with ⟨hnone, -⟩ | ⟨t, hpos, hrun, -, hsome⟩
      · obtain rfl := (loop_stable _ _).unique ⟨n, hloop⟩ hnone
        exact .ret 0 h
      · obtain rfl := (loop_stable _ _).unique ⟨n, hloop⟩ hsome
        exact ht.within_unlink hW hpos hrun

/-- The search of `relink` walks along the free list, from `head` on. -/
theorem within_relinkSearch (hW : ∀ a, W a → ∃ b ∈ live, b.Payload a) (top total : ℕ) {prev : ℕ}
    (hprev : prev ∈ h.head :: A.free.map h.chunk) :
  Within heapAccess (Avoids W) (rounds (Work.relinkRound top) n prev)
      { h with totalAllocated := total }
    ∧ ∀ r h', through heapAccess (rounds (Work.relinkRound top) n prev)
        { h with totalAllocated := total } = some (r, h') →
      r ∈ h.head :: A.free.map h.chunk ∧ h' = { h with totalAllocated := total }
  := by
  have hround := through_relinkRound top { h with totalAllocated := total }
  have hkeep : ∀ prev prev', prev ∈ h.head :: A.free.map h.chunk →
      relinkRound { h with totalAllocated := total } top prev = .inl prev' →
      prev' ∈ h.head :: A.free.map h.chunk := by
    intro prev prev' hprev hgo
    simp only [relinkRound] at hgo
    split at hgo
    · rename_i hon
      obtain rfl := Sum.inl.inj hgo
      have hnext := ht.next_mem hprev
      rw [List.mem_append, List.mem_singleton] at hnext
      exact List.mem_cons_of_mem _ (hnext.resolve_right hon.1)
    · cases hgo
  constructor
  · apply within_rounds hround (I := fun prev => prev ∈ h.head :: A.free.map h.chunk) _ hkeep _
      hprev
    intro prev hprev
    have hmisses := ht.misses hW (List.mem_append_left _ hprev)
    simp only [Work.relinkRound, within_static, within_get]
    refine ⟨hmisses, ?_⟩
    split
    · exact .ret _ _
    rw [within_get]
    refine ⟨hmisses, ?_⟩
    split
    · rw [within_get]
      exact ⟨hmisses, .ret _ _⟩
    · exact .ret _ _
  · intro r h' hr
    rw [through_rounds hround, Option.map_eq_some_iff] at hr
    obtain ⟨r, hloop, heq⟩ := hr
    obtain ⟨rfl, rfl⟩ := Prod.mk.inj heq
    refine ⟨?_, rfl⟩
    apply loop_invariant (fun prev => prev ∈ h.head :: A.free.map h.chunk)
      (fun r => r ∈ h.head :: A.free.map h.chunk) hkeep _ hprev ⟨n, hloop⟩
    intro prev r hprev hleave
    simp only [relinkRound] at hleave
    split at hleave
    · cases hleave
    · obtain rfl := Sum.inr.inj hleave
      exact hprev

/-- `kfree_no_lock` of a live block accesses nothing that clients have in the other blocks. -/
theorem within_kfreeNoLock {b : Live} (hb : b ∈ live)
    (hW : ∀ a, W a → ∃ c ∈ live.erase b, c.Payload a) (n : ℕ) :
  Within heapAccess (Avoids W) (Work.kfreeNoLock (b.header + 32) n) h
  := by
  have hp := ht.holds.placed
  have hWlive : ∀ a, W a → ∃ c ∈ live, c.Payload a := by
    intro a ha
    obtain ⟨c, hc, hpayload⟩ := hW a ha
    exact ⟨c, List.mem_of_mem_erase hc, hpayload⟩
  obtain ⟨s, hs, hpos, hend, hcount, -⟩ := ht.exists_start hb
  rw [hs] at hcount
  have htop : h.chunk s < 2 ^ 64 := hp.chunk_lt (by omega)
  -- the chunks of the block hold nothing of the others
  have hout : ∀ j < b.count, Misses W (Word.add (h.chunk s) (32 * j)) := by
    intro j hj a ha
    obtain ⟨c, hc, hpayload⟩ := hW a ha
    have hlt := hp.chunk_lt (i := s + j) (by omega)
    rw [Word.add_of_lt (by simp only [Heap.chunk] at hlt ⊢; omega)]
    by_contra hin
    apply ht.not_covers_erase hb hc _ hpayload.covers
    simp only [Live.Covers, hs]
    omega
  have hself : Misses W (h.chunk s) := by
    have hzero := hout 0 hpos
    rwa [Nat.mul_zero, Word.add_of_lt (by omega), Nat.add_zero] at hzero
  have hhead : h.head ∈ h.head :: A.free.map h.chunk := List.mem_cons_self
  rw [Work.kfreeNoLock, if_neg (by omega), hs, hp.sub_info (by omega)]
  simp only [Work.relink, within_static]
  split
  · exact .ret _ _
  rw [within_get, within_static, within_setTotal, within_static, within_bind]
  obtain ⟨hwithin, hsearch⟩ := ht.within_relinkSearch (n := n) hWlive (h.chunk s)
    (Word.sub h.totalAllocated (get .size h.mem (h.chunk s))) hhead
  refine ⟨hself, hwithin, ?_⟩
  intro prev h' hr
  obtain ⟨hprev, rfl⟩ := hsearch prev h' hr
  have hnode : h.IsNode prev :=
    Heap.isNode_of_mem (fun i hi => ht.holds.lt_of_free hi) (List.mem_append_left _ hprev)
  apply within_relinkBehind htop
  · exact ht.misses hWlive (List.mem_append_left _ hprev)
  · exact ht.misses hWlive (List.mem_cons_of_mem _ (ht.next_mem hprev))
  · exact hself
  · rw [hp.get_set_of_ne (Heap.isNode_chunk (by omega)) hnode (by decide), hcount]
  · exact hout

end Heap.Tracks

end Kmalloc
