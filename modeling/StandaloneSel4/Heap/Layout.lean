import StandaloneSel4.Heap.Kmalloc
import StandaloneSel4.Lib.Linked
import Mathlib.Data.List.Nodup

/-!
# Where the chunks lie

The chunks the allocator links are `head`, `tail` and those of the pool. They do not
overlap, and the pool does not reach the end of the address space. Setting a field of one
of them is seen in that field of that chunk only.
-/

namespace Kmalloc

open Bytes

/-- The address of the chunk `pool[i]`. -/
def Heap.chunk (h : Heap) (i : ℕ) : ℕ :=
  h.pool + 32 * i

/-- The memory layout: the end of the pool is an address, and `head`, `tail` and the pool
do not overlap. -/
structure Heap.Placed (h : Heap) : Prop where
  pool_end : h.pool + 32 * h.chunkMax < 2 ^ 64
  head_end : h.head + 32 ≤ 2 ^ 64
  tail_end : h.tail + 32 ≤ 2 ^ 64
  head_tail : Apart h.head h.tail
  head_pool : h.head + 32 ≤ h.pool ∨ h.pool + 32 * h.chunkMax ≤ h.head
  tail_pool : h.tail + 32 ≤ h.pool ∨ h.pool + 32 * h.chunkMax ≤ h.tail

/-- The chunks that may be linked. -/
def Heap.IsNode (h : Heap) (a : ℕ) : Prop :=
  a = h.head ∨ a = h.tail ∨ ∃ i < h.chunkMax, a = h.chunk i

variable {h : Heap}

theorem Heap.isNode_head :
  h.IsNode h.head
  := .inl rfl

theorem Heap.isNode_tail :
  h.IsNode h.tail
  := .inr (.inl rfl)

theorem Heap.isNode_chunk {i : ℕ} (hi : i < h.chunkMax) :
  h.IsNode (h.chunk i)
  := .inr (.inr ⟨i, hi, rfl⟩)

theorem Heap.chunk_inj {i j : ℕ} :
  h.chunk i = h.chunk j ↔ i = j
  := by
  unfold Heap.chunk
  omega

theorem Heap.chunk_succ (h : Heap) (i : ℕ) :
  h.chunk (i + 1) = h.chunk i + 32
  := by
  unfold Heap.chunk
  omega

namespace Heap.Placed

variable (hp : h.Placed)

include hp

theorem chunk_lt {i : ℕ} (hi : i ≤ h.chunkMax) :
  h.chunk i < 2 ^ 64
  := by
  have hend := hp.pool_end
  unfold Heap.chunk
  omega

theorem add_chunk {i : ℕ} (hi : i < h.chunkMax) :
  Word.add (h.chunk i) sizeofChunk = h.chunk (i + 1)
  := by
  have hlt := hp.chunk_lt (i := i + 1) (by omega)
  rw [h.chunk_succ] at hlt ⊢
  apply Word.add_of_lt hlt

/-- The header before a pointer that has been handed out. -/
theorem sub_info {i : ℕ} (hi : i < h.chunkMax) :
  Word.sub (h.chunk i + 32) sizeofInfo = h.chunk i
  := by
  have hlt := hp.chunk_lt (i := i + 1) (by omega)
  rw [h.chunk_succ] at hlt
  rw [Word.sub_of_le hlt (by simp only [sizeofInfo]; omega), sizeofInfo, Nat.add_sub_cancel]

theorem head_ne_chunk {i : ℕ} (hi : i < h.chunkMax) :
  h.head ≠ h.chunk i
  := by
  have hpool := hp.head_pool
  unfold Heap.chunk
  omega

theorem tail_ne_chunk {i : ℕ} (hi : i < h.chunkMax) :
  h.tail ≠ h.chunk i
  := by
  have hpool := hp.tail_pool
  unfold Heap.chunk
  omega

theorem head_ne_tail :
  h.head ≠ h.tail
  := by
  have hap := hp.head_tail
  unfold Apart at hap
  omega

theorem node_lt {a : ℕ} (ha : h.IsNode a) :
  a < 2 ^ 64
  := by
  have hhead := hp.head_end
  have htail := hp.tail_end
  rcases ha with rfl | rfl | ⟨i, hi, rfl⟩
  · omega
  · omega
  · apply hp.chunk_lt (by omega)

/-- Two chunks that may be linked are the same or do not overlap. -/
theorem eq_or_apart {a b : ℕ} (ha : h.IsNode a) (hb : h.IsNode b) :
  a = b ∨ Apart a b
  := by
  have hht := hp.head_tail
  have hhead := hp.head_pool
  have htail := hp.tail_pool
  unfold Apart at hht ⊢
  rcases ha with rfl | rfl | ⟨i, hi, rfl⟩ <;> rcases hb with rfl | rfl | ⟨j, hj, rfl⟩ <;>
    unfold Heap.chunk at * <;> omega

/-- A field set in one linkable chunk is seen in that field of that chunk only. -/
theorem get_set {a c v : ℕ} (ha : h.IsNode a) (hc : h.IsNode c) (hv : v < 2 ^ 64)
    (f g : Field) (m : Mem) :
  get g (set f m c v) a = if a = c ∧ g = f then v else get g m a
  := by
  by_cases hac : a = c
  · subst hac
    by_cases hgf : g = f
    · subst hgf
      rw [if_pos ⟨rfl, rfl⟩, get_set_self g m a hv]
    · rw [if_neg (fun h => hgf h.2), Kmalloc.get_set_of_ne hgf]
  · rw [if_neg (fun h => hac h.1)]
    have hap := (hp.eq_or_apart hc ha).resolve_left (fun h => hac h.symm)
    apply get_set_of_apart hap

/-- A field set in one linkable chunk is not seen in the other fields of any. -/
theorem get_set_of_ne {a c : ℕ} (ha : h.IsNode a) (hc : h.IsNode c) {f g : Field}
    (hgf : g ≠ f) (m : Mem) (v : ℕ) :
  get g (set f m c v) a = get g m a
  := by
  rcases hp.eq_or_apart hc ha with rfl | hap
  · apply Kmalloc.get_set_of_ne hgf
  · apply get_set_of_apart hap

/-- The pool and the two chunks outside it, without repetition. -/
theorem nodup_nodes {l : List ℕ} (hl : l.Nodup) (hmem : ∀ i ∈ l, i < h.chunkMax) :
  (h.head :: l.map h.chunk ++ [h.tail]).Nodup
  := by
  rw [List.cons_append, List.nodup_cons, List.nodup_append]
  and_intros
  · rw [List.mem_append, List.mem_map, List.mem_singleton]
    rintro (⟨i, hi, heq⟩ | heq)
    · exact hp.head_ne_chunk (hmem i hi) heq.symm
    · exact hp.head_ne_tail heq
  · apply List.Nodup.map _ hl
    intro i j hij
    apply Heap.chunk_inj.mp hij
  · apply List.nodup_singleton
  · intro a ha b hb
    obtain ⟨i, hi, rfl⟩ := List.mem_map.mp ha
    rw [List.mem_singleton] at hb
    subst hb
    exact (hp.tail_ne_chunk (hmem i hi)).symm

end Heap.Placed

theorem Heap.isNode_of_mem {l : List ℕ} (hmem : ∀ i ∈ l, i < h.chunkMax) {a : ℕ}
    (ha : a ∈ h.head :: l.map h.chunk ++ [h.tail]) :
  h.IsNode a
  := by
  rw [List.cons_append, List.mem_cons, List.mem_append, List.mem_map, List.mem_singleton] at ha
  rcases ha with rfl | ⟨i, hi, rfl⟩ | rfl
  · exact Heap.isNode_head
  · exact Heap.isNode_chunk (hmem i hi)
  · exact Heap.isNode_tail

/-! ### A pool of four chunks -/

/-- A pool of four chunks, with `head` and `tail` before it. -/
def Heap.four : Heap :=
  { Heap.boot (fun _ => 0) 1024 2048 with pool := 4096, chunkMax := 4 }

theorem Heap.four_pool :
  setMemoryPool (Heap.boot (fun _ => 0) 1024 2048) 4096 128 7
    = some (Heap.four, ⟨7, 1, false⟩)
  := rfl

theorem Heap.four_placed :
  Heap.four.Placed
  := by
  constructor <;> simp [Heap.four, Heap.boot, Apart]

/-- One of eight chunks at the same place. -/
def Heap.eight : Heap :=
  { Heap.four with chunkMax := 8 }

theorem Heap.eight_pool :
  setMemoryPool (Heap.boot (fun _ => 0) 1024 2048) 4096 256 7
    = some (Heap.eight, ⟨7, 1, false⟩)
  := rfl

theorem Heap.eight_placed :
  Heap.eight.Placed
  := by
  constructor <;> simp [Heap.eight, Heap.four, Heap.boot, Apart]

end Kmalloc
