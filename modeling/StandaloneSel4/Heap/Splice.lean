import StandaloneSel4.Heap.FreeList

/-!
# Cutting the free list and mending it

What `init`, `unlink` and `relink` do to the free list: `init` makes it the whole pool,
`unlink` cuts a stretch of chunks out, and `relink` puts a stretch back between the chunk
it was found to belong behind and the one after that.
-/

namespace Kmalloc

open Bytes Linked

variable {h : Heap}

/-- The ends of the free list at a gap: the chunk before the gap with those before it, and
the chunk after the gap with those after it. -/
theorem Heap.exists_gap (h : Heap) (l₁ l₂ : List ℕ) :
  ∃ k x y u, h.head :: l₁.map h.chunk = k ++ [x] ∧ l₂.map h.chunk ++ [h.tail] = y :: u
  := exists_concat_cons _ _ _ _

theorem Heap.nodes_append {l₁ l₂ r : List ℕ} {k u : List ℕ} {x y : ℕ}
    (hk : h.head :: l₁.map h.chunk = k ++ [x]) (hu : l₂.map h.chunk ++ [h.tail] = y :: u) :
  h.head :: (l₁ ++ r ++ l₂).map h.chunk ++ [h.tail] = k ++ [x] ++ r.map h.chunk ++ y :: u
  := by
  rw [← hk, ← hu]
  simp

/-- The chunks on both sides of a gap can be linked. -/
theorem Heap.isNode_gap {l₁ l₂ r : List ℕ} {k u : List ℕ} {x y : ℕ}
    (hmem : ∀ i ∈ l₁ ++ r ++ l₂, i < h.chunkMax)
    (hk : h.head :: l₁.map h.chunk = k ++ [x]) (hu : l₂.map h.chunk ++ [h.tail] = y :: u) :
  ∀ a ∈ k ++ [x] ++ y :: u, h.IsNode a
  := by
  intro a ha
  apply Heap.isNode_of_mem hmem
  rw [Heap.nodes_append hk hu, List.mem_append, List.mem_append]
  rcases List.mem_append.mp ha with ha | ha
  · exact .inl (.inl ha)
  · exact .inr ha

@[simp]
theorem relinkBehind_chunkMax (h : Heap) (top prev : ℕ) :
  (relinkBehind h top prev).chunkMax = h.chunkMax
  := by
  unfold relinkBehind
  dsimp only
  split <;> rfl

@[simp]
theorem relinkBehind_pool (h : Heap) (top prev : ℕ) :
  (relinkBehind h top prev).pool = h.pool
  := by
  unfold relinkBehind
  dsimp only
  split <;> rfl

namespace Heap.Placed

variable (hp : h.Placed)

include hp

/-- After `init` the free list is the pool. -/
theorem init_freeChain :
  (init h).FreeChain (List.range' 0 h.chunkMax)
  := by
  have hpool : h.pool = h.chunk 0 := by simp [Heap.chunk]
  have hlt : h.pool < 2 ^ 64 := by
    have hend := hp.pool_end
    omega
  have hrange : ∀ i ∈ List.range' 0 h.chunkMax, i < h.chunkMax := by
    intro i hi
    rw [List.mem_range'_1] at hi
    omega
  have hchain := hp.linkChunks_linkEnds_chain (n := h.chunkMax) (i := 0) (by omega)
    (m := set .next h.mem h.head h.pool) (k := []) (t := []) (x := h.head) (y := h.tail)
    (chained_singleton _) (chained_singleton _)
    (fun a ha => Heap.isNode_of_mem hrange (by simpa using ha))
    (by simpa using hp.nodup_nodes List.nodup_range' hrange)
    (fun _ => by rw [get_set_self _ _ _ hlt, hpool])
  rw [← hpool] at hchain
  exact hchain

/-! ### Cutting a stretch out -/

variable {l₁ l₂ : List ℕ} {t n : ℕ}

/-- What `unlink` reads and writes when it is given a stretch of the free list. -/
theorem unlink_eq (hn : 0 < n) (hmem : ∀ i ∈ l₁ ++ List.range' t n ++ l₂, i < h.chunkMax)
    (hchain : h.FreeChain (l₁ ++ List.range' t n ++ l₂)) {k u : List ℕ} {x y : ℕ}
    (hk : h.head :: l₁.map h.chunk = k ++ [x]) (hu : l₂.map h.chunk ++ [h.tail] = y :: u)
    (size : ℕ) :
  (unlink h (h.chunk t) n size
      = (h.chunk t + 32, { h with
          mem := set .size (set .count (linkEnds h.mem x y) (h.chunk t) n) (h.chunk t) size
          totalAllocated := Word.add h.totalAllocated size }))
    ∧ Chained (get .next h.mem) (get .prev h.mem) (k ++ [x])
    ∧ Chained (get .next h.mem) (get .prev h.mem) (y :: u)
  := by
  have hend := hp.pool_end
  have ht : t < h.chunkMax := hmem t (by simp [List.mem_range'_1, hn])
  have hlast : t + n - 1 < h.chunkMax :=
    hmem (t + n - 1) (by simp [List.mem_range'_1]; omega)
  unfold Heap.FreeChain at hchain
  rw [Heap.nodes_append hk hu] at hchain
  obtain ⟨n, rfl⟩ : ∃ n', n = n' + 1 := ⟨n - 1, by omega⟩
  -- the chunk before the stretch, from the link back of its first chunk
  have hfirst := hchain
  rw [List.range'_succ, List.map_cons, List.append_assoc, List.cons_append,
    chained_append_iff] at hfirst
  -- the chunk after the stretch, from the link on of its last chunk
  have hnext := hchain
  rw [List.range'_1_concat, List.map_append, List.map_singleton, ← List.append_assoc,
    chained_append_iff] at hnext
  have helem : Word.add (h.chunk t) (sizeofChunk * Word.sub (n + 1) 1) = h.chunk (t + n) := by
    rw [Word.sub_of_le (by omega) (by omega), Word.add_of_lt]
    · simp only [Heap.chunk, sizeofChunk]
      omega
    · simp only [Heap.chunk, sizeofChunk]
      omega
  have hptr : Word.add (h.chunk t) sizeofInfo = h.chunk t + 32 := by
    have := hp.add_chunk ht
    rw [h.chunk_succ] at this
    exact this
  and_intros
  · rw [unlink, helem, hptr, hfirst.2.2.2, hnext.2.2.1]
  · exact hfirst.1
  · exact hnext.2.1

/-- `unlink` cuts the stretch it is given out of the free list. -/
theorem unlink_freeChain (hn : 0 < n)
    (hmem : ∀ i ∈ l₁ ++ List.range' t n ++ l₂, i < h.chunkMax)
    (hnodup : (l₁ ++ List.range' t n ++ l₂).Nodup)
    (hchain : h.FreeChain (l₁ ++ List.range' t n ++ l₂)) (size : ℕ) :
  (unlink h (h.chunk t) n size).2.FreeChain (l₁ ++ l₂)
  := by
  obtain ⟨k, x, y, u, hk, hu⟩ := h.exists_gap l₁ l₂
  obtain ⟨heq, hkchain, huchain⟩ := hp.unlink_eq hn hmem hchain hk hu size
  have hsub : ∀ i ∈ l₁ ++ l₂, i < h.chunkMax := by
    intro i hi
    apply hmem
    simp only [List.mem_append] at hi ⊢
    tauto
  have hnodup' : (l₁ ++ l₂).Nodup := hnodup.sublist (by simp)
  have hlist : h.head :: (l₁ ++ l₂).map h.chunk ++ [h.tail] = k ++ [x] ++ y :: u := by
    have hnil := Heap.nodes_append (r := []) hk hu
    simpa using hnil
  have hnodes := hp.nodup_nodes hnodup' hsub
  have hnode := Heap.isNode_gap hmem hk hu
  rw [hlist] at hnodes
  have hjoin := hp.linkEnds_chain hkchain huchain hnode hnodes
  have ht : h.IsNode (h.chunk t) :=
    Heap.isNode_chunk (hmem t (by simp [List.mem_range'_1, hn]))
  rw [heq]
  unfold Heap.FreeChain
  -- writing the header of the block changes no link
  change Chained _ _ (h.head :: (l₁ ++ l₂).map h.chunk ++ [h.tail])
  rw [hlist]
  apply hjoin.congr
  · intro a ha
    have ha := hnode a (List.dropLast_subset _ ha)
    rw [hp.get_set_of_ne ha ht (by decide), hp.get_set_of_ne ha ht (by decide)]
  · intro b hb
    have hb := hnode b (List.mem_of_mem_tail hb)
    rw [hp.get_set_of_ne hb ht (by decide), hp.get_set_of_ne hb ht (by decide)]

/-- `unlink` writes the header of the block it hands out. -/
theorem unlink_header (hn : 0 < n)
    (hmem : ∀ i ∈ l₁ ++ List.range' t n ++ l₂, i < h.chunkMax)
    (hchain : h.FreeChain (l₁ ++ List.range' t n ++ l₂)) {size : ℕ} (hsize : size < 2 ^ 64) :
  let r := unlink h (h.chunk t) n size
  get .count r.2.mem (h.chunk t) = n ∧ get .size r.2.mem (h.chunk t) = size
  := by
  obtain ⟨k, x, y, u, hk, hu⟩ := h.exists_gap l₁ l₂
  obtain ⟨heq, -, -⟩ := hp.unlink_eq hn hmem hchain hk hu size
  have hend := hp.pool_end
  have hlast : t + n - 1 < h.chunkMax :=
    hmem (t + n - 1) (by simp [List.mem_range'_1]; omega)
  intro r
  simp only [r, heq]
  constructor
  · rw [Kmalloc.get_set_of_ne (by decide), get_set_self _ _ _ (by omega)]
  · rw [get_set_self _ _ _ hsize]

/-- `unlink` leaves the headers of all other chunks as they are. -/
theorem unlink_other (hn : 0 < n)
    (hmem : ∀ i ∈ l₁ ++ List.range' t n ++ l₂, i < h.chunkMax)
    (hchain : h.FreeChain (l₁ ++ List.range' t n ++ l₂)) (size : ℕ) {i : ℕ}
    (hi : i < h.chunkMax) (hne : i ≠ t) :
  let r := unlink h (h.chunk t) n size
  get .count r.2.mem (h.chunk i) = get .count h.mem (h.chunk i)
    ∧ get .size r.2.mem (h.chunk i) = get .size h.mem (h.chunk i)
  := by
  obtain ⟨k, x, y, u, hk, hu⟩ := h.exists_gap l₁ l₂
  obtain ⟨heq, -, -⟩ := hp.unlink_eq hn hmem hchain hk hu size
  have ht : t < h.chunkMax := hmem t (by simp [List.mem_range'_1, hn])
  have hap : Apart (h.chunk t) (h.chunk i) :=
    (hp.eq_or_apart (Heap.isNode_chunk ht) (Heap.isNode_chunk hi)).resolve_left
      (fun h => hne (Heap.chunk_inj.mp h).symm)
  have hnode := Heap.isNode_gap hmem hk hu
  have hx := hnode x (by simp)
  have hy := hnode y (by simp)
  have hi := Heap.isNode_chunk hi
  intro r
  simp only [r, heq]
  rw [get_set_of_apart hap, get_set_of_apart hap, get_set_of_apart hap, get_set_of_apart hap,
    hp.get_linkEnds hx hy hi _ (by decide) (by decide),
    hp.get_linkEnds hx hy hi _ (by decide) (by decide)]
  exact ⟨rfl, rfl⟩

/-! ### Putting a stretch back -/

/-- What `relink` writes when it has found the chunk to put a stretch behind. -/
theorem relinkBehind_eq (hmem : ∀ i ∈ l₁ ++ List.range' t n ++ l₂, i < h.chunkMax) (hn : 0 < n)
    (hnot : t ∉ l₁) (hchain : h.FreeChain (l₁ ++ l₂))
    (hcount : get .count h.mem (h.chunk t) = n) {k u : List ℕ} {x y : ℕ}
    (hk : h.head :: l₁.map h.chunk = k ++ [x]) (hu : l₂.map h.chunk ++ [h.tail] = y :: u) :
  let r := linkChunks n (set .next h.mem x (h.chunk t)) x (h.chunk t)
  relinkBehind h (h.chunk t) x
    = { h with
        mem := linkEnds r.1 r.2 y
        totalAllocated := Word.sub h.totalAllocated (get .size h.mem (h.chunk t)) }
  := by
  have ht : t < h.chunkMax := hmem t (by simp [List.mem_range'_1, hn])
  have hxmem : x ∈ h.head :: l₁.map h.chunk := by
    rw [hk]
    simp
  -- the chunk found is not the one put back
  have hxt : x ≠ h.chunk t := by
    rcases List.mem_cons.mp hxmem with rfl | hx
    · apply hp.head_ne_chunk ht
    · obtain ⟨i, hi, rfl⟩ := List.mem_map.mp hx
      rw [ne_eq, Heap.chunk_inj]
      rintro rfl
      apply hnot hi
  have hxnode : h.IsNode x := by
    apply Heap.isNode_of_mem (l := l₁)
    · intro i hi
      apply hmem
      simp [hi]
    · apply List.mem_append_left _ hxmem
  have hnext : get .next h.mem x = y := by
    unfold Heap.FreeChain at hchain
    have hlist := Heap.nodes_append (r := []) hk hu
    simp only [List.append_nil, List.map_nil] at hlist
    rw [hlist, chained_append_iff] at hchain
    exact hchain.2.2.1
  intro r
  rw [relinkBehind, if_neg hxt]
  simp only [hnext]
  rw [hp.get_set_of_ne (Heap.isNode_chunk ht) hxnode (by decide), hcount]

/-- Linking the chunk before a gap on changes neither the chain before the gap nor the one
after it. -/
theorem set_next_chained {k u : List ℕ} {x y c : ℕ} (hc : c < 2 ^ 64)
    (hnode : ∀ a ∈ k ++ [x] ++ y :: u, h.IsNode a) (hnodup : (k ++ [x] ++ y :: u).Nodup)
    (hchain : Chained (get .next h.mem) (get .prev h.mem) (k ++ [x] ++ y :: u)) :
  let m := set .next h.mem x c
  Chained (get .next m) (get .prev m) (k ++ [x]) ∧ Chained (get .next m) (get .prev m) (y :: u)
  := by
  have hx : h.IsNode x := hnode x (by simp)
  have hnext : ∀ a ∈ k ++ [x] ++ y :: u, a ≠ x →
      get .next (set .next h.mem x c) a = get .next h.mem a := by
    intro a ha hax
    rw [hp.get_set (hnode a ha) hx hc, if_neg (fun h => hax h.1)]
  have hprev : ∀ a ∈ k ++ [x] ++ y :: u,
      get .prev (set .next h.mem x c) a = get .prev h.mem a := by
    intro a ha
    rw [hp.get_set_of_ne (hnode a ha) hx (by decide)]
  rw [chained_append_iff] at hchain
  rw [List.nodup_append, List.nodup_append] at hnodup
  obtain ⟨⟨-, -, hkx⟩, -, hne⟩ := hnodup
  constructor
  · apply hchain.1.congr
    · intro a ha
      rw [List.dropLast_concat] at ha
      apply hnext a (by simp [ha]) (hkx a ha x (List.mem_singleton_self x))
    · intro b hb
      apply hprev b (List.mem_append_left _ (List.mem_of_mem_tail hb))
  · apply hchain.2.1.congr
    · intro a ha
      have ha := List.dropLast_subset _ ha
      apply hnext a (List.mem_append_right _ ha) (hne x (by simp) a ha).symm
    · intro b hb
      apply hprev b (List.mem_append_right _ (List.mem_of_mem_tail hb))

/-- `relink` puts a stretch back into the free list behind the chunk it has found. -/
theorem relinkBehind_freeChain (hn : 0 < n)
    (hmem : ∀ i ∈ l₁ ++ List.range' t n ++ l₂, i < h.chunkMax)
    (hnodup : (l₁ ++ List.range' t n ++ l₂).Nodup) (hchain : h.FreeChain (l₁ ++ l₂))
    (hcount : get .count h.mem (h.chunk t) = n) {k u : List ℕ} {x y : ℕ}
    (hk : h.head :: l₁.map h.chunk = k ++ [x]) (hu : l₂.map h.chunk ++ [h.tail] = y :: u) :
  (relinkBehind h (h.chunk t) x).FreeChain (l₁ ++ List.range' t n ++ l₂)
  := by
  have ht : t ∈ List.range' t n := by simp [List.mem_range'_1, hn]
  have hnot : t ∉ l₁ := by
    rw [List.nodup_append, List.nodup_append] at hnodup
    intro hin
    apply hnodup.1.2.2 t hin t ht rfl
  have hlast : t + n - 1 < h.chunkMax :=
    hmem (t + n - 1) (by simp [List.mem_range'_1]; omega)
  have hin : t + n ≤ h.chunkMax := by omega
  have htlt : h.chunk t < 2 ^ 64 := hp.chunk_lt (by omega)
  have hlist := Heap.nodes_append (r := List.range' t n) hk hu
  have hnodes := hp.nodup_nodes hnodup hmem
  rw [hlist] at hnodes
  have hnode : ∀ a ∈ k ++ [x] ++ (List.range' t n).map h.chunk ++ y :: u, h.IsNode a := by
    intro a ha
    apply Heap.isNode_of_mem hmem
    rw [hlist]
    exact ha
  -- the chain before the gap and the one after it, once `x` is linked to the stretch
  have hgap := hchain
  have hsplit := Heap.nodes_append (r := []) hk hu
  simp only [List.append_nil, List.map_nil] at hsplit
  unfold Heap.FreeChain at hgap
  rw [hsplit] at hgap
  obtain ⟨hkchain, huchain⟩ := hp.set_next_chained htlt (Heap.isNode_gap hmem hk hu)
    (hnodes.sublist (by simp)) hgap
  have hjoin := hp.linkChunks_linkEnds_chain hin hkchain huchain hnode hnodes
    (fun _ => get_set_self _ _ _ htlt)
  rw [hp.relinkBehind_eq hmem hn hnot hchain hcount hk hu]
  unfold Heap.FreeChain
  change Chained _ _ (h.head :: (l₁ ++ List.range' t n ++ l₂).map h.chunk ++ [h.tail])
  rw [hlist]
  exact hjoin

/-- `relink` leaves the headers of the chunks outside the stretch as they are. -/
theorem relinkBehind_other (hn : 0 < n)
    (hmem : ∀ i ∈ l₁ ++ List.range' t n ++ l₂, i < h.chunkMax) (hnot : t ∉ l₁)
    (hchain : h.FreeChain (l₁ ++ l₂)) (hcount : get .count h.mem (h.chunk t) = n)
    {k u : List ℕ} {x y : ℕ} (hk : h.head :: l₁.map h.chunk = k ++ [x])
    (hu : l₂.map h.chunk ++ [h.tail] = y :: u) {i : ℕ} (hi : i < h.chunkMax)
    (hout : i ∉ List.range' t n) :
  let r := relinkBehind h (h.chunk t) x
  get .count r.mem (h.chunk i) = get .count h.mem (h.chunk i)
    ∧ get .size r.mem (h.chunk i) = get .size h.mem (h.chunk i)
  := by
  have hlast : t + n - 1 < h.chunkMax :=
    hmem (t + n - 1) (by simp [List.mem_range'_1]; omega)
  have hin : t + n ≤ h.chunkMax := by omega
  have hnode := Heap.isNode_gap hmem hk hu
  have hx := hnode x (by simp)
  have hy := hnode y (by simp)
  have hinode := Heap.isNode_chunk hi
  have hrun : ∀ j, t ≤ j → j < t + n → h.chunk i ≠ h.chunk j := by
    intro j htj hj
    rw [ne_eq, Heap.chunk_inj]
    rintro rfl
    apply hout
    apply List.mem_range'_1.mpr ⟨htj, hj⟩
  have hlinked := hp.isNode_linkChunks hin (m := set .next h.mem x (h.chunk t)) hx
  rw [hp.relinkBehind_eq hmem hn hnot hchain hcount hk hu]
  intro r
  simp only [r]
  rw [hp.get_linkEnds hlinked hy hinode _ (by decide) (by decide),
    hp.get_linkEnds hlinked hy hinode _ (by decide) (by decide),
    hp.get_linkChunks hin hinode hrun, hp.get_linkChunks hin hinode hrun,
    hp.get_set_of_ne hinode hx (by decide), hp.get_set_of_ne hinode hx (by decide)]
  exact ⟨rfl, rfl⟩

end Heap.Placed

end Kmalloc
