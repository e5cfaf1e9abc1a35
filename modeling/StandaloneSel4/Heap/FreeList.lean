import StandaloneSel4.Heap.Layout

/-!
# The free list

The chunks of the free list, from `head` to `tail`, are a doubly linked chain in the
memory. `init` chains the whole pool, `unlink` cuts a stretch out of the chain and
`relink` puts one back, whatever its chunks hold.
-/

namespace Kmalloc

open Bytes Linked

/-- The list reached from `head` through `next` is `pool[i]` for the `i` in `l`, ends at
`tail`, and is mirrored by the `prev` links. -/
def Heap.FreeChain (h : Heap) (l : List ℕ) : Prop :=
  Chained (get .next h.mem) (get .prev h.mem) (h.head :: l.map h.chunk ++ [h.tail])

variable {h : Heap}

/-! ### Linking chunks -/

theorem linkChunk_outside {m : Mem} {p c b : ℕ} (hb : b < c ∨ c + 32 ≤ b) :
  linkChunk m p c b = m b
  := by
  rw [linkChunk, set_of_outside hb, set_of_outside hb, set_of_outside hb]

/-- Linking chunks writes in these chunks only. -/
theorem linkChunks_outside {n : ℕ} {m : Mem} {p c b : ℕ} (hend : c + 32 * n < 2 ^ 64)
    (hb : b < c ∨ c + 32 * n ≤ b) :
  (linkChunks n m p c).1 b = m b
  := by
  induction n generalizing m p c with
  | zero => rfl
  | succ n ih =>
      have hc : Word.add c sizeofChunk = c + 32 := by
        apply Word.add_of_lt
        simp only [sizeofChunk]
        omega
      rw [linkChunks, hc, ih (by omega) (by omega), linkChunk_outside (by omega)]

namespace Heap.Placed

variable (hp : h.Placed)

include hp

theorem next_linkChunk {i x a : ℕ} (hi : i < h.chunkMax) (hx : x < 2 ^ 64)
    (ha : h.IsNode a) (m : Mem) :
  get .next (linkChunk m x (h.chunk i)) a
    = if a = h.chunk i then h.chunk (i + 1) else get .next m a
  := by
  have hc : h.IsNode (h.chunk i) := Heap.isNode_chunk hi
  have hlt : h.chunk (i + 1) < 2 ^ 64 := hp.chunk_lt (by omega)
  rw [linkChunk, hp.add_chunk hi, hp.get_set ha hc (by decide), hp.get_set ha hc hlt,
    hp.get_set ha hc hx]
  simp

theorem prev_linkChunk {i x a : ℕ} (hi : i < h.chunkMax) (hx : x < 2 ^ 64)
    (ha : h.IsNode a) (m : Mem) :
  get .prev (linkChunk m x (h.chunk i)) a
    = if a = h.chunk i then x else get .prev m a
  := by
  have hc : h.IsNode (h.chunk i) := Heap.isNode_chunk hi
  have hlt : h.chunk (i + 1) < 2 ^ 64 := hp.chunk_lt (by omega)
  rw [linkChunk, hp.add_chunk hi, hp.get_set ha hc (by decide), hp.get_set ha hc hlt,
    hp.get_set ha hc hx]
  simp

/-- Linking one more chunk behind the end of a chain makes it the end. -/
theorem linkChunk_chain {i : ℕ} (hi : i < h.chunkMax) {m : Mem} {k : List ℕ} {x : ℕ}
    (hk : Chained (get .next m) (get .prev m) (k ++ [x])) (hnode : ∀ a ∈ k ++ [x], h.IsNode a)
    (hout : ∀ a ∈ k ++ [x], a ≠ h.chunk i) (hx : get .next m x = h.chunk i) :
  let m' := linkChunk m x (h.chunk i)
  Chained (get .next m') (get .prev m') (k ++ [x] ++ [h.chunk i])
  := by
  have hxmem : x ∈ k ++ [x] := by simp
  have hlt := hp.node_lt (hnode x hxmem)
  apply hk.join (chained_singleton _)
  · rintro a (ha | ha)
    · have hmem : a ∈ k ++ [x] := List.mem_append_left _ ha
      rw [hp.next_linkChunk hi hlt (hnode a hmem), if_neg (hout a hmem)]
    · cases ha
  · rintro b (hb | hb)
    · rw [hp.prev_linkChunk hi hlt (hnode b hb), if_neg (hout b hb)]
    · cases hb
  · rw [hp.next_linkChunk hi hlt (hnode x hxmem), if_neg (hout x hxmem), hx]
  · rw [hp.prev_linkChunk hi hlt (Heap.isNode_chunk hi), if_pos rfl]

/-- Linking the chunks from `pool[i]` on behind the end of a chain makes them part of
it. -/
theorem linkChunks_chain {n i : ℕ} (hin : i + n ≤ h.chunkMax) {m : Mem} {k : List ℕ} {x : ℕ}
    (hk : Chained (get .next m) (get .prev m) (k ++ [x]))
    (hnode : ∀ a ∈ k ++ [x], h.IsNode a)
    (hout : ∀ a ∈ k ++ [x], ∀ j, i ≤ j → j < i + n → a ≠ h.chunk j)
    (hx : 0 < n → get .next m x = h.chunk i) :
  let r := linkChunks n m x (h.chunk i)
  ∃ k', k ++ [x] ++ (List.range' i n).map h.chunk = k' ++ [r.2]
    ∧ Chained (get .next r.1) (get .prev r.1) (k' ++ [r.2])
  := by
  induction n generalizing i m k x with
  | zero =>
      use k
      simpa [linkChunks] using hk
  | succ n ih =>
      have hi : i < h.chunkMax := by omega
      have hchain := hp.linkChunk_chain hi hk hnode
        (fun a ha => hout a ha i le_rfl (by omega)) (hx (by omega))
      have hmem : ∀ a ∈ k ++ [x] ++ [h.chunk i], a ∈ k ++ [x] ∨ a = h.chunk i := by
        intro a ha
        simpa [or_assoc] using ha
      rw [linkChunks, hp.add_chunk hi]
      obtain ⟨k', heq, hchain'⟩ := ih (i := i + 1) (by omega) hchain
        (fun a ha => by
          rcases hmem a ha with ha | rfl
          · apply hnode a ha
          · apply Heap.isNode_chunk hi)
        (fun a ha j hij hj => by
          rcases hmem a ha with ha | rfl
          · apply hout a ha j (by omega) (by omega)
          · rw [ne_eq, Heap.chunk_inj]
            omega)
        (fun _ => by
          rw [hp.next_linkChunk hi (hp.node_lt (hnode x (by simp))) (Heap.isNode_chunk hi),
            if_pos rfl])
      use k', by rw [← heq, List.range'_succ]; simp

/-- Linking a stretch of the pool leaves the other linkable chunks as they are. -/
theorem get_linkChunks {n i : ℕ} (hin : i + n ≤ h.chunkMax) {m : Mem} {x a : ℕ}
    (ha : h.IsNode a) (hout : ∀ j, i ≤ j → j < i + n → a ≠ h.chunk j) (f : Field) :
  get f (linkChunks n m x (h.chunk i)).1 a = get f m a
  := by
  have hend := hp.pool_end
  apply get_congr
  intro b hb hb'
  have hchunk : h.chunk i + 32 * n < 2 ^ 64 := by
    simp only [Heap.chunk]
    omega
  apply linkChunks_outside hchunk
  by_contra hnot
  -- otherwise the byte would lie in a chunk of the stretch, from which `a` is apart
  obtain ⟨j, hij, hj, hbj⟩ :
      ∃ j, i ≤ j ∧ j < i + n ∧ h.chunk j ≤ b ∧ b < h.chunk j + 32 := by
    use i + (b - h.chunk i) / 32
    simp only [Heap.chunk] at hnot ⊢
    omega
  have hjnode : h.IsNode (h.chunk j) := Heap.isNode_chunk (by omega)
  have hap := (hp.eq_or_apart ha hjnode).resolve_left (hout j hij hj)
  rcases hap with hap | hap <;> omega

/-- The chunks linked have the count zero. -/
theorem count_linkChunks {n i : ℕ} (hin : i + n ≤ h.chunkMax) {m : Mem} {x : ℕ} {j : ℕ}
    (hij : i ≤ j) (hj : j < i + n) :
  get .count (linkChunks n m x (h.chunk i)).1 (h.chunk j) = 0
  := by
  induction n generalizing i m x with
  | zero => omega
  | succ n ih =>
      have hi : i < h.chunkMax := by omega
      rw [linkChunks, hp.add_chunk hi]
      rcases Nat.eq_or_lt_of_le hij with rfl | hlt
      · rw [hp.get_linkChunks (by omega) (Heap.isNode_chunk hi)]
        · rw [linkChunk, get_set_self _ _ _ (by decide)]
        · intro k hk _
          rw [ne_eq, Heap.chunk_inj]
          omega
      · apply ih (by omega) (by omega) (by omega)

/-- The last of the chunks linked can be linked on. -/
theorem isNode_linkChunks {n i : ℕ} (hin : i + n ≤ h.chunkMax) {m : Mem} {x : ℕ}
    (hx : h.IsNode x) :
  h.IsNode (linkChunks n m x (h.chunk i)).2
  := by
  induction n generalizing i m x with
  | zero => exact hx
  | succ n ih =>
      have hi : i < h.chunkMax := by omega
      rw [linkChunks, hp.add_chunk hi]
      apply ih (by omega) (Heap.isNode_chunk hi)

/-! ### Linking two chunks -/

/-- What linking `x` to `y` does to the links of linkable chunks. -/
theorem next_linkEnds {x y a : ℕ} (hx : h.IsNode x) (hy : h.IsNode y) (ha : h.IsNode a)
    (m : Mem) :
  get .next (linkEnds m x y) a = if a = x then y else get .next m a
  := by
  rw [linkEnds, hp.get_set ha hy (hp.node_lt hx), hp.get_set ha hx (hp.node_lt hy)]
  simp

theorem prev_linkEnds {x y a : ℕ} (hx : h.IsNode x) (hy : h.IsNode y) (ha : h.IsNode a)
    (m : Mem) :
  get .prev (linkEnds m x y) a = if a = y then x else get .prev m a
  := by
  rw [linkEnds, hp.get_set ha hy (hp.node_lt hx), hp.get_set ha hx (hp.node_lt hy)]
  simp

/-- Linking two chunks leaves the other fields of linkable chunks as they are. -/
theorem get_linkEnds {x y a : ℕ} (hx : h.IsNode x) (hy : h.IsNode y) (ha : h.IsNode a)
    (m : Mem) {f : Field} (hnext : f ≠ .next) (hprev : f ≠ .prev) :
  get f (linkEnds m x y) a = get f m a
  := by
  rw [linkEnds, hp.get_set ha hy (hp.node_lt hx), if_neg (fun h => hprev h.2),
    hp.get_set ha hx (hp.node_lt hy), if_neg (fun h => hnext h.2)]

/-- Linking the end of a chain to the start of another makes them one chain. -/
theorem linkEnds_chain {m : Mem} {k t : List ℕ} {x y : ℕ}
    (hk : Chained (get .next m) (get .prev m) (k ++ [x]))
    (ht : Chained (get .next m) (get .prev m) (y :: t))
    (hnode : ∀ a ∈ k ++ [x] ++ y :: t, h.IsNode a) (hnodup : (k ++ [x] ++ y :: t).Nodup) :
  Chained (get .next (linkEnds m x y)) (get .prev (linkEnds m x y)) (k ++ [x] ++ y :: t)
  := by
  have hx : h.IsNode x := hnode x (by simp)
  have hy : h.IsNode y := hnode y (by simp)
  rw [List.nodup_append, List.nodup_append] at hnodup
  obtain ⟨⟨-, -, hkx⟩, hyt, hne⟩ := hnodup
  apply hk.join ht
  · rintro a (ha | ha)
    · have hmem : a ∈ k ++ [x] := List.mem_append_left _ ha
      rw [hp.next_linkEnds hx hy (hnode a (List.mem_append_left _ hmem)),
        if_neg (hkx a ha x (List.mem_singleton_self x))]
    · have hmem : a ∈ y :: t := List.dropLast_subset _ ha
      rw [hp.next_linkEnds hx hy (hnode a (List.mem_append_right _ hmem)),
        if_neg (hne x (by simp) a hmem).symm]
  · rintro b (hb | hb)
    · rw [hp.prev_linkEnds hx hy (hnode b (List.mem_append_left _ hb)),
        if_neg (hne b hb y List.mem_cons_self)]
    · have hmem : b ∈ y :: t := List.mem_cons_of_mem y hb
      rw [hp.prev_linkEnds hx hy (hnode b (List.mem_append_right _ hmem)), if_neg]
      intro hby
      apply (List.nodup_cons.mp hyt).1
      rw [← hby]
      exact hb
  · rw [hp.next_linkEnds hx hy hx, if_pos rfl]
  · rw [hp.prev_linkEnds hx hy hy, if_pos rfl]

/-- A stretch of the pool linked behind a chain, its last chunk linked to the start of
another, makes the two chains one with the stretch between them. -/
theorem linkChunks_linkEnds_chain {n i : ℕ} (hin : i + n ≤ h.chunkMax) {m : Mem}
    {k t : List ℕ} {x y : ℕ} (hk : Chained (get .next m) (get .prev m) (k ++ [x]))
    (ht : Chained (get .next m) (get .prev m) (y :: t))
    (hnode : ∀ a ∈ k ++ [x] ++ (List.range' i n).map h.chunk ++ y :: t, h.IsNode a)
    (hnodup : (k ++ [x] ++ (List.range' i n).map h.chunk ++ y :: t).Nodup)
    (hx : 0 < n → get .next m x = h.chunk i) :
  let r := linkChunks n m x (h.chunk i)
  Chained (get .next (linkEnds r.1 r.2 y)) (get .prev (linkEnds r.1 r.2 y))
    (k ++ [x] ++ (List.range' i n).map h.chunk ++ y :: t)
  := by
  have hrun : ∀ j, i ≤ j → j < i + n → h.chunk j ∈ (List.range' i n).map h.chunk := by
    intro j hij hj
    apply List.mem_map_of_mem
    apply List.mem_range'_1.mpr ⟨hij, hj⟩
  have hdis := hnodup
  rw [List.nodup_append, List.nodup_append] at hdis
  obtain ⟨⟨-, -, hdis₁⟩, -, hdis₂⟩ := hdis
  obtain ⟨k', heq, hchain⟩ := hp.linkChunks_chain hin hk
    (fun a ha => hnode a (by
      rw [List.mem_append, List.mem_append]
      exact .inl (.inl ha)))
    (fun a ha j hij hj => hdis₁ a ha _ (hrun j hij hj)) hx
  -- the chunks of the chain behind the stretch are as they were
  have hsame : ∀ a ∈ y :: t, ∀ f, get f (linkChunks n m x (h.chunk i)).1 a = get f m a := by
    intro a ha f
    apply hp.get_linkChunks hin (hnode a (List.mem_append_right _ ha))
    intro j hij hj
    apply (hdis₂ _ (List.mem_append_right _ (hrun j hij hj)) a ha).symm
  intro r
  rw [heq] at hnode hnodup ⊢
  apply hp.linkEnds_chain hchain
  · apply ht.congr
    · intro a ha
      apply hsame a (List.dropLast_subset _ ha)
    · intro b hb
      apply hsame b (List.mem_of_mem_tail hb)
  · exact hnode
  · exact hnodup

end Heap.Placed

end Kmalloc
