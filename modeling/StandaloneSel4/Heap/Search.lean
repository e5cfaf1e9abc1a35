import StandaloneSel4.Heap.Splice
import StandaloneSel4.Lib.FirstFit
import Mathlib.Order.Bounds.Defs

/-!
# The loops of the allocator

What the three loops that need not end do when they are run on a well-formed free list:
`chunk_count` rounds up, or runs for ever on sizes close to `2 ^ 64`; the search of
`kmalloc_no_lock` is the walk of `FirstFit.firstRun` along the free list; the search of
`relink` stops at the last chunk of the list before the address it is given.
-/

namespace Kmalloc

open Bytes Fuel Linked FirstFit

/-! ### Counting chunks -/

theorem chunkCount_stable (size : ℕ) :
  Stable (chunkCount size)
  := loop_stable _ _

/-- From a multiple of the size of a chunk not above the next one the loop of
`chunk_count` goes up to that one. -/
theorem chunkCount_loop {size k : ℕ} (hsize : Word.add size 32 ≤ 2 ^ 64 - 32)
    (hk : k ≤ (Word.add size 32 + 31) / 32) :
  Returns (fun n => loop (chunkCountRound size) n (32 * k, k)) ((Word.add size 32 + 31) / 32)
  := by
  induction hd : (Word.add size 32 + 31) / 32 - k generalizing k with
  | zero =>
      have hround : chunkCountRound size (32 * k, k) = .inr k := by
        simp only [chunkCountRound, sizeofInfo]
        rw [if_neg (by omega)]
      rw [show (Word.add size 32 + 31) / 32 = k by omega]
      apply Returns.loop_inr hround
  | succ d ih =>
      have hround : chunkCountRound size (32 * k, k) = .inl (32 * (k + 1), k + 1) := by
        simp only [chunkCountRound, sizeofInfo, sizeofChunk]
        rw [if_pos (by omega), Word.add_of_lt (by omega), Word.add_of_lt (by omega), Nat.mul_succ]
      apply Returns.loop_inl hround
      apply ih (by omega) (by omega)

/-- The loop of `chunk_count` does not end when the bytes to provide exceed the last
multiple of the size of a chunk. -/
theorem chunkCount_diverges {size : ℕ} (hsize : 2 ^ 64 - 32 < Word.add size 32) (n : ℕ) :
  ¬ Returns (chunkCount size) n
  := by
  intro h
  apply loop_invariant (I := fun s => s.1 % 32 = 0 ∧ s.1 < 2 ^ 64) (Q := fun _ => False) _ _ _ h
  · rintro ⟨a, k⟩ s' ⟨ha, hlt⟩ hround
    simp only [chunkCountRound, sizeofInfo, sizeofChunk] at ha hlt hround
    rw [if_pos (by omega)] at hround
    obtain rfl := Sum.inl.inj hround
    simp only [Word.add]
    omega
  · rintro ⟨a, k⟩ r ⟨ha, hlt⟩ hround
    simp only [chunkCountRound, sizeofInfo] at ha hlt hround
    rw [if_pos (by omega)] at hround
    cases hround
  · decide

/-- `chunk_count` returns exactly when the bytes to provide, as a word, do not exceed the
last multiple of the size of a chunk, and then their number of chunks rounded up. -/
theorem chunkCount_returns_iff {size n : ℕ} :
  Returns (chunkCount size) n
    ↔ Word.add size 32 ≤ 2 ^ 64 - 32 ∧ n = (Word.add size 32 + 31) / 32
  := by
  constructor
  · intro h
    by_cases hsize : Word.add size 32 ≤ 2 ^ 64 - 32
    · use hsize
      apply (chunkCount_stable size).unique h
      apply chunkCount_loop hsize (Nat.zero_le _)
    · exact absurd h (chunkCount_diverges (by omega) n)
  · rintro ⟨hsize, rfl⟩
    apply chunkCount_loop hsize (Nat.zero_le _)

/-- `chunk_count` ends, and when the bytes to provide are no more than a word can say, with the
least number of chunks that provides them. -/
def CountsChunks (size : ℕ) : Prop :=
  ∃ n, Returns (chunkCount size) n
    ∧ (size + sizeofInfo < 2 ^ 64 → IsLeast {k | size + sizeofInfo ≤ k * sizeofChunk} n)

/-- It does so unless the bytes to provide are more than the last multiple of the size of a
chunk. -/
theorem countsChunks_iff {size : ℕ} (hsize : size < 2 ^ 64) :
  CountsChunks size ↔ ¬ (2 ^ 64 - 64 < size ∧ size < 2 ^ 64 - 32)
  := by
  constructor
  · rintro ⟨n, hn, -⟩ ⟨hlo, hhi⟩
    apply chunkCount_diverges _ n hn
    rw [Word.add_of_lt (by omega)]
    omega
  · intro hnot
    by_cases hword : size + 32 < 2 ^ 64
    · have hadd : Word.add size 32 = size + 32 := Word.add_of_lt hword
      refine ⟨(size + 32 + 31) / 32, chunkCount_returns_iff.mpr ?_, fun _ => ⟨?_, ?_⟩⟩
      · rw [hadd]
        omega
      · change size + 32 ≤ (size + 32 + 31) / 32 * 32
        omega
      · intro k (hk : size + 32 ≤ k * 32)
        omega
    · -- the sum wraps around to less than a chunk
      have hadd : Word.add size 32 = size + 32 - 2 ^ 64 := by
        rw [Word.add]
        omega
      refine ⟨(Word.add size 32 + 31) / 32, chunkCount_returns_iff.mpr ?_, ?_⟩
      · rw [hadd]
        omega
      · intro hlt
        exact absurd hlt hword

/-- It counts the chunks of a page. -/
theorem countsChunks_page :
  CountsChunks 4096
  := (countsChunks_iff (by decide)).mpr (by decide)

/-- It does not end on a size 33 bytes below `2 ^ 64`. -/
theorem not_countsChunks_top :
  ¬ CountsChunks (2 ^ 64 - 33)
  := by
  rintro ⟨n, hn, -⟩
  apply chunkCount_diverges _ n hn
  decide

/-! ### Searching the free list -/

/-- With an element less the search may keep one more. -/
theorem succ_lt_of_length {keep a : ℕ} {l : List ℕ} (h : keep + (a :: l).length < 2 ^ 64) :
  keep + 1 < 2 ^ 64
  := by
  rw [List.length_cons] at h
  omega

namespace Heap.Placed

variable {h : Heap} (hp : h.Placed)

include hp

/-- A round of the search of `kmalloc_no_lock` at a chunk of the pool. -/
theorem searchRound_chunk {chunks i keep top : ℕ} (hi : i < h.chunkMax)
    (hkeep : keep + 1 < 2 ^ 64) :
  searchRound h chunks ⟨h.chunk i, keep, top⟩
    = if keep + 1 = chunks then .inr (some top)
      else if get .next h.mem (h.chunk i) = h.chunk (i + 1) then
        .inl ⟨get .next h.mem (h.chunk i), keep + 1, top⟩
      else .inl ⟨get .next h.mem (h.chunk i), 0, get .next h.mem (h.chunk i)⟩
  := by
  simp only [searchRound]
  rw [if_neg (hp.tail_ne_chunk hi).symm, Word.add_of_lt hkeep, hp.add_chunk hi]

/-- The search of `kmalloc_no_lock` is the walk for a run of free chunks. -/
theorem search_returns {chunks : ℕ} {l : List ℕ} {t keep top : ℕ}
    (hmem : ∀ i ∈ l, i < h.chunkMax)
    (hchain : Chained (get .next h.mem) (get .prev h.mem) (l.map h.chunk ++ [h.tail]))
    (htop : ∀ a ∈ l.head?, top = h.chunk t) (hkeep : keep + l.length < 2 ^ 64) :
  Returns (fun n => loop (searchRound h chunks) n ⟨(l.map h.chunk).headD h.tail, keep, top⟩)
    ((firstRun chunks t keep l).map h.chunk)
  := by
  induction t, keep, l using firstRun.induct chunks generalizing top with
  | case1 t keep =>
      rw [firstRun]
      apply Returns.loop_inr
      simp [searchRound]
  | case2 t keep a hn =>
      have ha := hmem a List.mem_cons_self
      have hlt := succ_lt_of_length hkeep
      rw [firstRun, if_pos hn, htop a rfl]
      apply Returns.loop_inr
      exact (hp.searchRound_chunk ha hlt).trans (if_pos hn)
  | case3 t keep a hn =>
      have ha := hmem a List.mem_cons_self
      have hlt := succ_lt_of_length hkeep
      have hnext : get .next h.mem (h.chunk a) = h.tail :=
        ((List.isChain_cons_cons.mp hchain).1).1
      rw [firstRun, if_neg hn]
      -- whichever way the round ends, the next one finds the end of the list
      obtain ⟨s, hs, hcurr⟩ : ∃ s, searchRound h chunks ⟨h.chunk a, keep, top⟩ = .inl s
          ∧ s.curr = h.tail := by
        rw [hp.searchRound_chunk ha hlt, if_neg hn, hnext]
        split
        · exact ⟨_, rfl, rfl⟩
        · exact ⟨_, rfl, rfl⟩
      apply Returns.loop_inl hs
      apply Returns.loop_inr
      simp [searchRound, hcurr]
  | case4 t keep a b l hn =>
      have ha := hmem a List.mem_cons_self
      have hlt := succ_lt_of_length hkeep
      rw [firstRun, if_pos hn, htop a rfl]
      apply Returns.loop_inr
      exact (hp.searchRound_chunk ha hlt).trans (if_pos hn)
  | case5 t keep a l hn ih =>
      have ha := hmem a List.mem_cons_self
      have hlt := succ_lt_of_length hkeep
      have hnext : get .next h.mem (h.chunk a) = h.chunk (a + 1) :=
        ((List.isChain_cons_cons.mp hchain).1).1
      rw [firstRun, if_neg hn, if_pos rfl]
      have hs : searchRound h chunks ⟨h.chunk a, keep, top⟩
          = .inl ⟨h.chunk (a + 1), keep + 1, top⟩ := by
        rw [hp.searchRound_chunk ha hlt, if_neg hn, hnext, if_pos rfl]
      apply Returns.loop_inl hs
      apply ih
      · intro i hi
        apply hmem i (List.mem_cons_of_mem _ hi)
      · exact (List.isChain_cons_cons.mp hchain).2
      · intro _ _
        exact htop a rfl
      · rw [List.length_cons] at hkeep
        omega
  | case6 t keep a b l hn hb ih =>
      have ha := hmem a List.mem_cons_self
      have hlt := succ_lt_of_length hkeep
      have hnext : get .next h.mem (h.chunk a) = h.chunk b :=
        ((List.isChain_cons_cons.mp hchain).1).1
      rw [firstRun, if_neg hn, if_neg hb]
      have hs : searchRound h chunks ⟨h.chunk a, keep, top⟩
          = .inl ⟨h.chunk b, 0, h.chunk b⟩ := by
        rw [hp.searchRound_chunk ha hlt, if_neg hn, hnext,
          if_neg (fun heq => hb (Heap.chunk_inj.mp heq))]
      apply Returns.loop_inl hs
      apply ih
      · intro i hi
        apply hmem i (List.mem_cons_of_mem _ hi)
      · exact (List.isChain_cons_cons.mp hchain).2
      · intro _ _
        rfl
      · rw [List.length_cons] at hkeep
        omega

/-- The search of `relink` for the address `top` stops at the last chunk before it. -/
theorem relink_search {top : ℕ} {l₁ l₂ : List ℕ} {x : ℕ}
    (hmem : ∀ i ∈ l₁ ++ l₂, i < h.chunkMax)
    (hchain : Chained (get .next h.mem) (get .prev h.mem)
      (x :: (l₁ ++ l₂).map h.chunk ++ [h.tail]))
    (h₁ : ∀ i ∈ l₁, h.chunk i < top) (h₂ : ∀ i ∈ l₂.head?, top ≤ h.chunk i) {k : List ℕ}
    {y : ℕ} (hk : x :: l₁.map h.chunk = k ++ [y]) :
  Returns (fun n => loop (relinkRound h top) n x) y
  := by
  induction l₁ generalizing x k with
  | nil =>
      obtain ⟨rfl, rfl⟩ : k = [] ∧ y = x := by
        simpa using List.append_eq_singleton_iff.mp hk.symm
      apply Returns.loop_inr
      cases l₂ with
      | nil =>
          have hnext : get .next h.mem y = h.tail := ((List.isChain_cons_cons.mp hchain).1).1
          simp only [relinkRound]
          rw [if_neg (fun h => h.1 hnext)]
      | cons b l₂ =>
          have hnext : get .next h.mem y = h.chunk b := ((List.isChain_cons_cons.mp hchain).1).1
          have hb := h₂ b rfl
          simp only [relinkRound]
          rw [if_neg]
          rintro ⟨-, hlt⟩
          omega
  | cons a l₁ ih =>
      have hnext : get .next h.mem x = h.chunk a := ((List.isChain_cons_cons.mp hchain).1).1
      have htail := hp.tail_ne_chunk (hmem a (by simp))
      obtain ⟨k', rfl, hk'⟩ : ∃ k', k = x :: k' ∧ h.chunk a :: l₁.map h.chunk = k' ++ [y] := by
        cases k with
        | nil => simp at hk
        | cons z k =>
            simp only [List.map_cons, List.cons_append, List.cons.injEq] at hk
            obtain ⟨rfl, hk⟩ := hk
            use k
      have hround : relinkRound h top x = .inl (h.chunk a) := by
        simp only [relinkRound, hnext]
        rw [if_pos ⟨htail.symm, h₁ a List.mem_cons_self⟩]
      apply Returns.loop_inl hround
      apply ih
      · intro i hi
        apply hmem i (by simpa using .inr (by simpa using hi))
      · exact (List.isChain_cons_cons.mp hchain).2
      · intro i hi
        apply h₁ i (List.mem_cons_of_mem _ hi)
      · exact hk'

end Heap.Placed

end Kmalloc
