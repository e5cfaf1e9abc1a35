import StandaloneSel4.Lib.FirstFit
import Mathlib.Algebra.GroupWithZero.Nat
import Mathlib.Data.List.Nodup
import Mathlib.Data.List.Perm.Subperm
import Mathlib.Algebra.BigOperators.Group.List.Basic

/-!
# Arenas

An arena of `n` positions holds live blocks, stretches of consecutive positions inside the
arena no two of which share a position. Its free positions are those that belong to no
block. Taking a free stretch as a block and giving a block back yield an arena again; the
one takes the stretch out of the ascending list of the free positions, the other puts it
back where it was.
-/

namespace Arena

universe u

/-- A block: `len` positions from `start` on, labelled by `tag`. -/
structure Block (ι : Type u) where
  start : ℕ
  len : ℕ
  tag : ι
  deriving DecidableEq

variable {ι : Type u} {n : ℕ}

/-- The position `i` belongs to the block. -/
def Block.Covers (b : Block ι) (i : ℕ) : Prop :=
  b.start ≤ i ∧ i < b.start + b.len

instance (b : Block ι) (i : ℕ) : Decidable (b.Covers i) :=
  inferInstanceAs (Decidable (_ ∧ _))

/-- Two blocks one of which ends before the other starts. -/
def Block.Apart (b c : Block ι) : Prop :=
  b.start + b.len ≤ c.start ∨ c.start + c.len ≤ b.start

end Arena

open Arena

universe u

/-- The live blocks of an arena of `n` positions: none is empty, all lie inside, and they
lie apart. -/
structure Arena (n : ℕ) (ι : Type u) where
  live : List (Block ι)
  pos : ∀ b ∈ live, 0 < b.len
  inside : ∀ b ∈ live, b.start + b.len ≤ n
  apart : live.Pairwise Block.Apart

namespace Arena

variable {ι : Type u} {n : ℕ}

/-- The arena without blocks. -/
def empty (n : ℕ) (ι : Type u) : Arena n ι where
  live := []
  pos := by simp
  inside := by simp
  apart := List.Pairwise.nil

/-- The positions that belong to no block, in ascending order. -/
def free (A : Arena n ι) : List ℕ :=
  (List.range n).filter (fun i => ∀ b ∈ A.live, ¬ b.Covers i)

@[simp]
theorem mem_free (A : Arena n ι) (i : ℕ) :
  i ∈ A.free ↔ i < n ∧ ∀ b ∈ A.live, ¬ b.Covers i
  := by
  simp [free]

theorem free_sorted (A : Arena n ι) :
  A.free.Pairwise (· < ·)
  := List.Pairwise.filter _ List.pairwise_lt_range

/-- The free positions before a position and the others. -/
theorem free_split (A : Arena n ι) (start : ℕ) :
  A.free = A.free.filter (· < start) ++ A.free.filter (start ≤ ·)
  := by
  have hsplit := FirstFit.eq_append_of_isRun A.free_sorted (n := 0) (t := start) (by
    intro i hi hlt
    omega)
  simpa using hsplit

/-- An ascending list of the positions that belong to no block is the list of the free
positions. -/
theorem free_eq (A : Arena n ι) {l : List ℕ} (hl : l.Pairwise (· < ·))
    (h : ∀ i, i ∈ l ↔ i ∈ A.free) :
  A.free = l
  := by
  symm
  apply List.Pairwise.eq_of_mem_iff hl A.free_sorted
  apply h

@[simp]
theorem free_empty :
  (empty n ι).free = List.range' 0 n
  := by
  apply free_eq
  · exact List.pairwise_lt_range'
  · intro i
    simp [empty, List.mem_range'_1]

/-- Two different blocks of an arena lie apart. -/
theorem apart_of_mem (A : Arena n ι) {b c : Block ι} (hb : b ∈ A.live) (hc : c ∈ A.live)
    (hne : b ≠ c) :
  b.Apart c
  := by
  apply List.Pairwise.forall_of_forall_of_flip (R := fun x y => x ≠ y → x.Apart y) _ _ _ hb hc hne
  · intro x _ h
    exact absurd rfl h
  · apply A.apart.imp
    intro x y h _
    apply h
  · apply A.apart.imp
    intro x y h _
    apply Or.symm h

theorem nodup_live (A : Arena n ι) :
  A.live.Nodup
  := by
  apply A.apart.imp_of_mem
  rintro b c hb - hbc rfl
  have hpos := A.pos b hb
  unfold Block.Apart at hbc
  omega

/-! ### Room -/

/-- The blocks of an arena have no more positions than the arena. -/
theorem sum_len_le (A : Arena n ι) :
  (A.live.map Block.len).sum ≤ n
  := by
  have hnodup : (A.live.flatMap (fun b => List.range' b.start b.len)).Nodup := by
    rw [List.nodup_flatMap]
    constructor
    · intro b _
      exact List.nodup_range'
    · apply A.apart.imp
      intro b c hbc i hib hic
      rw [List.mem_range'_1] at hib hic
      unfold Block.Apart at hbc
      omega
  have hsub : A.live.flatMap (fun b => List.range' b.start b.len) ⊆ List.range n := by
    intro i hi
    obtain ⟨b, hb, hi⟩ := List.mem_flatMap.mp hi
    rw [List.mem_range'_1] at hi
    rw [List.mem_range]
    have := A.inside b hb
    omega
  have hlen := (List.subperm_of_subset hnodup hsub).length_le
  rw [List.length_flatMap, List.length_range] at hlen
  simpa using hlen

/-! ### Taking a block -/

/-- The arena with the stretch of free positions of `b` taken as a block. -/
def take (A : Arena n ι) (b : Block ι) (hpos : 0 < b.len)
    (hfree : FirstFit.IsRun A.free b.len b.start) : Arena n ι where
  live := b :: A.live
  pos := by
    intro c hc
    rcases List.mem_cons.mp hc with rfl | hc
    · exact hpos
    · apply A.pos c hc
  inside := by
    intro c hc
    rcases List.mem_cons.mp hc with rfl | hc
    · have hlast := hfree (c.start + c.len - 1) (by omega) (by omega)
      rw [mem_free] at hlast
      omega
    · apply A.inside c hc
  apart := by
    apply List.Pairwise.cons _ A.apart
    intro c hc
    by_contra hnot
    -- blocks that are not apart share the later of their starts
    have hcpos := A.pos c hc
    have hshared := hfree (max b.start c.start) (by omega) (by
      unfold Block.Apart at hnot
      omega)
    rw [mem_free] at hshared
    apply hshared.2 c hc
    unfold Block.Covers
    unfold Block.Apart at hnot
    omega

@[simp]
theorem live_take (A : Arena n ι) (b : Block ι) (hpos : 0 < b.len)
    (hfree : FirstFit.IsRun A.free b.len b.start) :
  (A.take b hpos hfree).live = b :: A.live
  := rfl

/-- Taking a block takes its stretch out of the list of the free positions. -/
theorem free_take (A : Arena n ι) (b : Block ι) (hpos : 0 < b.len)
    (hfree : FirstFit.IsRun A.free b.len b.start) {l₁ l₂ : List ℕ}
    (h : A.free = l₁ ++ List.range' b.start b.len ++ l₂) :
  (A.take b hpos hfree).free = l₁ ++ l₂
  := by
  have hsort := A.free_sorted
  rw [h, List.pairwise_append, List.pairwise_append] at hsort
  obtain ⟨⟨hl₁, -, h₁⟩, hl₂, h₂⟩ := hsort
  apply free_eq
  · rw [List.pairwise_append]
    use hl₁, hl₂
    intro i hi j hj
    apply h₂ i (List.mem_append_left _ hi) j hj
  · intro i
    have hi : i ∈ A.free ↔ (i ∈ l₁ ∨ b.Covers i) ∨ i ∈ l₂ := by
      rw [h, List.mem_append, List.mem_append, List.mem_range'_1]
      exact Iff.rfl
    have hnot : i ∈ l₁ ++ l₂ → ¬ b.Covers i := by
      intro hmem hcov
      rcases List.mem_append.mp hmem with hmem | hmem
      · have := h₁ i hmem i (List.mem_range'_1.mpr hcov)
        omega
      · have := h₂ i (List.mem_append_right _ (List.mem_range'_1.mpr hcov)) i hmem
        omega
    rw [mem_free] at hi
    rw [mem_free, live_take, List.forall_mem_cons]
    rw [List.mem_append] at hnot ⊢
    tauto

/-! ### Giving a block back -/

variable [DecidableEq ι]

/-- The arena with the block `b` given back. -/
def give (A : Arena n ι) (b : Block ι) : Arena n ι where
  live := A.live.erase b
  pos c hc := A.pos c (List.mem_of_mem_erase hc)
  inside c hc := A.inside c (List.mem_of_mem_erase hc)
  apart := A.apart.sublist List.erase_sublist

@[simp]
theorem live_give (A : Arena n ι) (b : Block ι) :
  (A.give b).live = A.live.erase b
  := rfl

/-- What is live when a block has been given back was live, and is apart from it. -/
theorem apart_of_mem_give (A : Arena n ι) {b c : Block ι} (hb : b ∈ A.live)
    (hc : c ∈ (A.give b).live) :
  c ∈ A.live ∧ c.Apart b
  := by
  obtain ⟨hne, hc⟩ := A.nodup_live.mem_erase_iff.mp hc
  exact ⟨hc, A.apart_of_mem hc hb hne⟩

/-- Giving a block back frees its positions. -/
theorem mem_free_give (A : Arena n ι) {b : Block ι} (hb : b ∈ A.live) {i : ℕ} :
  i ∈ (A.give b).free ↔ i ∈ A.free ∨ b.Covers i
  := by
  rw [mem_free, mem_free]
  constructor
  · rintro ⟨hin, hno⟩
    by_cases hcov : b.Covers i
    · exact .inr hcov
    · left
      use hin
      intro c hc
      by_cases hcb : c = b
      · rw [hcb]
        exact hcov
      · apply hno c (A.nodup_live.mem_erase_iff.mpr ⟨hcb, hc⟩)
  · rintro (⟨hin, hno⟩ | hcov)
    · exact ⟨hin, fun c hc => hno c (List.mem_of_mem_erase hc)⟩
    · have hin := A.inside b hb
      unfold Block.Covers at hcov
      use by omega
      intro c hc hci
      have hap := (A.apart_of_mem_give hb hc).2
      unfold Block.Covers at hci
      unfold Block.Apart at hap
      omega

/-- Giving a block back puts its stretch back between the free positions before it and
those after it. -/
theorem free_give (A : Arena n ι) {b : Block ι} (hb : b ∈ A.live) :
  (A.give b).free
    = A.free.filter (· < b.start) ++ List.range' b.start b.len ++ A.free.filter (b.start ≤ ·)
  := by
  have hsort := A.free_sorted
  rw [A.free_split b.start, List.pairwise_append] at hsort
  obtain ⟨hl₁, hl₂, hl⟩ := hsort
  -- a free position after the start of the block is after its end
  have hafter : ∀ i ∈ A.free.filter (b.start ≤ ·), b.start + b.len ≤ i := by
    intro i hi
    simp only [List.mem_filter, decide_eq_true_eq, mem_free] at hi
    have hnot := hi.1.2 b hb
    unfold Block.Covers at hnot
    omega
  apply free_eq
  · rw [List.pairwise_append, List.pairwise_append]
    and_intros
    · exact hl₁
    · exact List.pairwise_lt_range'
    · intro i hi j hj
      simp only [List.mem_filter, decide_eq_true_eq] at hi
      rw [List.mem_range'_1] at hj
      omega
    · exact hl₂
    · intro i hi j hj
      have hbj := hafter j hj
      rw [List.mem_append, List.mem_range'_1] at hi
      rcases hi with hi | hi
      · apply hl i hi j hj
      · omega
  · intro i
    rw [A.mem_free_give hb, List.mem_append, List.mem_append, List.mem_range'_1]
    simp only [List.mem_filter, decide_eq_true_eq]
    have htotal := Nat.lt_or_ge i b.start
    unfold Block.Covers
    tauto

end Arena
