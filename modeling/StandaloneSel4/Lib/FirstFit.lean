import Mathlib.Data.List.Sort

/-!
# First fit in an ascending list

The runs of an ascending list of numbers are its stretches of consecutive ones.
`firstRun n` walks the list once, keeping the start of the stretch it is in and the number
of its members met so far, and leaves with the start of the first stretch that reaches
length `n`. It finds the least start of a run of length `n` (`firstRun_some`), and fails
only when there is none (`firstRun_none`).
-/

namespace FirstFit

/-- The `n` numbers from `t` on are in the list. -/
def IsRun (l : List ℕ) (n t : ℕ) : Prop :=
  ∀ i, t ≤ i → i < t + n → i ∈ l

/-- A walk along the list `l` for a run of length `n`: `top` is the start of the present
stretch and `keep` the number of its members already met. -/
def firstRun (n : ℕ) : ℕ → ℕ → List ℕ → Option ℕ
  | _, _, [] => none
  | top, keep, [_] => if keep + 1 = n then some top else none
  | top, keep, a :: b :: l =>
      if keep + 1 = n then some top
      else if b = a + 1 then firstRun n top (keep + 1) (b :: l)
      else firstRun n b 0 (b :: l)

/-- The members of an ascending list before a run, in it and after it. -/
theorem eq_append_of_isRun {l : List ℕ} (hl : l.Pairwise (· < ·)) {n t : ℕ}
    (h : IsRun l n t) :
  l = l.filter (· < t) ++ List.range' t n ++ l.filter (t + n ≤ ·)
  := by
  apply List.Pairwise.eq_of_mem_iff hl
  · rw [List.pairwise_append, List.pairwise_append]
    and_intros
    · apply hl.filter
    · exact List.pairwise_lt_range'
    · intro a ha b hb
      simp only [List.mem_filter, decide_eq_true_eq] at ha
      rw [List.mem_range'_1] at hb
      omega
    · apply hl.filter
    · intro a ha b hb
      simp only [List.mem_filter, decide_eq_true_eq] at hb
      rw [List.mem_append, List.mem_filter, List.mem_range'_1] at ha
      simp only [decide_eq_true_eq] at ha
      omega
  · intro i
    simp only [List.mem_append, List.mem_filter, List.mem_range'_1, decide_eq_true_eq]
    constructor
    · intro hi
      by_cases h₁ : i < t
      · exact .inl (.inl ⟨hi, h₁⟩)
      · by_cases h₂ : i < t + n
        · exact .inl (.inr ⟨by omega, h₂⟩)
        · exact .inr ⟨hi, by omega⟩
    · rintro ((⟨hi, -⟩ | ⟨h₁, h₂⟩) | ⟨hi, -⟩)
      · exact hi
      · apply h i h₁ h₂
      · exact hi

/-- Where the walk for a run of length `n` stands in the list `L`: behind it `pre`, where
no such run starts, and the `keep` members of the present stretch, from `top` on; before
it `l`, which goes on at `top + keep`. -/
structure Walk (L : List ℕ) (n top keep : ℕ) (pre l : List ℕ) : Prop where
  split : L = pre ++ List.range' top keep ++ l
  sorted : L.Pairwise (· < ·)
  short : keep < n
  behind : ∀ t ∈ pre, ¬ IsRun L n t
  head : ∀ a ∈ l.head?, a = top + keep

namespace Walk

variable {L pre l : List ℕ} {n top keep : ℕ}

/-- A run starts in the present stretch or after it. -/
theorem le_start (w : Walk L n top keep pre l) (hl : l ≠ [] ∨ 0 < keep) {t : ℕ}
    (ht : IsRun L n t) :
  top ≤ t
  := by
  obtain ⟨hL, hsort, hshort, hbehind, hhead⟩ := w
  have hmem : t ∈ L := ht t le_rfl (by omega)
  rw [hL, List.mem_append, List.mem_append, List.mem_range'_1] at hmem
  rcases hmem with (hpre | hstretch) | hrest
  · exact absurd ht (hbehind t hpre)
  · exact hstretch.1
  · rw [hL, List.pairwise_append] at hsort
    cases l with
    | nil => cases hrest
    | cons a l =>
        have ha := hhead a rfl
        rcases List.mem_cons.mp hrest with rfl | hrest
        · omega
        · have hlt := List.rel_of_pairwise_cons hsort.2.1 hrest
          omega

/-- No run starts in a stretch that ends too short. -/
theorem not_isRun (w : Walk L n top keep pre l)
    (hend : ∀ a ∈ l, top + keep < a) (t : ℕ) (ht : t < top + keep) :
  ¬ IsRun L n t
  := by
  intro hrun
  obtain ⟨hL, hsort, hshort, hbehind, -⟩ := w
  have hmem : t ∈ L := hrun t le_rfl (by omega)
  have htop : top ≤ t := by
    rw [hL, List.mem_append, List.mem_append, List.mem_range'_1] at hmem
    rcases hmem with (hpre | hstretch) | hrest
    · exact absurd hrun (hbehind t hpre)
    · exact hstretch.1
    · have := hend t hrest
      omega
  -- the number right after the stretch would belong to the run
  have hnext : top + keep ∈ L := hrun (top + keep) (by omega) (by omega)
  rw [hL, List.pairwise_append, List.pairwise_append] at hsort
  rw [hL, List.mem_append, List.mem_append, List.mem_range'_1] at hnext
  rcases hnext with (hpre | hstretch) | hrest
  · have := hsort.1.2.2 (top + keep) hpre t (by rw [List.mem_range'_1]; omega)
    omega
  · omega
  · have := hend _ hrest
    omega

/-- The walk goes on in the same stretch. -/
theorem step {a : ℕ} (w : Walk L n top keep pre (a :: l)) (hn : keep + 1 ≠ n)
    (hnext : ∀ b ∈ l.head?, b = a + 1) :
  Walk L n top (keep + 1) pre l
  := by
  obtain ⟨hL, hsort, hshort, hbehind, hhead⟩ := w
  have ha := hhead a rfl
  constructor
  · rw [hL, List.range'_1_concat, ha]
    simp
  · exact hsort
  · omega
  · exact hbehind
  · intro b hb
    rw [hnext b hb, ha]
    omega

/-- The walk leaves a stretch that ended too short for the next one. -/
theorem leave {a b : ℕ} (w : Walk L n top keep pre (a :: b :: l)) (hn : keep + 1 ≠ n)
    (hb : b ≠ a + 1) :
  Walk L n b 0 (pre ++ List.range' top (keep + 1)) (b :: l)
  := by
  obtain ⟨hL, hsort, hshort, hbehind, hhead⟩ := w
  have ha := hhead a rfl
  have hL' : L = pre ++ List.range' top (keep + 1) ++ b :: l := by
    rw [hL, List.range'_1_concat, ha]
    simp
  have hab : a < b := by
    rw [hL, List.pairwise_append] at hsort
    apply List.rel_of_pairwise_cons hsort.2.1 List.mem_cons_self
  have hafter : ∀ c ∈ b :: l, top + (keep + 1) < c := by
    intro c hc
    rcases List.mem_cons.mp hc with rfl | hc
    · omega
    · rw [hL, List.pairwise_append] at hsort
      have := List.rel_of_pairwise_cons (List.Pairwise.of_cons hsort.2.1) hc
      omega
  constructor
  · rw [hL']
    simp
  · exact hsort
  · omega
  · intro t ht
    rw [List.mem_append, List.mem_range'_1] at ht
    rcases ht with ht | ht
    · exact hbehind t ht
    · have hshort' : keep + 1 < n := by omega
      intro hrun
      have hnext : top + (keep + 1) ∈ L := hrun _ (by omega) (by omega)
      rw [hL', List.mem_append, List.mem_append, List.mem_range'_1] at hnext
      rcases hnext with (hpre | hin) | hrest
      · rw [hL', List.pairwise_append, List.pairwise_append] at hsort
        have := hsort.1.2.2 _ hpre t (by rw [List.mem_range'_1]; omega)
        omega
      · omega
      · have := hafter _ hrest
        omega
  · intro c hc
    simp at hc
    omega

end Walk

/-- A walk with nothing before it has met every run there is. -/
theorem Walk.finish {L pre : List ℕ} {n top keep : ℕ} (w : Walk L n top keep pre []) (t : ℕ) :
  ¬ IsRun L n t
  := by
  by_cases ht : t < top + keep
  · apply w.not_isRun (by simp) t ht
  · intro hrun
    obtain ⟨hL, -, hshort, hbehind, -⟩ := w
    have hmem : t ∈ L := hrun t le_rfl (by omega)
    rw [hL, List.append_nil, List.mem_append, List.mem_range'_1] at hmem
    rcases hmem with hpre | hstretch
    · exact hbehind t hpre hrun
    · omega

/-- A stretch that reaches length `n` is the first run of that length. -/
theorem Walk.found {L pre l : List ℕ} {n top keep a : ℕ} (w : Walk L n top keep pre (a :: l))
    (hn : keep + 1 = n) :
  IsRun L n top ∧ ∀ s, IsRun L n s → top ≤ s
  := by
  constructor
  · intro i hi hi'
    rw [w.split, w.head a rfl, List.mem_append, List.mem_append, List.mem_range'_1]
    by_cases h : i < top + keep
    · exact .inl (.inr ⟨hi, h⟩)
    · right
      rw [show i = top + keep by omega]
      apply List.mem_cons_self
  · intro s hs
    apply w.le_start (.inl (List.cons_ne_nil a l)) hs

/-- The walk leaves with the least start of a run, and fails only when there is none. -/
theorem firstRun_spec {L : List ℕ} {n top keep : ℕ} {pre l : List ℕ}
    (w : Walk L n top keep pre l) :
  match firstRun n top keep l with
  | some t => IsRun L n t ∧ ∀ s, IsRun L n s → t ≤ s
  | none => ∀ s, ¬ IsRun L n s
  := by
  induction top, keep, l using firstRun.induct n generalizing pre with
  | case1 top keep =>
      rw [firstRun]
      apply w.finish
  | case2 top keep a h =>
      rw [firstRun, if_pos h]
      apply w.found h
  | case3 top keep a h =>
      rw [firstRun, if_neg h]
      apply (w.step h (by simp)).finish
  | case4 top keep a b l h =>
      rw [firstRun, if_pos h]
      apply w.found h
  | case5 top keep a l h ih =>
      rw [firstRun, if_neg h, if_pos rfl]
      apply ih
      apply w.step h
      intro c hc
      simp at hc
      omega
  | case6 top keep a b l h hb ih =>
      rw [firstRun, if_neg h, if_neg hb]
      apply ih
      apply w.leave h hb

/-- The walk from the start of an ascending list. -/
theorem Walk.start {l : List ℕ} (hl : l.Pairwise (· < ·)) {n top : ℕ} (hn : 0 < n)
    (htop : ∀ a ∈ l.head?, a = top) :
  Walk l n top 0 [] l
  where
  split := by simp
  sorted := hl
  short := hn
  behind := by simp
  head := htop

/-- What is found starts a run, and no run starts before it. -/
theorem firstRun_some {l : List ℕ} (hl : l.Pairwise (· < ·)) {n top t : ℕ} (hn : 0 < n)
    (htop : ∀ a ∈ l.head?, a = top) (h : firstRun n top 0 l = some t) :
  IsRun l n t ∧ ∀ s, IsRun l n s → t ≤ s
  := by
  have hspec := firstRun_spec (Walk.start hl hn htop)
  rw [h] at hspec
  exact hspec

/-- When nothing is found, there is no run. -/
theorem firstRun_none {l : List ℕ} (hl : l.Pairwise (· < ·)) {n top : ℕ} (hn : 0 < n)
    (htop : ∀ a ∈ l.head?, a = top) (h : firstRun n top 0 l = none) (s : ℕ) :
  ¬ IsRun l n s
  := by
  have hspec := firstRun_spec (Walk.start hl hn htop)
  rw [h] at hspec
  exact hspec s

/-- No stretch reaches length zero, the walk having met one member at least. -/
theorem firstRun_zero (top keep : ℕ) (l : List ℕ) :
  firstRun 0 top keep l = none
  := by
  induction top, keep, l using firstRun.induct 0 with
  | case1 => rw [firstRun]
  | case2 top keep a h => omega
  | case3 top keep a h => rw [firstRun, if_neg h]
  | case4 top keep a b l h => omega
  | case5 top keep a l h ih => rw [firstRun, if_neg h, if_pos rfl, ih]
  | case6 top keep a b l h hb ih => rw [firstRun, if_neg h, if_neg hb, ih]

end FirstFit
