import StandaloneSel4.Containers.Growth

/-!
# Erasing

`erase` moves the elements behind the erased one to the left, and stops there: the size is as it
was, and the last element is still the last one.
-/

open Prog

namespace Containers

variable {α : Type} {sizeof room i : ℕ} {m m' : Store α} {v : Vector} {l : List α} {x : α}
  {tr : List (Event (ElementSig α))} {o : Option (Vector × ℕ)}

/-- An assignment to an element changes it in the list. -/
theorem Holds.set (h : Holds sizeof m room v l) (hi : i < l.length)
    (hanswer : heap sizeof m (.write v.data i x) () m') :
  Holds sizeof m' room v (l.set i x)
  := by
  have hdata := h.data_ne_zero (Nat.zero_lt_of_lt hi)
  obtain ⟨hpos, hroom, -⟩ := h.block hdata
  obtain ⟨b, hb, hbytes, hself, hothers⟩ := h.assign hdata (Nat.lt_of_lt_of_le hi h.le) hanswer
  constructor
  · rw [List.length_set]
    exact h.size
  · rw [List.length_set]
    exact h.le
  · exact h.fits
  · exact h.null
  · intro _
    refine ⟨hpos, hroom, b, hb, hbytes, ?_⟩
    intro j y hy
    by_cases hj : j = i
    · subst hj
      rw [List.getElem?_set_self hi] at hy
      rw [hself]
      exact Option.some.inj hy
    · rw [List.getElem?_set_ne (Ne.symm hj)] at hy
      apply hothers j y hj hy

/-- From an element on the loop leaves, before the last one, what is left without that element. -/
theorem Holds.eraseLoop (h : Holds sizeof m room v l) (hi : i < l.length) :
  (v.eraseLoop i i).wpIn (heap sizeof) m fun _ o m' =>
    o = some () ∧ ∃ l', Holds sizeof m' room v l' ∧ l'.dropLast = l.eraseIdx i
  := by
  have hsize := h.size
  generalize hn : l.length - i = n
  induction n generalizing l m i with
  | zero => omega
  | succ n ih =>
      rw [Vector.eraseLoop]
      by_cases hlast : i + 1 = v.size
      · rw [if_pos hlast]
        refine ⟨rfl, l, h, ?_⟩
        rw [List.eraseIdx_eq_dropLast (by omega)]
      · have hlt : i + 1 < l.length := by omega
        rw [if_neg hlast, if_neg (by omega)]
        apply wpIn_bind
        apply wpIn_mono (h.get (List.getElem?_eq_getElem hlt))
        rintro tr o m₁ ⟨rfl, rfl⟩
        intro _ m₂ hanswer
        have hset := h.set hi hanswer
        have hloop := ih (i := i + 1) hset (by rwa [List.length_set])
          (by rw [List.length_set, hsize]) (by rw [List.length_set]; omega)
        apply wpIn_mono hloop
        rintro tr' o m₃ ⟨rfl, l', hl', hdrop⟩
        refine ⟨rfl, l', hl', ?_⟩
        rw [hdrop, List.eraseIdx_set_gt (Nat.lt_succ_self i), List.set_getElem_succ_eraseIdx_succ]

/-- `erase` returns the position, and leaves a vector as long as before. -/
theorem Holds.erase (h : Holds sizeof m room v l) (hi : i < l.length) :
  (v.erase i).wpIn (heap sizeof) m fun _ o m' =>
    o = some (v, i) ∧ ∃ l', Holds sizeof m' room v l' ∧ l'.dropLast = l.eraseIdx i
  := by
  apply wpIn_bind
  apply wpIn_mono (h.eraseLoop hi)
  rintro tr o m₁ ⟨rfl, hholds⟩
  exact ⟨rfl, hholds⟩

/-- `erase` does not change the fields of the vector, if it returns. -/
theorem erase_fields (sizeof : ℕ) (m : Store α) (v : Vector) (i : ℕ) :
  (v.erase i).wpIn (heap sizeof) m fun _ o _ => ∀ v' r, o = some (v', r) → v' = v
  := by
  apply wpIn_bind
  rw [wpIn_iff]
  intro tr o m' _
  cases o with
  | none => nofun
  | some _ =>
      intro v' r heq
      cases heq
      rfl

/-- Whatever the elements and the position, `erase` does not leave the list without the element at
the position. -/
theorem not_erased (h : IsList sizeof m v l) (hi : i < l.length)
    (hruns : Runs (heap sizeof) m (v.erase i) tr o m') :
  ¬ ∃ v' r, o = some (v', r) ∧ IsList sizeof m' v' (l.eraseIdx i) ∧ r = i
  := by
  rintro ⟨v', r, hret, herased, -⟩
  have hfields := wpIn_iff.mp (erase_fields sizeof m v i) _ _ _ hruns v' r hret
  have hsize := herased.size
  rw [hfields, h.size, List.length_eraseIdx_of_lt hi] at hsize
  omega

/-- The heap answers every call. -/
theorem exists_answer [Inhabited α] (sizeof : ℕ) (m : Store α) (c : ElementCall α) :
  ∃ x m', heap sizeof m c x m'
  := by
  cases c with
  | krealloc ptr size => exact ⟨(0 : ℕ), m, .inl ⟨rfl, rfl⟩⟩
  | read data i =>
      obtain ⟨x, hread⟩ := exists_heap_read sizeof m data i default
      exact ⟨x, m, hread⟩
  | write data i value =>
      obtain ⟨m', hwrite⟩ := exists_heap_write sizeof m data i value
      exact ⟨(), m', hwrite⟩

/-- A block for ten elements of four bytes, with these. -/
def elementsAt (data : ℕ) (l : List ℕ) : Store ℕ :=
  Function.update (fun _ => none) data (some ⟨40, fun i => (l[i]?).getD 0⟩)

/-- The vector in it holds them. -/
theorem holds_elementsAt {data : ℕ} {l : List ℕ} (hdata : data ≠ 0) (hle : l.length ≤ 10) :
  Holds 4 (elementsAt data l) 10 ⟨l.length, 10, data⟩ l
  := by
  have hfits : 10 * 4 < 2 ^ 64 := by decide
  refine ⟨rfl, hle, hfits, fun hnull => absurd hnull hdata, fun _ => ⟨Nat.succ_pos 9, rfl, ?_⟩⟩
  refine ⟨_, Function.update_self _ _ _, rfl, fun i x hx => ?_⟩
  change (l[i]?).getD 0 = x
  rw [hx]
  rfl

/-- Of three elements the one in the middle is not erased. -/
theorem not_erased_three :
  ∃ tr o m', Runs (heap 4) (elementsAt 64 [5, 6, 7]) ((⟨3, 10, 64⟩ : Vector).erase 1) tr o m'
    ∧ ¬ ∃ v' r, o = some (v', r) ∧ IsList 4 m' v' ([5, 6, 7].eraseIdx 1) ∧ r = 1
  := by
  have hholds : Holds 4 (elementsAt 64 [5, 6, 7]) 10 ⟨3, 10, 64⟩ [5, 6, 7] :=
    holds_elementsAt (by decide) (by decide)
  obtain ⟨tr, o, m', hruns⟩ :=
    exists_runs (exists_answer 4) ((⟨3, 10, 64⟩ : Vector).erase 1) (elementsAt 64 [5, 6, 7])
  refine ⟨tr, o, m', hruns, ?_⟩
  apply not_erased (hholds.observed (by decide)) (by decide) hruns

/-- A vector of one element is not empty after its first element has been erased. -/
theorem one_not_empty :
  ∃ tr m', Runs (heap 4) (elementsAt 64 [5]) ((⟨1, 10, 64⟩ : Vector).erase 0) tr
      (some (⟨1, 10, 64⟩, 0)) m'
    ∧ (⟨1, 10, 64⟩ : Vector).empty = false ∧ ¬ IsList 4 m' ⟨1, 10, 64⟩ []
  := by
  have hholds : Holds 4 (elementsAt 64 [5]) 10 ⟨1, 10, 64⟩ [5] :=
    holds_elementsAt (by decide) (by decide)
  obtain ⟨tr, o, m', hruns⟩ :=
    exists_runs (exists_answer 4) ((⟨1, 10, 64⟩ : Vector).erase 0) (elementsAt 64 [5])
  obtain ⟨rfl, -⟩ := wpIn_iff.mp (hholds.erase (by decide)) _ _ _ hruns
  refine ⟨tr, m', hruns, rfl, ?_⟩
  intro hnil
  cases hnil.size

end Containers
