import StandaloneSel4.Containers.Growth

/-!
# Writes without room

Two ways to write an element where no room was allocated for it. The constructor from a count notes
a reservation but allocates nothing, and the first growth then doubles the number of elements, which
is zero. And when `krealloc` finds no memory its answer replaces the pointer to the elements, and
the new one is written through it.
-/

open Prog

namespace Containers

variable {α : Type} {sizeof count : ℕ} {C : Op α → Vector → Prop} {m m' m₀ : Store α}
  {v v' : Vector} {value : Reference α} {tr : List (Event (ElementSig α))} {o : Option Vector}
  {op : Op α} {ops : List (Op α)}

/-! ### The constructor from a count -/

/-- The first `push_back` on a vector constructed from a count writes where there is no room. -/
theorem ofCount_append (hcount : count ≠ 0) :
  ((Vector.ofCount count).append sizeof value).wpIn (heap sizeof) m fun tr _ _ =>
    ¬ WritesWithin sizeof 0 tr
  := by
  have hsize : Word.mul (Vector.ofCount count).nextReservation sizeof = 0 := by
    have hnext : (Vector.ofCount count).nextReservation = 0 := if_neg hcount
    rw [hnext, Word.mul, Nat.zero_mul, Nat.zero_mod]
  rw [append_of_grows (.inl rfl), hsize]
  intro p m₁ _
  apply wpIn_bind
  apply wpIn_mono (load_reads sizeof m₁ _ value)
  rintro tr o m₂ ⟨-, hreads, x, rfl⟩ _ m₃ _ ⟨-, hwithin⟩
  obtain ⟨-, hwrite, -⟩ := writesWithin_append.mp hwithin
  have hlt := hwrite _ _ _ rfl
  rw [(hreads.writesWithin sizeof _).2] at hlt
  have hnone : 0 < 0 / sizeof := hlt
  rw [Nat.zero_div] at hnone
  exact absurd hnone (Nat.lt_irrefl 0)

/-- As long as such a vector is only cleared it stays as it was, and with the first `push_back` it
is written where there is no room. -/
theorem Run.ofCount (hcount : count ≠ 0)
    (hrun : Run sizeof C (Vector.ofCount count) m₀ ops tr v m) :
  ((∀ op ∈ ops, op = .clear) ∧ v = Vector.ofCount count ∧ tr = [])
    ∨ (¬ (∀ op ∈ ops, op = .clear) ∧ ¬ WritesWithin sizeof 0 tr)
  := by
  induction hrun with
  | nil => exact .inl ⟨nofun, rfl, rfl⟩
  | @op ops tr tr' v v' m m' op _ _ hruns ih =>
      rcases ih with ⟨hclear, rfl, rfl⟩ | ⟨hnot, hwithin⟩
      · rcases op.eq_clear_or_append sizeof with rfl | ⟨hne, value, hop⟩
        · cases hruns
          refine .inl ⟨?_, rfl, rfl⟩
          intro op hop
          rcases List.mem_append.mp hop with hop | hop
          · apply hclear op hop
          · apply List.mem_singleton.mp hop
        · rw [hop] at hruns
          refine .inr ⟨fun hall => ?_, wpIn_iff.mp (ofCount_append hcount) _ _ _ hruns⟩
          apply hne (hall op (List.mem_append_right ops List.mem_cons_self))
      · refine .inr ⟨fun hall => hnot fun op hop => ?_, fun h => ?_⟩
        · apply hall op (List.mem_append_left _ hop)
        · exact hwithin (writesWithin_append.mp h).1

/-- If no growth asks for 2^64 bytes or more and all memory is granted, a vector constructed from a
count is never written where there is no room exactly if the count is zero or nothing is pushed. -/
theorem Run.writesWithin_iff (hsizeof : 0 < sizeof)
    (hrun : Run sizeof (Fits sizeof) (Vector.ofCount count) m₀ ops tr v m)
    (hgranted : ∀ e ∈ tr, Granted e) :
  WritesWithin sizeof 0 tr ↔ count = 0 ∨ ∀ op ∈ ops, op = .clear
  := by
  by_cases hcount : count = 0
  · subst hcount
    have hholds := hrun.holds (fun _ _ h => h) hsizeof (Holds.new sizeof m₀ 0) hgranted
    exact iff_of_true hholds.1 (.inl rfl)
  · rcases hrun.ofCount hcount with ⟨hclear, -, rfl⟩ | ⟨hnot, hwithin⟩
    · exact iff_of_true trivial (.inr hclear)
    · apply iff_of_false hwithin
      rintro (hzero | hclear)
      · exact hcount hzero
      · exact hnot hclear

/-- With the count zero the vector is one that was constructed by default. -/
theorem Run.writesWithin_zero :
  ∃ tr v m, Run 4 (Fits 4) (Vector.ofCount 0) (fun _ => none) twelveElements tr v m
    ∧ WritesWithin 4 0 tr
  := by
  obtain ⟨v, m, tr, hrun, hgranted⟩ := exists_reaches_twelve
  have hrun' : Run 4 (Fits 4) (Vector.ofCount 0) (fun _ => none) twelveElements tr v m :=
    hrun.mono fun _ _ h => h.1
  exact ⟨tr, v, m, hrun', (Run.writesWithin_iff (by decide) hrun' hgranted).mpr (.inl rfl)⟩

/-- With the count one there is no room for the first element. -/
theorem Run.not_writesWithin_one :
  ∃ tr v m, Run 4 (Fits 4) (Vector.ofCount 1) (fun _ => none) [.pushBack (.value 5)] tr v m
    ∧ (∀ e ∈ tr, Granted e) ∧ ¬ WritesWithin 4 0 tr
  := by
  have hload : ∀ m : Store ℕ,
      Runs (heap 4) m ((Vector.ofCount 1).load (.value 5)) [] (some 5) m := fun m => Runs.ret m 5
  have hruns := runs_append_of_grows (m := fun _ => none) (p := 64) (.inl rfl) (by decide) rfl rfl
    (hload _)
  have hrun : Run 4 (Fits 4) (Vector.ofCount 1) (fun _ => none) [.pushBack (.value 5)] _ _ _ :=
    Run.op (.pushBack (.value 5)) Run.nil (fun _ => by decide) hruns
  refine ⟨_, _, _, hrun, ?_, ?_⟩
  · exact List.forall_mem_cons.mpr ⟨Nat.succ_ne_zero 63, List.forall_mem_singleton.mpr trivial⟩
  · rcases hrun.ofCount Nat.one_ne_zero with ⟨hclear, -⟩ | ⟨-, hnot⟩
    · cases hclear _ List.mem_cons_self
    · exact hnot

/-! ### No memory -/

/-- `krealloc` has returned null. -/
def Refused (tr : List (Event (ElementSig α))) : Prop :=
  ∃ ptr size, ⟨.krealloc ptr size, (0 : ℕ)⟩ ∈ tr

/-- The vector has the elements it had, in a block, and nothing was written through a null
pointer. -/
structure Unharmed (m : Store α) (v : Vector) (tr : List (Event (ElementSig α))) (m' : Store α)
    (v' : Vector) : Prop where
  size : v'.size = v.size
  data : v.data ≠ 0 → (m' v'.data).isSome
  elements : ∀ b b', m v.data = some b → m' v'.data = some b' → ∀ i < v.size,
    b'.cells i = b.cells i
  null : ∀ e ∈ tr, ∀ i x, e.call ≠ .write 0 i x

/-- Calls that read are no refusals. -/
theorem Reads.not_refused (h : Reads tr) :
  ¬ Refused tr
  := by
  rintro ⟨ptr, size, hmem⟩
  obtain ⟨data, i, hread⟩ := h _ hmem
  cases hread

theorem refused_append {tr' : List (Event (ElementSig α))} (h : Refused (tr ++ tr')) :
  Refused tr ∨ Refused tr'
  := by
  obtain ⟨ptr, size, hmem⟩ := h
  rcases List.mem_append.mp hmem with hmem | hmem
  · exact .inl ⟨ptr, size, hmem⟩
  · exact .inr ⟨ptr, size, hmem⟩

/-- Neither are those that read and then write. -/
theorem Reads.not_refused_write (h : Reads tr) (data i : ℕ) (x : α) :
  ¬ Refused (tr ++ [⟨.write data i x, ()⟩])
  := by
  intro hrefused
  rcases refused_append hrefused with hrefused | ⟨ptr, size, hmem⟩
  · exact h.not_refused hrefused
  · cases List.mem_singleton.mp hmem

/-- When `krealloc` returns null, `push_back` writes through it. -/
theorem append_refused (sizeof : ℕ) (m : Store α) (v : Vector) (value : Reference α) :
  (v.append sizeof value).wpIn (heap sizeof) m fun tr o _ =>
    Refused tr → o = some ⟨Word.add v.size 1, v.nextReservation, 0⟩
      ∧ ∃ x, ⟨.write 0 v.size x, ()⟩ ∈ tr
  := by
  by_cases hgrows : v.Grows
  · rw [append_of_grows hgrows]
    intro (p : ℕ) m₁ _
    apply wpIn_bind
    apply wpIn_mono (load_reads sizeof m₁ v value)
    rintro tr o m₂ ⟨-, hreads, x, rfl⟩ _ m₃ _ hrefused
    have hp : p = 0 := by
      obtain ⟨ptr, size, hmem⟩ := hrefused
      rcases List.mem_cons.mp hmem with heq | hmem
      · exact (eq_of_heq (Event.mk.inj heq).2).symm
      · exact absurd ⟨ptr, size, hmem⟩ (hreads.not_refused_write p v.size x)
    rw [hp]
    refine ⟨rfl, x, List.mem_cons_of_mem _ ?_⟩
    exact List.mem_append_right tr List.mem_cons_self
  · rw [append_of_room hgrows]
    apply wpIn_bind
    apply wpIn_mono (load_reads sizeof m v value)
    rintro tr o m₂ ⟨-, hreads, x, rfl⟩ _ m₃ _ hrefused
    exact absurd hrefused (hreads.not_refused_write v.data v.size x)

/-- A `push_back` during which `krealloc` returns null does not leave the vector as it was,
whatever the vector. -/
theorem not_unharmed (hruns : Runs (heap sizeof) m (op.run sizeof v) tr o m')
    (hrefused : Refused tr) :
  ¬ ∃ v', o = some v' ∧ Unharmed m v tr m' v'
  := by
  rintro ⟨v', -, hunharmed⟩
  rcases op.eq_clear_or_append sizeof with rfl | ⟨-, value, hop⟩
  · cases hruns
    obtain ⟨ptr, size, hmem⟩ := hrefused
    cases hmem
  · rw [hop] at hruns
    obtain ⟨-, x, hwrite⟩ := wpIn_iff.mp (append_refused sizeof m v value) _ _ _ hruns hrefused
    exact hunharmed.null _ hwrite _ _ rfl

/-- A `push_back` of a value without memory has a run. -/
theorem exists_refused (sizeof : ℕ) (m : Store α) (x : α) (hgrows : v.Grows) :
  ∃ tr o m', Runs (heap sizeof) m (v.append sizeof (.value x)) tr o m' ∧ Refused tr
  := by
  obtain ⟨m', hwrite⟩ := exists_heap_write sizeof m 0 v.size x
  rw [append_of_grows hgrows]
  refine ⟨_, _, m', Runs.call (x := (0 : ℕ)) (.inl ⟨rfl, rfl⟩) (Runs.call hwrite (Runs.ret m' _)),
    _, _, List.mem_cons_self⟩

/-- A block with ten elements. -/
def tenElements : Store ℕ :=
  Function.update (fun _ => none) 64 (some ⟨40, id⟩)

/-- Without memory for the eleventh element the first ten are lost. -/
theorem not_unharmed_full :
  ∃ tr o m', Runs (heap 4) tenElements ((Op.pushBack (.value 10)).run 4 ⟨10, 10, 64⟩) tr o m'
    ∧ ¬ ∃ v', o = some v' ∧ Unharmed tenElements ⟨10, 10, 64⟩ tr m' v'
  := by
  obtain ⟨tr, o, m', hruns, hrefused⟩ :=
    exists_refused (v := ⟨10, 10, 64⟩) 4 tenElements 10 (.inr (Nat.le_refl 10))
  have hruns : Runs (heap 4) tenElements ((Op.pushBack (.value 10)).run 4 ⟨10, 10, 64⟩) tr o m' :=
    hruns
  exact ⟨tr, o, m', hruns, not_unharmed hruns hrefused⟩

/-- Without memory for the first element the vector counts one that is nowhere. -/
theorem new_harmed :
  ∃ tr o m', Runs (heap 4) (fun _ => none) ((Op.pushBack (.value 5)).run 4 Vector.new) tr o m'
    ∧ Refused tr ∧ ¬ ∃ v', o = some v' ∧ Unharmed (fun _ => none) Vector.new tr m' v'
  := by
  obtain ⟨tr, o, m', hruns, hrefused⟩ :=
    exists_refused (v := Vector.new) 4 (fun _ => none) 5 (.inl rfl)
  refine ⟨tr, o, m', hruns, hrefused, ?_⟩
  rintro ⟨v', hv', hunharmed⟩
  obtain ⟨ho, -⟩ := wpIn_iff.mp (append_refused 4 _ _ (.value 5)) _ _ _ hruns hrefused
  rw [ho] at hv'
  obtain rfl := Option.some.inj hv'
  have hsize : 1 = 0 := hunharmed.size
  cases hsize

end Containers
