import StandaloneSel4.Objects.Paging

/-!
# Supplying a page table

When the kernel misses a page table, `mapPage` makes one and passes its `Expected` on as a
capability. What arrives is the truth value of the `Expected`, so that the kernel is asked to map
what is in the slot one, and an assertion fails when it does not.
-/

open SeL4 Prog

namespace PageTable

open InitialUntypedPool

variable {μ : Type} {retype : μ → ℕ → ObjectType → Option μ} {info : BootInfo} {pt : PageTable}
  {K : Paging μ} {m m' : μ} {s vaddr : ℕ} {rights : CapRights}

/-- A missing page table has been supplied: what the kernel was asked to map are page tables that
have been made, and `mapPage` has returned a frame that is mapped at the address. -/
structure Supplied (vaddr : ℕ) (tr : List (Event KernelSig))
    (o : Option (Expected ℕ Error × PageTable)) (K : Paging μ) : Prop where
  pageTable : ∀ p v e, ⟨.x86PageTableMap p v, e⟩ ∈ tr → MadeIn .x86PageTableObject p tr
  returned : ∃ frame pt', o = some (success frame, pt') ∧ K.object frame = some .x86_4K
    ∧ K.mapped frame = some vaddr

/-- What `mapPage` does when a page table is missing: it makes a frame in a slot and a page table
in the next, and asks to map what is in the slot one. -/
structure Supplies (s vaddr : ℕ) (tr : List (Event KernelSig))
    (o : Option (Expected ℕ Error × PageTable)) (K : Paging μ) : Prop where
  asked : ∃ e, ⟨.x86PageTableMap 1 vaddr, e⟩ ∈ tr
  made : ∀ p, MadeIn .x86PageTableObject p tr → p = s + 1
  supplied : s = 0 → Supplied vaddr tr o K

/-- The pool hands out the slot behind a free one. -/
theorem slot?_after (hfree : info.empty.Contains s) :
  (after s).slot? info = some (s + 1)
  := by
  have hstop := info.empty.stop_lt
  have hlt := hfree.2
  have hafter : (after s).emptySlotPos = s + 1 := Word.add_of_lt (by omega)
  apply slot?_eq_some.mpr
  rw [hafter]
  exact .inr ⟨Nat.succ_ne_zero s, hlt, rfl⟩

/-- Objects of another type are made in no slot. -/
theorem MadeIn.type_eq {type type' : ObjectType} {p slot : ℕ} {tr : List (Event KernelSig)}
    (h : MadeIn type p tr) (hretypes : OnlyRetypes type' slot tr) :
  type = type' ∧ p = slot
  := by
  obtain ⟨untyped, hmem⟩ := h
  obtain ⟨untyped', x, heq⟩ := hretypes _ hmem
  cases heq
  exact ⟨rfl, rfl⟩

theorem not_asked {type : ObjectType} {slot p v : ℕ} {e : Error} {tr : List (Event KernelSig)}
    (hretypes : OnlyRetypes type slot tr) :
  ⟨.x86PageTableMap p v, e⟩ ∉ tr
  := by
  intro hmem
  obtain ⟨untyped, x, heq⟩ := hretypes _ hmem
  cases heq

/-- The system calls of a `mapPage` that has missed a page table, up to the answer to the request to
map one, and those after it. -/
def supplying (s vaddr : ℕ) (rights : CapRights) (tr tr' : List (Event KernelSig)) (e : Error)
    (rest : List (Event KernelSig)) : List (Event KernelSig) :=
  tr ++ ⟨.x86PageMap s vaddr rights, Error.failedLookup⟩
    :: ⟨.mappingFailedLookupLevel, LookupLevel.noPT⟩
    :: (tr' ++ ⟨.x86PageTableMap 1 vaddr, e⟩ :: rest)

section

variable {tr tr' rest : List (Event KernelSig)} {e : Error}
  (hretypes : OnlyRetypes .x86_4K s tr) (hretypes' : OnlyRetypes .x86PageTableObject (s + 1) tr')
  (hrest : ∀ a ∈ rest, ∃ x, a = ⟨.x86PageMap s vaddr rights, x⟩)

include hretypes hretypes' hrest

/-- A page table is made in the slot behind the frame only. -/
theorem eq_of_made_supplying {p : ℕ}
    (h : MadeIn .x86PageTableObject p (supplying s vaddr rights tr tr' e rest)) :
  p = s + 1
  := by
  obtain ⟨untyped, hmem⟩ := h
  simp only [supplying, List.mem_append, List.mem_cons] at hmem
  rcases hmem with hmem | hmem | hmem | hmem | hmem | hmem
  · obtain ⟨htype, -⟩ := MadeIn.type_eq ⟨untyped, hmem⟩ hretypes
    cases htype
  · cases hmem
  · cases hmem
  · apply (MadeIn.type_eq ⟨untyped, hmem⟩ hretypes').2
  · cases hmem
  · obtain ⟨x, heq⟩ := hrest _ hmem
    cases heq

/-- The kernel is asked to map what is in the slot one only. -/
theorem eq_of_asked_supplying {p v : ℕ} {x : Error}
    (h : ⟨.x86PageTableMap p v, x⟩ ∈ supplying s vaddr rights tr tr' e rest) :
  p = 1
  := by
  simp only [supplying, List.mem_append, List.mem_cons] at h
  rcases h with h | h | h | h | h | h
  · exact absurd h (not_asked hretypes)
  · cases h
  · cases h
  · exact absurd h (not_asked hretypes')
  · cases h
    rfl
  · obtain ⟨x, heq⟩ := hrest _ h
    cases heq

/-- What such system calls amount to. -/
theorem supplying_supplies (hmade : MadeIn .x86PageTableObject (s + 1) tr')
    {o : Option (Expected ℕ Error × PageTable)}
    (hreturned : s = 0 → ∃ frame pt', o = some (success frame, pt')
      ∧ K.object frame = some .x86_4K ∧ K.mapped frame = some vaddr) :
  Supplies s vaddr (supplying s vaddr rights tr tr' e rest) o K
  := by
  constructor
  · use e
    simp [supplying]
  · intro p hp
    apply eq_of_made_supplying hretypes hretypes' hrest hp
  · rintro rfl
    constructor
    · intro p v x hasked
      rw [eq_of_asked_supplying hretypes hretypes' hrest hasked]
      obtain ⟨untyped, hmem⟩ := hmade
      use untyped
      simp [supplying, hmem]
    · apply hreturned rfl

end

/-- What happens once the kernel has missed a page table. -/
theorem mapPage_wpIn (hnext : pt.untypedPool.slot? info = some s) (hfree : info.empty.Contains s)
    (hslot : K.object s = none) (hslot' : K.object (s + 1) = none)
    (hframe : info.allocate retype K.memory .x86_4K = some m)
    (htable : info.allocate retype m .x86PageTableObject = some m')
    (hmissing : ¬ K.HasTable vaddr) :
  (mapPage info vaddr rights pt).wpIn (Paging.kernel retype) K (Supplies s vaddr)
  := by
  unfold mapPage
  apply wpIn_bind
  apply wpIn_mono (allocObject_wpIn hnext hslot hframe)
  rintro tr o K₁ ⟨rfl, rfl, hretypes, -⟩
  dsimp only [success]
  rw [if_pos rfl, x86PageMap_bind, wpIn_call]
  have hmissing₁ : ¬ (K.made s .x86_4K m).HasTable vaddr := fun h => hmissing h.of_made
  rintro e K₂ (⟨-, hhas, -⟩ | ⟨-, -, rfl, rfl⟩ | ⟨hnot, -⟩)
  · exact absurd hhas hmissing₁
  · rw [if_pos rfl, mappingFailedLookupLevel_bind, wpIn_call]
    rintro level K₃ ⟨rfl, rfl⟩
    change (allocObject info .x86PageTableObject (after s) >>= _).wpIn _ _ _
    apply wpIn_bind
    have hempty : (K.made s .x86_4K m).object (s + 1) = none := by
      rw [Paging.made_object_of_ne (Nat.succ_ne_self s), hslot']
    apply wpIn_mono (allocObject_wpIn (slot?_after hfree) hempty htable)
    rintro tr' o K₄ ⟨rfl, rfl, hretypes', hmade⟩
    dsimp only
    rw [x86PageTableMap_bind, wpIn_call]
    rintro e K₅ (⟨htable, rfl, rfl⟩ | ⟨hnot, herror, rfl⟩)
    · rw [if_pos rfl, x86PageMap_bind, wpIn_call]
      intro e K₆ hanswer
      have hrest : ∀ a ∈ [(⟨.x86PageMap s vaddr rights, e⟩ : Event KernelSig)],
          ∃ x, a = ⟨.x86PageMap s vaddr rights, x⟩ := by
        intro a ha
        exact ⟨e, List.mem_singleton.mp ha⟩
      apply supplying_supplies hretypes hretypes' hrest hmade
      rintro rfl
      have hunmapped : (((K.made 0 .x86_4K m).made 1 .x86PageTableObject m').map 1
          (some vaddr)).Unmapped 0 .x86_4K := by
        apply Paging.Unmapped.map _ Nat.zero_ne_one
        apply Paging.made_unmapped.made Nat.zero_ne_one
      obtain rfl := hunmapped.mapped (Paging.hasTable_map htable.1) hanswer
      exact ⟨0, _, rfl, hunmapped.1, Paging.map_mapped_self⟩
    · rw [if_neg herror]
      have hrest : ∀ a ∈ ([] : List (Event KernelSig)), ∃ x, a = ⟨.x86PageMap s vaddr rights, x⟩ :=
        nofun
      apply supplying_supplies hretypes hretypes' hrest hmade
      rintro rfl
      exact absurd Paging.made_unmapped hnot
  · exact absurd Paging.made_unmapped hnot

/-- The page table has been supplied when the slot that `mapPage` asks to map is its own. -/
theorem Supplies.supplied_iff {tr : List (Event KernelSig)}
    {o : Option (Expected ℕ Error × PageTable)} (h : Supplies s vaddr tr o K) :
  Supplied vaddr tr o K ↔ s = 0
  := by
  constructor
  · intro hsupplied
    obtain ⟨e, hasked⟩ := h.asked
    have hone := h.made 1 (hsupplied.pageTable 1 vaddr e hasked)
    omega
  · apply h.supplied

/-- When the kernel misses a page table, and there are free slots and memory for one, `mapPage`
supplies it exactly when the frame gets the slot zero. -/
theorem mapPage_supplied_iff (hnext : pt.untypedPool.slot? info = some s)
    (hfree : info.empty.Contains s) (hslot : K.object s = none) (hslot' : K.object (s + 1) = none)
    (hframe : info.allocate retype K.memory .x86_4K = some m)
    (htable : info.allocate retype m .x86PageTableObject = some m')
    (hmissing : ¬ K.HasTable vaddr) :
  (∀ tr o K', Runs (Paging.kernel retype) K (mapPage info vaddr rights pt) tr o K' →
      Supplied vaddr tr o K')
    ↔ s = 0
  := by
  have hwp : (mapPage info vaddr rights pt).wpIn (Paging.kernel retype) K (Supplies s vaddr) :=
    mapPage_wpIn hnext hfree hslot hslot' hframe htable hmissing
  have hsupplies := wpIn_iff.mp hwp
  constructor
  · intro hall
    obtain ⟨tr, o, K', hruns⟩ := exists_runs Paging.exists_answer (mapPage info vaddr rights pt) K
    apply (hsupplies tr o K' hruns).supplied_iff.mp (hall tr o K' hruns)
  · intro hs tr o K' hruns
    apply (hsupplies tr o K' hruns).supplied_iff.mpr hs

/-- A boot info with four slots, from the slot `start` on, and one untyped, the third. -/
def slotsFrom (start : ℕ) (h : start + 4 < 2 ^ 64) : BootInfo where
  empty := ⟨start, start + 4, Nat.le_add_right start 4, h⟩
  untyped := ⟨3, 4, Nat.le_succ 3, Nat.lt_of_le_of_lt (Nat.le_add_left 4 start) h⟩
  untypedList _ := ⟨false⟩

/-- A kernel in which nothing has been made and which never runs out of memory. -/
def nothingMade : Paging Unit where
  memory := ()
  object _ := none
  mapped _ := none

theorem slotsFrom_allocate (start : ℕ) (h : start + 4 < 2 ^ 64) (type : ObjectType) :
  (slotsFrom start h).allocate (fun _ _ _ => some ()) () type = some ()
  := rfl

theorem nothingMade_not_hasTable (vaddr : ℕ) :
  ¬ nothingMade.HasTable vaddr
  := by
  rintro ⟨slot, v, hobject, -⟩
  cases hobject

/-- If the slots were to begin with the slot zero, the page table would be supplied. -/
theorem mapPage_slotsFrom_supplied :
  ∃ tr o K', Runs (Paging.kernel fun _ _ _ => some ()) nothingMade
      (mapPage (slotsFrom 0 (by decide)) 0x200000 .readWrite ⟨⟨0⟩, 0⟩) tr o K'
    ∧ Supplied 0x200000 tr o K'
  := by
  obtain ⟨tr, o, K', hruns⟩ := exists_runs Paging.exists_answer
    (mapPage (slotsFrom 0 (by decide)) 0x200000 .readWrite ⟨⟨0⟩, 0⟩) nothingMade
  use tr, o, K', hruns
  apply (mapPage_supplied_iff rfl ⟨Nat.le_refl 0, by decide⟩ rfl rfl (slotsFrom_allocate _ _ _)
    (slotsFrom_allocate _ _ _) (nothingMade_not_hasTable _)).mpr rfl tr o K' hruns

/-- With the slots from the fifth on, it is not supplied. -/
theorem mapPage_slotsFrom_not_supplied :
  ¬ ∀ tr o K', Runs (Paging.kernel fun _ _ _ => some ()) nothingMade
      (mapPage (slotsFrom 5 (by decide)) 0x200000 .readWrite ⟨⟨0⟩, 0⟩) tr o K' →
      Supplied 0x200000 tr o K'
  := by
  intro hall
  obtain ⟨tr, o, K', hruns⟩ := exists_runs Paging.exists_answer
    (mapPage (slotsFrom 5 (by decide)) 0x200000 .readWrite ⟨⟨0⟩, 0⟩) nothingMade
  have hwp : (mapPage (slotsFrom 5 (by decide)) 0x200000 .readWrite ⟨⟨0⟩, 0⟩).wpIn
      (Paging.kernel fun _ _ _ => some ()) nothingMade (Supplies 5 0x200000) := by
    apply mapPage_wpIn rfl ⟨Nat.le_refl 5, by decide⟩ rfl rfl (slotsFrom_allocate _ _ _)
      (slotsFrom_allocate _ _ _) (nothingMade_not_hasTable _)
  have hzero := (wpIn_iff.mp hwp tr o K' hruns).supplied_iff.mp (hall tr o K' hruns)
  cases hzero

end PageTable
