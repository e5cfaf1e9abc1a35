import StandaloneSel4.Lib.World
import StandaloneSel4.Objects.PageTable
import Mathlib.Algebra.Group.Nat.Defs
import Mathlib.Logic.Function.Basic

/-!
# The kernel's side of objects and pages

A kernel that keeps track of the objects in the capability slots and of what is mapped where. It
makes an object in an empty slot when the untyped has the memory for it, maps an unmapped page
table, and maps an unmapped frame once there is a page table for the address. How much memory the
untypeds have is left to a parameter. In this world `allocObject` finds memory when there is some.
-/

open SeL4 Prog

namespace SeL4

/-- The memory of the untypeds, the type of the object in each slot, and the address at which that
is mapped. -/
structure Paging (μ : Type) where
  memory : μ
  object : ℕ → Option ObjectType
  mapped : ℕ → Option ℕ

namespace Paging

variable {μ : Type}

/-- In the slot there is an object of the type, which is not mapped. -/
def Unmapped (K : Paging μ) (slot : ℕ) (type : ObjectType) : Prop :=
  K.object slot = some type ∧ K.mapped slot = none

/-- A page table is mapped for the 2 MB of the address. -/
def HasTable (K : Paging μ) (vaddr : ℕ) : Prop :=
  ∃ slot v, K.object slot = some .x86PageTableObject ∧ K.mapped slot = some v
    ∧ v / 2 ^ 21 = vaddr / 2 ^ 21

/-- An object has been made in the slot. -/
def made (K : Paging μ) (slot : ℕ) (type : ObjectType) (m : μ) : Paging μ where
  memory := m
  object := Function.update K.object slot (some type)
  mapped := Function.update K.mapped slot none

/-- What is in the slot has been mapped, or unmapped. -/
def map (K : Paging μ) (slot : ℕ) (vaddr : Option ℕ) : Paging μ :=
  { K with mapped := Function.update K.mapped slot vaddr }

/-- The kernel. `retype` gives the memory that is left when an object of a type has been made from
an untyped, if it can be made. -/
def kernel (retype : μ → ℕ → ObjectType → Option μ) : World KernelSig (Paging μ)
  | K, .untypedRetype untyped type slot, e, K' =>
      match retype K.memory untyped type, K.object slot with
      | some m, none => e = Error.noError ∧ K' = K.made slot type m
      | _, _ => e ≠ Error.noError ∧ K' = K
  | K, .x86PageMap frame vaddr _, e, K' =>
      K.Unmapped frame .x86_4K ∧ K.HasTable vaddr ∧ e = Error.noError
          ∧ K' = K.map frame (some vaddr)
        ∨ K.Unmapped frame .x86_4K ∧ ¬ K.HasTable vaddr ∧ e = Error.failedLookup ∧ K' = K
        ∨ ¬ K.Unmapped frame .x86_4K ∧ e ≠ Error.noError ∧ e ≠ Error.failedLookup ∧ K' = K
  | K, .x86PageUnmap frame, e, K' =>
      K.object frame = some .x86_4K ∧ e = Error.noError ∧ K' = K.map frame none
        ∨ K.object frame ≠ some .x86_4K ∧ e ≠ Error.noError ∧ K' = K
  | K, .x86PageTableMap pageTable vaddr, e, K' =>
      K.Unmapped pageTable .x86PageTableObject ∧ e = Error.noError
          ∧ K' = K.map pageTable (some vaddr)
        ∨ ¬ K.Unmapped pageTable .x86PageTableObject ∧ e ≠ Error.noError ∧ K' = K
  | K, .mappingFailedLookupLevel, level, K' => level = LookupLevel.noPT ∧ K' = K

variable {retype : μ → ℕ → ObjectType → Option μ} {K K' : Paging μ} {slot : ℕ} {type : ObjectType}
  {m : μ}

/-- The kernel answers every call. -/
theorem exists_answer (K : Paging μ) (c : KernelCall) :
  ∃ x K', kernel retype K c x K'
  := by
  have herror : Error.rangeError ≠ .noError := nofun
  cases c with
  | untypedRetype untyped type slot =>
      simp only [kernel]
      split
      · exact ⟨_, _, rfl, rfl⟩
      · exact ⟨_, _, herror, rfl⟩
  | x86PageMap frame vaddr rights =>
      by_cases hframe : K.Unmapped frame .x86_4K
      · by_cases htable : K.HasTable vaddr
        · exact ⟨_, _, .inl ⟨hframe, htable, rfl, rfl⟩⟩
        · exact ⟨_, _, .inr (.inl ⟨hframe, htable, rfl, rfl⟩)⟩
      · exact ⟨_, _, .inr (.inr ⟨hframe, herror, nofun, rfl⟩)⟩
  | x86PageUnmap frame =>
      by_cases hframe : K.object frame = some .x86_4K
      · exact ⟨_, _, .inl ⟨hframe, rfl, rfl⟩⟩
      · exact ⟨_, _, .inr ⟨hframe, herror, rfl⟩⟩
  | x86PageTableMap pageTable vaddr =>
      by_cases htable : K.Unmapped pageTable .x86PageTableObject
      · exact ⟨_, _, .inl ⟨htable, rfl, rfl⟩⟩
      · exact ⟨_, _, .inr ⟨htable, herror, rfl⟩⟩
  | mappingFailedLookupLevel => exact ⟨_, _, rfl, rfl⟩

/-- What has just been made is not mapped. -/
theorem made_unmapped :
  (K.made slot type m).Unmapped slot type
  := ⟨Function.update_self _ _ _, Function.update_self _ _ _⟩

theorem made_object_of_ne {slot' : ℕ} (h : slot' ≠ slot) :
  (K.made slot type m).object slot' = K.object slot'
  := Function.update_of_ne h _ _

theorem made_mapped_of_ne {slot' : ℕ} (h : slot' ≠ slot) :
  (K.made slot type m).mapped slot' = K.mapped slot'
  := Function.update_of_ne h _ _

theorem map_mapped_self {v : Option ℕ} :
  (K.map slot v).mapped slot = v
  := Function.update_self _ _ _

/-- What is not mapped stays so when something else is made. -/
theorem Unmapped.made {slot' : ℕ} {type' : ObjectType} (h : K.Unmapped slot' type')
    (hne : slot' ≠ slot) :
  (K.made slot type m).Unmapped slot' type'
  := by
  unfold Unmapped
  rw [made_object_of_ne hne, made_mapped_of_ne hne]
  apply h

/-- It stays so when something else is mapped. -/
theorem Unmapped.map {slot' : ℕ} {v : Option ℕ} (h : K.Unmapped slot' type) (hne : slot' ≠ slot) :
  (K.map slot v).Unmapped slot' type
  := by
  constructor
  · apply h.1
  · apply (Function.update_of_ne hne _ _).trans h.2

/-- An unmapped frame is mapped when there is a page table for the address. -/
theorem Unmapped.mapped {vaddr : ℕ} {rights : CapRights} {e : Error} (h : K.Unmapped slot .x86_4K)
    (htable : K.HasTable vaddr)
    (hanswer : kernel retype K (.x86PageMap slot vaddr rights) e K') :
  K' = K.map slot (some vaddr)
  := by
  rcases hanswer with ⟨-, -, -, hK'⟩ | ⟨-, hnot, -⟩ | ⟨hnot, -⟩
  · apply hK'
  · exact absurd htable hnot
  · exact absurd h hnot

/-- Making objects maps no page table. -/
theorem HasTable.of_made {vaddr : ℕ} (h : (K.made slot type m).HasTable vaddr) :
  K.HasTable vaddr
  := by
  obtain ⟨slot', v, hobject, hmapped, hv⟩ := h
  have hne : slot' ≠ slot := by
    rintro rfl
    rw [made_unmapped.2] at hmapped
    cases hmapped
  rw [made_object_of_ne hne] at hobject
  rw [made_mapped_of_ne hne] at hmapped
  exact ⟨slot', v, hobject, hmapped, hv⟩

/-- A page table that is mapped at the address is one for it. -/
theorem hasTable_map {vaddr : ℕ} (h : K.object slot = some .x86PageTableObject) :
  (K.map slot (some vaddr)).HasTable vaddr
  := ⟨slot, vaddr, h, Function.update_self _ _ _, rfl⟩

end Paging

/-- The untypeds that `allocObject` tries: those that are no device memory. -/
def BootInfo.tried (info : BootInfo) (left untyped : ℕ) : List ℕ :=
  (List.range' untyped left).filter fun u =>
    ¬ (info.untypedList (u - info.untyped.start)).isDevice

/-- The memory left after `allocObject` has made an object of the type, when some untyped that it
tries has the memory for it. -/
def BootInfo.allocate {μ : Type} (info : BootInfo) (retype : μ → ℕ → ObjectType → Option μ) (m : μ)
    (type : ObjectType) : Option μ :=
  (info.tried (info.untyped.stop - info.untyped.start) info.untyped.start).findSome? fun u =>
    retype m u type

end SeL4

namespace InitialUntypedPool

variable {μ : Type} {retype : μ → ℕ → ObjectType → Option μ} {K K' : Paging μ} {info : BootInfo}
  {type : ObjectType} {cslot : ℕ} {m : μ}

/-- The events are retypes of that type into the slot. -/
def OnlyRetypes (type : ObjectType) (cslot : ℕ) (tr : List (Event KernelSig)) : Prop :=
  ∀ e ∈ tr, ∃ untyped x, e = ⟨.untypedRetype untyped type cslot, x⟩

/-- An object of the type has been made in the slot. -/
def MadeIn (type : ObjectType) (cslot : ℕ) (tr : List (Event KernelSig)) : Prop :=
  ∃ untyped, ⟨.untypedRetype untyped type cslot, Error.noError⟩ ∈ tr

/-- The loop of `allocObject` makes an object when one of the untypeds it tries has the memory. -/
theorem retypeLoop_wpIn {left untyped : ℕ} (hslot : K.object cslot = none)
    (h : (info.tried left untyped).findSome? (fun u => retype K.memory u type) = some m) :
  (retypeLoop info type cslot left untyped).wpIn (Paging.kernel retype) K fun tr o K' =>
    o = some (some (success cslot)) ∧ K' = K.made cslot type m ∧ OnlyRetypes type cslot tr
      ∧ MadeIn type cslot tr
  := by
  induction left generalizing untyped with
  | zero => cases h
  | succ left ih =>
      unfold BootInfo.tried at h
      rw [List.range'_succ] at h
      rw [retypeLoop]
      split
      · rename_i hdevice
        rw [List.filter_cons_of_neg (by simpa using hdevice)] at h
        apply ih h
      · rename_i hdevice
        rw [List.filter_cons_of_pos (by simpa using hdevice), List.findSome?_cons] at h
        rw [untypedRetype_bind, wpIn_call]
        intro x K' hanswer
        simp only [Paging.kernel, hslot] at hanswer
        cases hretype : retype K.memory untyped type with
        | some m' =>
            rw [hretype] at h hanswer
            obtain rfl : m' = m := Option.some.inj h
            obtain ⟨rfl, rfl⟩ := hanswer
            rw [if_pos rfl]
            refine ⟨rfl, rfl, ?_, ⟨untyped, List.mem_cons_self⟩⟩
            intro e he
            rw [List.mem_singleton.mp he]
            exact ⟨untyped, _, rfl⟩
        | none =>
            rw [hretype] at h hanswer
            obtain ⟨herror, rfl⟩ := hanswer
            rw [if_neg herror]
            apply wpIn_mono (ih h)
            rintro tr o K' ⟨ho, hK', hretypes, u, hu⟩
            refine ⟨ho, hK', ?_, ⟨u, List.mem_cons_of_mem _ hu⟩⟩
            apply List.forall_mem_cons.mpr ⟨⟨untyped, x, rfl⟩, hretypes⟩

/-- `allocObject` makes an object in the next slot when that is empty and there is memory. -/
theorem allocObject_wpIn {pool : InitialUntypedPool} {s : ℕ} (hnext : pool.slot? info = some s)
    (hslot : K.object s = none) (h : info.allocate retype K.memory type = some m) :
  (allocObject info type pool).wpIn (Paging.kernel retype) K fun tr o K' =>
    o = some (success s, after s) ∧ K' = K.made s type m ∧ OnlyRetypes type s tr ∧ MadeIn type s tr
  := by
  unfold allocObject
  rw [getFreeSlot_some hnext]
  dsimp only [success]
  rw [if_pos rfl]
  apply wpIn_bind
  apply wpIn_mono (retypeLoop_wpIn hslot h)
  rintro tr o K' ⟨rfl, rfl, hretypes, hmade⟩
  rw [← List.append_nil tr] at hretypes hmade
  exact ⟨rfl, rfl, hretypes, hmade⟩

end InitialUntypedPool
