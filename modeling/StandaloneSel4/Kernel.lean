import StandaloneSel4.Lib.Prog
import Mathlib.Algebra.Group.Nat.Defs

/-!
# The kernel's interface

What the root server sees of the kernel: error codes, the boot info, and the system calls
it makes for objects and pages. The kernel itself is not modelled; a program over
`KernelSig` is a piece of the root server, and its executions are those under any answers
of the kernel. Of the arguments of a system call, those that are the same in every call
(the root CNode, the address space and the attributes of the initial thread) are left out.
-/

/-- `Expected<ValueType, ErrorType>` (lib/expected.hpp). -/
structure Expected (α ε : Type) where
  value : α
  error : ε
  isValid : Bool
  deriving DecidableEq

namespace SeL4

/-- `seL4_Error`. -/
inductive Error where
  | noError
  | invalidArgument
  | invalidCapability
  | illegalOperation
  | rangeError
  | alignmentError
  | failedLookup
  | truncatedMessage
  | deleteFirst
  | revokeFirst
  | notEnoughMemory
  deriving DecidableEq

end SeL4

open SeL4

/-- `success`. -/
def success {α : Type} (value : α) : Expected α Error :=
  ⟨value, .noError, true⟩

/-- `unexpected`. The value is that of the type of its zero. -/
def unexpected {α : Type} [Inhabited α] (error : Error) : Expected α Error :=
  ⟨default, error, false⟩

namespace SeL4

/-- `seL4_SlotRegion`: the slots from `start` on, before `stop` (the field `end`). -/
structure SlotRegion where
  start : ℕ
  stop : ℕ
  start_le : start ≤ stop
  stop_lt : stop < 2 ^ 64

/-- The slot lies in the region. -/
def SlotRegion.Contains (r : SlotRegion) (slot : ℕ) : Prop :=
  r.start ≤ slot ∧ slot < r.stop

/-- `seL4_UntypedDesc`. -/
structure UntypedDesc where
  isDevice : Bool

/-- `seL4_BootInfo`. -/
structure BootInfo where
  empty : SlotRegion
  untyped : SlotRegion
  untypedList : ℕ → UntypedDesc

/-- The types of the objects that the pool, `mapPage` and the object factory make. The page
directory and its pointer table, which `PageTable::init` makes, are left out. -/
inductive ObjectType where
  | tcbObject
  | endpointObject
  | notificationObject
  | x86_4K
  | x86PageTableObject
  deriving DecidableEq

/-- `seL4_CapRights_t`, of which two values are used. -/
inductive CapRights where
  | readWrite
  | allRights
  deriving DecidableEq

/-- The values of `seL4_MappingFailedLookupLevel`. -/
inductive LookupLevel where
  | noPT
  | noPD
  | noPDPT
  | other (level : ℕ)
  deriving DecidableEq

/-- The system calls of the pool and of the page table. -/
inductive KernelCall where
  /-- `seL4_Untyped_Retype` of one object into `slot`. -/
  | untypedRetype (untyped : ℕ) (type : ObjectType) (slot : ℕ)
  | x86PageMap (frame vaddr : ℕ) (rights : CapRights)
  | x86PageUnmap (frame : ℕ)
  | x86PageTableMap (pageTable vaddr : ℕ)
  /-- `seL4_MappingFailedLookupLevel`, which reads a message register. -/
  | mappingFailedLookupLevel
  deriving DecidableEq

/-- The system calls, with what they return. -/
abbrev KernelSig : Signature where
  Call := KernelCall
  Answer
    | .mappingFailedLookupLevel => LookupLevel
    | _ => Error

/-- A program that makes system calls. -/
abbrev Kernel (α : Type) : Type :=
  Prog KernelSig α

/-- `seL4_Untyped_Retype`. -/
def untypedRetype (untyped : ℕ) (type : ObjectType) (slot : ℕ) : Kernel Error :=
  Prog.perform (S := KernelSig) (.untypedRetype untyped type slot)

/-- `seL4_X86_Page_Map`. -/
def x86PageMap (frame vaddr : ℕ) (rights : CapRights) : Kernel Error :=
  Prog.perform (S := KernelSig) (.x86PageMap frame vaddr rights)

/-- `seL4_X86_Page_Unmap`. -/
def x86PageUnmap (frame : ℕ) : Kernel Error :=
  Prog.perform (S := KernelSig) (.x86PageUnmap frame)

/-- `seL4_X86_PageTable_Map`. -/
def x86PageTableMap (pageTable vaddr : ℕ) : Kernel Error :=
  Prog.perform (S := KernelSig) (.x86PageTableMap pageTable vaddr)

/-- `seL4_MappingFailedLookupLevel`. -/
def mappingFailedLookupLevel : Kernel LookupLevel :=
  Prog.perform (S := KernelSig) .mappingFailedLookupLevel

section

variable {α : Type}

@[simp]
theorem untypedRetype_bind (untyped : ℕ) (type : ObjectType) (slot : ℕ) (f : Error → Kernel α) :
  untypedRetype untyped type slot >>= f = .call (.untypedRetype untyped type slot) f
  := rfl

@[simp]
theorem x86PageMap_bind (frame vaddr : ℕ) (rights : CapRights) (f : Error → Kernel α) :
  x86PageMap frame vaddr rights >>= f = .call (.x86PageMap frame vaddr rights) f
  := rfl

@[simp]
theorem x86PageUnmap_bind (frame : ℕ) (f : Error → Kernel α) :
  x86PageUnmap frame >>= f = .call (.x86PageUnmap frame) f
  := rfl

@[simp]
theorem x86PageTableMap_bind (pageTable vaddr : ℕ) (f : Error → Kernel α) :
  x86PageTableMap pageTable vaddr >>= f = .call (.x86PageTableMap pageTable vaddr) f
  := rfl

@[simp]
theorem mappingFailedLookupLevel_bind (f : LookupLevel → Kernel α) :
  mappingFailedLookupLevel >>= f = .call .mappingFailedLookupLevel f
  := rfl

end

end SeL4
