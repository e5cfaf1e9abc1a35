import StandaloneSel4.Syscall.Message
import StandaloneSel4.Kernel
import StandaloneSel4.Word

/-!
# Requests and responses

What a client asks of the root server goes through `performBase`, which puts the id of the
request into register 0 and the words of the request into those behind it. Each type of
requests has a decoder of its own for what the server has received. All but one decode a
single word and look at the length of the message; that of `ThreadRequest` decodes three and
does not.
-/

open SeL4 Prog

namespace Syscall

/-- `success`. -/
def success {α : Type} (value : α) : Expected α Bool :=
  ⟨value, false, true⟩

/-- `unexpected`. The value is that of the type of its zero. -/
def unexpected {α : Type} [Inhabited α] (error : Bool) : Expected α Bool :=
  ⟨default, error, false⟩

/-- `ID`. -/
inductive ID where
  | unknown
  | debug
  | kMalloc
  | kFree
  | mMap
  | thread
  deriving DecidableEq

/-- The cast of an id to a word. -/
def ID.toWord : ID → ℕ
  | .unknown => 0
  | .debug => 1
  | .kMalloc => 2
  | .kFree => 3
  | .mMap => 4
  | .thread => 5

/-- The cast of a word to an id. The words that no id is cast to are no cases of a `switch`. -/
def ID.ofWord : ℕ → Option ID
  | 0 => some .unknown
  | 1 => some .debug
  | 2 => some .kMalloc
  | 3 => some .kFree
  | 4 => some .mMap
  | 5 => some .thread
  | _ => none

@[simp]
theorem ID.ofWord_toWord (id : ID) :
  ofWord id.toWord = some id
  := by
  cases id <;> rfl

/-- A word is cast to an id that is cast to it. -/
theorem ID.ofWord_eq_some_iff {w : ℕ} {id : ID} :
  ofWord w = some id ↔ w = id.toWord
  := by
  constructor
  · intro h
    unfold ofWord at h
    split at h <;> cases h <;> rfl
  · rintro rfl
    apply ofWord_toWord

/-! ### Requests -/

/-- The virtual functions of `BaseRequest`, with its own as defaults. -/
structure BaseRequest where
  getNumMsgRegisters : ℕ := 0
  getMsgRegister : ℕ → ℕ := fun _ => 0
  hasResponse : Bool := false

/-- A request of one word. -/
def BaseRequest.ofWord (w : ℕ) (hasResponse : Bool) : BaseRequest where
  getNumMsgRegisters := 1
  getMsgRegister _ := w
  hasResponse := hasResponse

/-- Decodes a request of one word. -/
def decodeWord {α : Type} [Inhabited α] (make : ℕ → α) (info : MessageInfo) (mrs : Registers) :
    Expected α Bool :=
  if info.length < 2 then unexpected false else success (make (getMR 1 mrs))

section

variable {α : Type} [Inhabited α] {make : ℕ → α} {info : MessageInfo}

/-- A message with less than a word behind the id is refused. -/
theorem decodeWord_short (h : info.length < 2) (mrs : Registers) :
  decodeWord make info mrs = unexpected false
  := if_pos h

/-- In a longer message the word behind the id is decoded. -/
theorem decodeWord_long (h : 2 ≤ info.length) (mrs : Registers) :
  decodeWord make info mrs = success (make (getMR 1 mrs))
  := if_neg (Nat.not_lt.mpr h)

/-- A message of the id and one word is decoded to the request of that word. -/
theorem decodeWord_word {w : ℕ} {mrs : Registers} (hlen : info.length = 2)
    (hword : getMR 1 mrs = w) :
  decodeWord make info mrs = success (make w)
  := by
  rw [decodeWord_long (Nat.le_of_eq hlen.symm), hword]

end

/-- `DebugRequest::Operation`. -/
inductive DebugRequest.Operation where
  | unknown
  | vmStats
  | dumpScheduler
  deriving DecidableEq

/-- The cast of a word to an operation. -/
def DebugRequest.Operation.ofWord : ℕ → Option Operation
  | 0 => some .unknown
  | 1 => some .vmStats
  | 2 => some .dumpScheduler
  | _ => none

/-- The cast of an operation to a word. -/
def DebugRequest.Operation.toWord : Operation → ℕ
  | .unknown => 0
  | .vmStats => 1
  | .dumpScheduler => 2

/-- `DebugRequest`. Its operation may be any word. -/
structure DebugRequest where
  op : ℕ
  deriving DecidableEq, Inhabited

namespace DebugRequest

/-- The virtual functions. -/
def base (r : DebugRequest) : BaseRequest :=
  BaseRequest.ofWord r.op false

/-- `decode`. -/
def decode : MessageInfo → Registers → Expected DebugRequest Bool :=
  decodeWord DebugRequest.mk

end DebugRequest

/-- `KMallocRequest`. -/
structure KMallocRequest where
  size : ℕ
  deriving DecidableEq, Inhabited

namespace KMallocRequest

/-- The virtual functions. -/
def base (r : KMallocRequest) : BaseRequest :=
  BaseRequest.ofWord r.size true

/-- `decode`. -/
def decode : MessageInfo → Registers → Expected KMallocRequest Bool :=
  decodeWord KMallocRequest.mk

end KMallocRequest

/-- `KFreeRequest`. -/
structure KFreeRequest where
  ptr : ℕ
  deriving DecidableEq, Inhabited

namespace KFreeRequest

/-- The virtual functions. -/
def base (r : KFreeRequest) : BaseRequest :=
  BaseRequest.ofWord r.ptr true

/-- `decode`. -/
def decode : MessageInfo → Registers → Expected KFreeRequest Bool :=
  decodeWord KFreeRequest.mk

end KFreeRequest

/-- `MMapRequest`. -/
structure MMapRequest where
  numPages : ℕ
  deriving DecidableEq, Inhabited

namespace MMapRequest

/-- The virtual functions. -/
def base (r : MMapRequest) : BaseRequest :=
  BaseRequest.ofWord r.numPages true

/-- `decode`. -/
def decode : MessageInfo → Registers → Expected MMapRequest Bool :=
  decodeWord MMapRequest.mk

end MMapRequest

/-- `ThreadRequest::ThreadOp`. -/
inductive ThreadRequest.ThreadOp where
  | list
  | suspend
  | resume
  | setPriority
  | stopAndDelete
  deriving DecidableEq

/-- The cast of a word to an operation. -/
def ThreadRequest.ThreadOp.ofWord : ℕ → Option ThreadOp
  | 0 => some .list
  | 1 => some .suspend
  | 2 => some .resume
  | 3 => some .setPriority
  | 4 => some .stopAndDelete
  | _ => none

/-- The cast of an operation to a word. -/
def ThreadRequest.ThreadOp.toWord : ThreadOp → ℕ
  | .list => 0
  | .suspend => 1
  | .resume => 2
  | .setPriority => 3
  | .stopAndDelete => 4

/-- `ThreadRequest`. Its operation may be any word. -/
structure ThreadRequest where
  op : ℕ
  arg1 : ℕ := 0
  arg2 : ℕ := 0
  deriving DecidableEq

namespace ThreadRequest

/-- The virtual functions. -/
def base (r : ThreadRequest) : BaseRequest where
  getNumMsgRegisters := 3
  getMsgRegister index :=
    if index = 0 then r.op
    else if index = 1 then r.arg1
    else r.arg2
  hasResponse := true

/-- `decode`. It does not look at the length of the message. -/
def decode (_ : MessageInfo) (mrs : Registers) : Expected ThreadRequest Bool :=
  success ⟨getMR 1 mrs, getMR 2 mrs, getMR 3 mrs⟩

end ThreadRequest

/-! ### Responses -/

/-- What `performBase` uses of a type of responses. -/
structure ReturnType (α : Type) where
  /-- `decode`. -/
  decode : MessageInfo → Registers → Expected α Bool
  /-- The constructor from the integer zero. -/
  zero : α

/-- `BaseResponse`. -/
structure BaseResponse where
  deriving DecidableEq

/-- The members of `BaseResponse`. -/
def BaseResponse.type : ReturnType BaseResponse where
  decode _ _ := success ⟨⟩
  zero := ⟨⟩

/-- `KMallocResponse`. -/
structure KMallocResponse where
  p : ℕ
  deriving DecidableEq

/-- The members of `KMallocResponse`. -/
def KMallocResponse.type : ReturnType KMallocResponse where
  decode _ mrs := success ⟨getMR 1 mrs⟩
  zero := ⟨0⟩

/-- `KFreeResponse`. -/
structure KFreeResponse where
  response : ℤ := 0
  deriving DecidableEq

/-- The constructor of `KFreeResponse` from an integer, of which it makes no use. -/
def KFreeResponse.ofInt (_ : ℕ) : KFreeResponse :=
  {}

/-- The members of `KFreeResponse`. -/
def KFreeResponse.type : ReturnType KFreeResponse where
  decode _ mrs := success (ofInt (getMR 1 mrs))
  zero := ofInt 0

/-- `MMapResponse`. -/
structure MMapResponse where
  p : ℕ
  deriving DecidableEq

/-- The members of `MMapResponse`. -/
def MMapResponse.type : ReturnType MMapResponse where
  decode _ mrs := success ⟨getMR 1 mrs⟩
  zero := ⟨0⟩

end Syscall
