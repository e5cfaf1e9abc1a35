import StandaloneSel4.Syscall.Requests
import StandaloneSel4.Lib.Prog

/-!
# Performing a request

`performBase` is one function for all requests: it asks a request for its words through
virtual functions, sends the message, and waits for the reply when the request has one. Here
are also the types of requests as one family, so that a statement may be about all of them.
-/

open SeL4 Prog

namespace Syscall

/-- How a client sends a message to an endpoint. -/
inductive ClientCall where
  | send (endpoint : ℕ) (m : Message)
  /-- `seL4_Call`, which waits for the reply. -/
  | call (endpoint : ℕ) (m : Message)

/-- The sending, with the reply. -/
abbrev ClientSig : Signature where
  Call := ClientCall
  Answer
    | .send _ _ => Unit
    | .call _ _ => Message

/-- A program of a client. -/
abbrev Client (α : Type) : Type :=
  Prog ClientSig α

namespace ClientCall

/-- The endpoint sent to. -/
def endpoint : ClientCall → ℕ
  | .send endpoint _ | .call endpoint _ => endpoint

/-- The message sent. -/
def message : ClientCall → Message
  | .send _ m | .call _ m => m

end ClientCall

/-- The registers set by `performBase`. -/
def setRequest (id : ID) (b : BaseRequest) (mrs : Registers) : Registers :=
  (List.range b.getNumMsgRegisters).foldl (fun mrs i => setMR (i + 1) (b.getMsgRegister i) mrs)
    (setMR 0 id.toWord mrs)

/-- `performBase`, by a client with the message registers `mrs`. -/
def performBase {α : Type} (type : ReturnType α) (endpoint : ℕ) (id : ID) (b : BaseRequest)
    (mrs : Registers) : Client (Expected α Bool) :=
  let numReg := b.getNumMsgRegisters
  let info := MessageInfo.new 0 0 0 (Word.add numReg 1)
  let mrs := setRequest id b mrs
  if b.hasResponse then do
    let ret ← perform (S := ClientSig) (.call endpoint ⟨info, mrs⟩)
    return type.decode ret.info ret.mrs
  else do
    let _ ← perform (S := ClientSig) (.send endpoint ⟨info, mrs⟩)
    return success type.zero

namespace perform

/-- `perform::kmalloc`. -/
def kmalloc (endpoint : ℕ) (r : KMallocRequest) :
    Registers → Client (Expected KMallocResponse Bool) :=
  performBase KMallocResponse.type endpoint .kMalloc r.base

/-- `perform::kfree`. -/
def kfree (endpoint : ℕ) (r : KFreeRequest) : Registers → Client (Expected KFreeResponse Bool) :=
  performBase KFreeResponse.type endpoint .kFree r.base

/-- `perform::debug`. -/
def debug (endpoint : ℕ) (r : DebugRequest) : Registers → Client (Expected BaseResponse Bool) :=
  performBase BaseResponse.type endpoint .debug r.base

/-- `perform::mmap`. -/
def mmap (endpoint : ℕ) (r : MMapRequest) : Registers → Client (Expected MMapResponse Bool) :=
  performBase MMapResponse.type endpoint .mMap r.base

/-- `perform::thread`. -/
def thread (endpoint : ℕ) (r : ThreadRequest) : Registers → Client (Expected BaseResponse Bool) :=
  performBase BaseResponse.type endpoint .thread r.base

end perform

/-! ### What is sent -/

/-- The registers after so many rounds of the loop of `performBase`. -/
theorem getMR_setRequest_loop (b : BaseRequest) (mrs : Registers) (n i : ℕ) :
  getMR i ((List.range n).foldl (fun mrs i => setMR (i + 1) (b.getMsgRegister i) mrs) mrs)
    = if 0 < i ∧ i ≤ n then b.getMsgRegister (i - 1) else getMR i mrs
  := by
  induction n with
  | zero =>
      rw [if_neg (by omega)]
      rfl
  | succ n ih =>
      rw [List.range_succ, List.foldl_append, List.foldl_cons, List.foldl_nil]
      by_cases hi : i = n + 1
      · subst hi
        rw [getMR_setMR_self, if_pos (by omega), Nat.add_sub_cancel]
      · rw [getMR_setMR_of_ne hi, ih]
        apply if_congr _ rfl rfl
        omega

/-- Register 0 holds the id. -/
theorem getMR_setRequest_zero (id : ID) (b : BaseRequest) (mrs : Registers) :
  getMR 0 (setRequest id b mrs) = id.toWord
  := by
  rw [setRequest, getMR_setRequest_loop, if_neg (by omega), getMR_setMR_self]

/-- The registers behind it hold the words of the request. -/
theorem getMR_setRequest_succ {id : ID} {b : BaseRequest} {i : ℕ} (h : i < b.getNumMsgRegisters)
    (mrs : Registers) :
  getMR (i + 1) (setRequest id b mrs) = b.getMsgRegister i
  := by
  rw [setRequest, getMR_setRequest_loop, if_pos (by omega), Nat.add_sub_cancel]

/-- The message that `performBase` sends. -/
def requestMessage (id : ID) (b : BaseRequest) (mrs : Registers) : Message where
  info := MessageInfo.new 0 0 0 (Word.add b.getNumMsgRegisters 1)
  mrs := setRequest id b mrs

/-- It has a register for the id and one for each word. -/
theorem requestMessage_length {b : BaseRequest} (h : b.getNumMsgRegisters < 127) (id : ID)
    (mrs : Registers) :
  (requestMessage id b mrs).info.length = b.getNumMsgRegisters + 1
  := by
  simp only [requestMessage, MessageInfo.new, Word.add]
  omega

/-- `performBase` sends one message, and waits exactly when the request has a response. -/
theorem performBase_eq {α : Type} (type : ReturnType α) (endpoint : ℕ) (id : ID) (b : BaseRequest)
    (mrs : Registers) :
  performBase type endpoint id b mrs
    = if b.hasResponse then
        .call (.call endpoint (requestMessage id b mrs)) fun ret =>
          .ret (type.decode ret.info ret.mrs)
      else .call (.send endpoint (requestMessage id b mrs)) fun _ => .ret (success type.zero)
  := rfl

theorem exists_performBase {α : Type} (type : ReturnType α) (endpoint : ℕ) (id : ID)
    (b : BaseRequest) (mrs : Registers) :
  ∃ c k, performBase type endpoint id b mrs = .call c k ∧ c.endpoint = endpoint
    ∧ c.message = requestMessage id b mrs
  := by
  rw [performBase_eq]
  split
  · exact ⟨_, _, rfl, rfl, rfl⟩
  · exact ⟨_, _, rfl, rfl, rfl⟩

/-! ### All types of requests -/

/-- The types of requests. -/
inductive RequestType where
  | debug
  | kMalloc
  | kFree
  | mMap
  | thread
  deriving DecidableEq

namespace RequestType

/-- The requests of a type. -/
def Request : RequestType → Type
  | .debug => DebugRequest
  | .kMalloc => KMallocRequest
  | .kFree => KFreeRequest
  | .mMap => MMapRequest
  | .thread => ThreadRequest

/-- The responses to them. -/
def Response : RequestType → Type
  | .debug => BaseResponse
  | .kMalloc => KMallocResponse
  | .kFree => KFreeResponse
  | .mMap => MMapResponse
  | .thread => BaseResponse

/-- The id they are sent with. -/
def id : RequestType → ID
  | .debug => .debug
  | .kMalloc => .kMalloc
  | .kFree => .kFree
  | .mMap => .mMap
  | .thread => .thread

/-- The virtual functions of a request. -/
def base : (t : RequestType) → t.Request → BaseRequest
  | .debug, r => DebugRequest.base r
  | .kMalloc, r => KMallocRequest.base r
  | .kFree, r => KFreeRequest.base r
  | .mMap, r => MMapRequest.base r
  | .thread, r => ThreadRequest.base r

/-- The function in `perform` for them. -/
def perform : (t : RequestType) → ℕ → t.Request → Registers → Client (Expected t.Response Bool)
  | .debug => perform.debug
  | .kMalloc => perform.kmalloc
  | .kFree => perform.kfree
  | .mMap => perform.mmap
  | .thread => perform.thread

/-- Their decoder. -/
def decode : (t : RequestType) → MessageInfo → Registers → Expected t.Request Bool
  | .debug => DebugRequest.decode
  | .kMalloc => KMallocRequest.decode
  | .kFree => KFreeRequest.decode
  | .mMap => MMapRequest.decode
  | .thread => ThreadRequest.decode

variable {t : RequestType}

/-- Every request is sent with the id of its type, in a message that holds its words. -/
theorem exists_perform (t : RequestType) (endpoint : ℕ) (r : t.Request) (mrs : Registers) :
  ∃ c k, t.perform endpoint r mrs = .call c k ∧ c.endpoint = endpoint
    ∧ c.message = requestMessage t.id (t.base r) mrs
  := by
  cases t with
  | debug => apply exists_performBase BaseResponse.type endpoint .debug (DebugRequest.base r) mrs
  | kMalloc =>
      apply exists_performBase KMallocResponse.type endpoint .kMalloc (KMallocRequest.base r) mrs
  | kFree => apply exists_performBase KFreeResponse.type endpoint .kFree (KFreeRequest.base r) mrs
  | mMap => apply exists_performBase MMapResponse.type endpoint .mMap (MMapRequest.base r) mrs
  | thread => apply exists_performBase BaseResponse.type endpoint .thread (ThreadRequest.base r) mrs

/-- A request has at most three words. -/
theorem getNumMsgRegisters_le (t : RequestType) (r : t.Request) :
  (t.base r).getNumMsgRegisters ≤ 3
  := by
  cases t with
  | thread => apply Nat.le_refl 3
  | debug => apply Nat.le_add_left 1 2
  | kMalloc => apply Nat.le_add_left 1 2
  | kFree => apply Nat.le_add_left 1 2
  | mMap => apply Nat.le_add_left 1 2

/-- A message that has as many registers as the request has words, and one for the id, and holds
these words, is decoded to the request. -/
theorem decode_words (t : RequestType) {r : t.Request} {info : MessageInfo} {mrs : Registers}
    (hlen : info.length = (t.base r).getNumMsgRegisters + 1)
    (hwords : ∀ i < (t.base r).getNumMsgRegisters,
      getMR (i + 1) mrs = (t.base r).getMsgRegister i) :
  t.decode info mrs = success r
  := by
  cases t with
  | thread =>
      have hwords : ∀ i < 3, getMR (i + 1) mrs = (ThreadRequest.base r).getMsgRegister i := hwords
      have hop : getMR 1 mrs = ThreadRequest.op r := hwords 0 (by decide)
      have harg1 : getMR 2 mrs = ThreadRequest.arg1 r := hwords 1 (by decide)
      have harg2 : getMR 3 mrs = ThreadRequest.arg2 r := hwords 2 (by decide)
      change success (ThreadRequest.mk _ _ _) = _
      rw [hop, harg1, harg2]
      rfl
  | debug => apply decodeWord_word hlen (hwords 0 Nat.one_pos)
  | kMalloc => apply decodeWord_word hlen (hwords 0 Nat.one_pos)
  | kFree => apply decodeWord_word hlen (hwords 0 Nat.one_pos)
  | mMap => apply decodeWord_word hlen (hwords 0 Nat.one_pos)

end RequestType

end Syscall
