import StandaloneSel4.Server.Dispatch

/-!
# Requests on the wire

What a client sends through `performBase` reaches the branch of the root server for the type of
the request, and is decoded there to the request that was sent, whatever the message registers
of the client and of the server held before.
-/

open SeL4 Prog Syscall

variable {EntryPoint : Type}

namespace Syscall.RequestType

variable {t : RequestType}

/-- The message for a request brings its id and its words. -/
theorem getMR_received (r : t.Request) (mrs old : Registers) {i : ℕ}
    (h : i ≤ (t.base r).getNumMsgRegisters) :
  getMR i ((requestMessage t.id (t.base r) mrs).deliver old).mrs
    = getMR i (setRequest t.id (t.base r) mrs)
  := by
  have hle := getNumMsgRegisters_le t r
  apply Message.getMR_deliver
  rw [requestMessage_length (by omega)]
  omega

/-- The message for a request is decoded to the request. -/
theorem decode_received (r : t.Request) (mrs old : Registers) :
  t.decode (requestMessage t.id (t.base r) mrs).info
    ((requestMessage t.id (t.base r) mrs).deliver old).mrs = Syscall.success r
  := by
  have hle := getNumMsgRegisters_le t r
  apply decode_words
  · apply requestMessage_length
    omega
  · intro i hi
    rw [getMR_received r mrs old hi]
    apply getMR_setRequest_succ hi

/-- The message for a request brings the id of its type. -/
theorem id_received (r : t.Request) (mrs old : Registers) :
  ID.ofWord (getMR 0 ((requestMessage t.id (t.base r) mrs).deliver old).mrs) = some t.id
  := by
  rw [getMR_received r mrs old (Nat.zero_le _), getMR_setRequest_zero, ID.ofWord_toWord]

end Syscall.RequestType

namespace RootServer

/-- The message for a request is served as the request by the branch for its type. -/
theorem processSyscall_request {t : RequestType} (r : t.Request) (mrs old : Registers)
    (server : RootServer EntryPoint) :
  let received := (requestMessage t.id (t.base r) mrs).deliver old
  processSyscall received server = serve t received.info r server
  := by
  intro received
  have hle := t.getNumMsgRegisters_le r
  have hlen : received.info.length = (t.base r).getNumMsgRegisters + 1 :=
    requestMessage_length (by omega) t.id mrs
  have hpos : 0 < received.info.length := Nat.lt_of_lt_of_eq (Nat.succ_pos _) hlen.symm
  have hdecode : t.decode received.info received.mrs = Syscall.success r :=
    RequestType.decode_received r mrs old
  rw [processSyscall_eq hpos (RequestType.id_received r mrs old), hdecode]
  rfl

/-- A request of any type, with any words, is sent in one message. Wherever it is received, it is
no fault, it selects the branch for its type, and the branch decodes it and serves the request
that was sent. -/
theorem requests_survive (t : RequestType) (r : t.Request) (endpoint : ℕ) (mrs old : Registers)
    (server : RootServer EntryPoint) :
  ∃ c k, t.perform endpoint r mrs = .call c k ∧ c.endpoint = endpoint
    ∧ let received := c.message.deliver old
      received.info.label = nullFault
      ∧ ID.ofWord (getMR 0 received.mrs) = some t.id
      ∧ t.decode received.info received.mrs = Syscall.success r
      ∧ processSyscall received server = serve t received.info r server
  := by
  obtain ⟨c, k, hperform, hendpoint, hmessage⟩ := t.exists_perform endpoint r mrs
  refine ⟨c, k, hperform, hendpoint, ?_⟩
  rw [hmessage]
  refine ⟨rfl, ?_, ?_, ?_⟩
  · apply RequestType.id_received
  · apply RequestType.decode_received
  · apply processSyscall_request

end RootServer
