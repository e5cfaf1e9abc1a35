import StandaloneSel4.Syscall.Perform

/-!
# What decoding uses

The registers behind the length of a message hold what is left over from earlier messages,
perhaps of other threads. A decoder uses only what was sent when registers that agree below
the length are decoded alike, and a message that is shorter than the requests of its type is
refused. The decoders of one word do so by looking at the length. That of `ThreadRequest`
does so for messages that are long enough, and for no others.
-/

open SeL4

namespace Syscall

/-- Registers that agree below the length are decoded alike as a word. -/
theorem decodeWord_congr {α : Type} [Inhabited α] {make : ℕ → α} {info : MessageInfo}
    {mrs mrs' : Registers} (h : Registers.AgreeBelow info.length mrs mrs') :
  decodeWord make info mrs = decodeWord make info mrs'
  := by
  by_cases hlen : info.length < 2
  · rw [decodeWord_short hlen, decodeWord_short hlen]
  · have hlen := Nat.not_lt.mp hlen
    rw [decodeWord_long hlen, decodeWord_long hlen, h 1 hlen]

namespace RequestType

/-- The decoder of the type uses only what a message with that info has brought. -/
structure UsesOnlySent (t : RequestType) (info : MessageInfo) : Prop where
  congr : ∀ mrs mrs' : Registers, Registers.AgreeBelow info.length mrs mrs' →
    t.decode info mrs = t.decode info mrs'
  short : ∀ (r : t.Request) (mrs : Registers),
    info.length < (t.base r).getNumMsgRegisters + 1 → (t.decode info mrs).isValid = false

variable {t : RequestType} {info : MessageInfo}

/-- A type whose requests have one word, and that decodes one word, uses only what was sent. -/
theorem usesOnlySent_of_word {make : ℕ → t.Request} [Inhabited t.Request]
    (hdecode : t.decode = decodeWord make)
    (hbase : ∀ r : t.Request, (t.base r).getNumMsgRegisters = 1) :
  t.UsesOnlySent info
  := by
  constructor
  · intro mrs mrs' h
    rw [hdecode]
    apply decodeWord_congr h
  · intro r mrs hlen
    rw [hbase] at hlen
    rw [hdecode, decodeWord_short hlen]
    rfl

/-- The decoder of thread requests uses only what was sent when all their words were sent. -/
theorem thread_usesOnlySent_iff :
  UsesOnlySent .thread info ↔ 4 ≤ info.length
  := by
  constructor
  · intro h
    by_contra hlen
    have hshort := h.short ⟨0, 0, 0⟩ (fun _ => 0) (Nat.not_le.mp hlen)
    cases hshort
  · intro hlen
    constructor
    · intro mrs mrs' h
      change success _ = success _
      rw [h 1 (by omega), h 2 (by omega), h 3 (by omega)]
    · intro r mrs hshort
      change info.length < 4 at hshort
      omega

/-- All decoders use only what was sent, but that of thread requests does so only for messages
of four registers and more. -/
theorem usesOnlySent_iff (t : RequestType) (info : MessageInfo) :
  t.UsesOnlySent info ↔ t ≠ .thread ∨ 4 ≤ info.length
  := by
  cases t with
  | thread =>
      rw [thread_usesOnlySent_iff]
      simp
  | debug =>
      have h : UsesOnlySent .debug info :=
        @usesOnlySent_of_word _ _ DebugRequest.mk ⟨⟨0⟩⟩ rfl fun _ => rfl
      apply iff_of_true h (.inl nofun)
  | kMalloc =>
      have h : UsesOnlySent .kMalloc info :=
        @usesOnlySent_of_word _ _ KMallocRequest.mk ⟨⟨0⟩⟩ rfl fun _ => rfl
      apply iff_of_true h (.inl nofun)
  | kFree =>
      have h : UsesOnlySent .kFree info :=
        @usesOnlySent_of_word _ _ KFreeRequest.mk ⟨⟨0⟩⟩ rfl fun _ => rfl
      apply iff_of_true h (.inl nofun)
  | mMap =>
      have h : UsesOnlySent .mMap info :=
        @usesOnlySent_of_word _ _ MMapRequest.mk ⟨⟨0⟩⟩ rfl fun _ => rfl
      apply iff_of_true h (.inl nofun)

/-- In a message that brings the id alone, a thread request is decoded from what was left over
in the registers behind it. -/
theorem thread_decodes_leftovers :
  ¬ UsesOnlySent .thread (MessageInfo.new 0 0 0 1)
  := by
  intro h
  have hagree : Registers.AgreeBelow 1 (fun _ => 0) (setMR 1 7 fun _ => 0) := by
    intro i hi
    rw [getMR_setMR_of_ne (by omega)]
  have hdecode := h.congr _ _ hagree
  have hop : (0 : ℕ) = 7 := congrArg (fun r => r.value.op) hdecode
  cases hop

end RequestType

end Syscall
