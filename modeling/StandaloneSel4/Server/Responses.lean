import StandaloneSel4.Server.Wire
import Mathlib.Data.Int.Notation

/-!
# Responses on the wire

The root server replies to a request for memory or pages with the message info of the request and
a word in register 1, and `performBase` makes a response of what the client then receives. The
word arrives, but the response to a `KFreeRequest` does not keep it: it says zero whatever has
arrived. As the root server always puts zero there, this does not show.
-/

open SeL4 Prog

variable {EntryPoint : Type}

namespace Syscall

/-- The types of requests whose response has a result. -/
inductive ResultType where
  | kMalloc
  | kFree
  | mMap
  deriving DecidableEq

/-- The cast of a word to an `int`. -/
def toInt (w : ℕ) : ℤ :=
  Int.bmod w (2 ^ 32)

/-- A word that is cast to zero ends in 32 zeros. -/
theorem toInt_eq_zero_iff {w : ℕ} :
  toInt w = 0 ↔ w % 2 ^ 32 = 0
  := by
  have h : Int.bmod w (2 ^ 32) = 0 ↔ w % 2 ^ 32 = 0 := by
    rw [← Int.dvd_iff_bmod_eq_zero, Int.natCast_dvd_natCast, Nat.dvd_iff_mod_eq_zero]
  apply h

namespace ResultType

/-- The type of the requests. -/
def request : ResultType → RequestType
  | .kMalloc => .kMalloc
  | .kFree => .kFree
  | .mMap => .mMap

/-- The members of the responses. -/
def type : (t : ResultType) → ReturnType t.request.Response
  | .kMalloc => KMallocResponse.type
  | .kFree => KFreeResponse.type
  | .mMap => MMapResponse.type

/-- The result of the response is the word, cast to the type of the result. -/
def Holds : (t : ResultType) → t.request.Response → ℕ → Prop
  | .kMalloc, resp, v => KMallocResponse.p resp = v
  | .kFree, resp, v => KFreeResponse.response resp = toInt v
  | .mMap, resp, v => MMapResponse.p resp = v

variable {t : ResultType}

/-- The requests have a response, and are sent as one word behind the id. -/
theorem perform_eq (endpoint : ℕ) (r : t.request.Request) (mrs : Registers) :
  t.request.perform endpoint r mrs
    = .call (.call endpoint (requestMessage t.request.id (t.request.base r) mrs)) fun ret =>
        .ret (t.type.decode ret.info ret.mrs)
  := by
  cases t <;> rfl

theorem getNumMsgRegisters_eq (r : t.request.Request) :
  (t.request.base r).getNumMsgRegisters = 1
  := by
  cases t <;> rfl

/-- What is received is always decoded, and the response holds the word in register 1, but that to
a `KFreeRequest`. -/
theorem decode_holds_iff (info : MessageInfo) (mrs : Registers) :
  (∃ resp, t.type.decode info mrs = success resp ∧ t.Holds resp (getMR 1 mrs))
    ↔ t ≠ .kFree ∨ getMR 1 mrs % 2 ^ 32 = 0
  := by
  cases t with
  | kMalloc => exact iff_of_true ⟨_, rfl, rfl⟩ (.inl nofun)
  | mMap => exact iff_of_true ⟨_, rfl, rfl⟩ (.inl nofun)
  | kFree =>
      have hzero : (∃ resp, KFreeResponse.type.decode info mrs = success resp
          ∧ resp.response = toInt (getMR 1 mrs)) ↔ toInt (getMR 1 mrs) = 0 := by
        constructor
        · rintro ⟨resp, hdecode, hresp⟩
          cases hdecode
          apply hresp.symm
        · intro h
          exact ⟨_, rfl, h.symm⟩
      apply hzero.trans
      rw [toInt_eq_zero_iff]
      simp

end ResultType

/-- The reply to a message with its own info, the word `v` in register 1 and what else is in the
registers of the server. -/
def replyTo (received : Message) (v : ℕ) (mrs : Registers) : Message where
  info := received.info
  mrs := setMR 1 v mrs

namespace ResultType

variable {t : ResultType}

/-- The word in a reply reaches the client. -/
theorem getMR_reply (r : t.request.Request) (mrs old mrs' : Registers) (v : ℕ) :
  let m := requestMessage t.request.id (t.request.base r) mrs
  getMR 1 ((replyTo (m.deliver old) v mrs').deliver m.mrs).mrs = v
  := by
  have hnum := getNumMsgRegisters_eq r
  have hlen : (requestMessage t.request.id (t.request.base r) mrs).info.length = 2 := by
    rw [requestMessage_length (by omega), hnum]
  intro m
  have hlong : 1 < (replyTo (m.deliver old) v mrs').info.length :=
    Nat.lt_of_lt_of_eq Nat.one_lt_two hlen.symm
  rw [Message.getMR_deliver hlong]
  apply getMR_setMR_self

/-- The client gets a response that holds the word in the reply exactly when the request is no
`KFreeRequest`, or the word is zero as an `int`. -/
theorem response_survives_iff (t : ResultType) (endpoint : ℕ) (r : t.request.Request)
    (mrs old mrs' : Registers) (v : ℕ) :
  (∃ m k resp, t.request.perform endpoint r mrs = .call (.call endpoint m) k
      ∧ k ((replyTo (m.deliver old) v mrs').deliver m.mrs) = .ret (success resp) ∧ t.Holds resp v)
    ↔ t ≠ .kFree ∨ v % 2 ^ 32 = 0
  := by
  let m := requestMessage t.request.id (t.request.base r) mrs
  let reply := (replyTo (m.deliver old) v mrs').deliver m.mrs
  have hword : getMR 1 reply.mrs = v := getMR_reply r mrs old mrs' v
  rw [← hword, ← decode_holds_iff reply.info reply.mrs, hword, perform_eq]
  constructor
  · rintro ⟨m, k, resp, hcall, hret, hholds⟩
    cases hcall
    exact ⟨resp, Prog.ret.inj hret, hholds⟩
  · rintro ⟨resp, hdecode, hholds⟩
    refine ⟨_, _, resp, rfl, ?_, hholds⟩
    exact congrArg Prog.ret hdecode

/-- Whatever the word in the reply to a `KFreeRequest`, the response is zero. -/
theorem kFree_not_survives :
  ¬ ∀ (t : ResultType) (endpoint : ℕ) (r : t.request.Request) (mrs old mrs' : Registers) (v : ℕ),
      ∃ m k resp, t.request.perform endpoint r mrs = .call (.call endpoint m) k
        ∧ k ((replyTo (m.deliver old) v mrs').deliver m.mrs) = .ret (success resp)
        ∧ t.Holds resp v
  := by
  intro hall
  obtain ⟨m, k, resp, hcall, hret, hholds⟩ := hall .kFree 0 ⟨0⟩ 0 0 0 1
  cases hcall
  cases hret
  cases hholds

end ResultType

end Syscall

namespace RootServer

open Syscall

variable {server server' : RootServer EntryPoint} {info : MessageInfo} {t : ResultType}

/-- A reply with the word `v` in register 1. -/
theorem reply_inv {v : ℕ} {tr : List (Event ServerSig)}
    (h : Exec (api (.setMR 1 v) >>= fun _ => api (.reply info) >>= fun _ => .ret server) tr
      (.ret server')) :
  tr = [⟨.inr (.setMR 1 v), ()⟩, ⟨.inr (.reply info), ()⟩]
  := by
  cases h with
  | call _ _ _ h =>
      cases h with
      | call _ _ _ h =>
          obtain ⟨rfl, -⟩ := h.ret_inv
          rfl

/-- The root server ends serving such a request by a reply with the info of the request, before
which it puts a word into register 1. The word is zero when the request is a `KFreeRequest`. -/
theorem serve_replies {r : t.request.Request} {tr : List (Event ServerSig)}
    (h : Exec (serve t.request info r server) tr (.ret server')) :
  ∃ tr' v, tr = tr' ++ [⟨.inr (.setMR 1 v), ()⟩, ⟨.inr (.reply info), ()⟩]
    ∧ (t = .kFree → v = 0)
  := by
  cases t with
  | kMalloc =>
      cases h with
      | call _ _ ptr h => exact ⟨[_], ptr, congrArg _ (reply_inv h), nofun⟩
  | kFree =>
      cases h with
      | call _ _ _ h => exact ⟨[_], 0, congrArg _ (reply_inv h), fun _ => rfl⟩
  | mMap => exact ⟨[], 12345, reply_inv h, nofun⟩

/-- In every execution in which the root server has served a request, it has put a word into
register 1 and replied, and the client gets a response that holds this word. -/
theorem responses_survive (endpoint : ℕ) (r : t.request.Request) (mrs old mrs' : Registers) :
  ∃ m k, t.request.perform endpoint r mrs = .call (.call endpoint m) k
    ∧ ∀ tr server', Exec (processSyscall (m.deliver old) server) tr (.ret server') →
        ∃ tr' v resp, tr = tr' ++ [⟨.inr (.setMR 1 v), ()⟩, ⟨.inr (.reply m.info), ()⟩]
          ∧ k ((replyTo (m.deliver old) v mrs').deliver m.mrs) = .ret (Syscall.success resp)
          ∧ t.Holds resp v
  := by
  refine ⟨_, _, ResultType.perform_eq endpoint r mrs, ?_⟩
  intro tr server' h
  rw [processSyscall_request] at h
  obtain ⟨tr', v, htr, hzero⟩ := serve_replies h
  let m := requestMessage t.request.id (t.request.base r) mrs
  let reply := (replyTo (m.deliver old) v mrs').deliver m.mrs
  have hword : getMR 1 reply.mrs = v := ResultType.getMR_reply r mrs old mrs' v
  have hholds : t ≠ .kFree ∨ getMR 1 reply.mrs % 2 ^ 32 = 0 := by
    by_cases ht : t = .kFree
    · right
      rw [hword, hzero ht, Nat.zero_mod]
    · exact .inl ht
  obtain ⟨resp, hdecode, hholds⟩ := (ResultType.decode_holds_iff reply.info reply.mrs).mpr hholds
  rw [hword] at hholds
  exact ⟨tr', v, resp, htr, congrArg Prog.ret hdecode, hholds⟩

end RootServer
