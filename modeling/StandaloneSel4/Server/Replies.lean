import StandaloneSel4.Lib.Maximal
import StandaloneSel4.Server.Dispatch

/-!
# Replies

A client whose request has a response waits until the root server replies. Here it is counted
how many replies a round of the root server gives to a message. It is the one that the client
waits for, and none to a client that does not wait, but for messages that are too short: one
without registers fails an assertion, and a request of one word that was sent without its word
is dropped. And there is no reply as long as `kmalloc` or `kfree` does not come back.
-/

open SeL4 Prog Syscall

variable {EntryPoint : Type}

/-- Which calls of `kmalloc` and `kfree` come back, as things stand. They may wait for the lock,
and on a heap that is not intact they may search for ever, or fault. -/
structure Surroundings where
  kmalloc : ℕ → Prop
  kfree : ℕ → Prop

/-- The calls that come back. A system call does. -/
def Surroundings.returns (env : Surroundings) : ServerSig.Call → Prop
  | .inr (.kmalloc size) => env.kmalloc size
  | .inr (.kfree ptr) => env.kfree ptr
  | _ => True

/-- Whether the call is a reply. -/
def isReply : ServerSig.Call → Bool
  | .inr (.reply _) => true
  | _ => false

namespace Syscall.RequestType

/-- Whether the requests of the type have a response. -/
def responds : RequestType → Bool
  | .debug => false
  | _ => true

theorem hasResponse_eq (t : RequestType) (r : t.Request) :
  (t.base r).hasResponse = t.responds
  := by
  cases t <;> rfl

theorem nonempty_request (t : RequestType) :
  Nonempty t.Request
  := by
  cases t with
  | thread => exact ⟨(⟨0, 0, 0⟩ : ThreadRequest)⟩
  | debug => exact ⟨(⟨0⟩ : DebugRequest)⟩
  | kMalloc => exact ⟨(⟨0⟩ : KMallocRequest)⟩
  | kFree => exact ⟨(⟨0⟩ : KFreeRequest)⟩
  | mMap => exact ⟨(⟨0⟩ : MMapRequest)⟩

theorem id_injective {t t' : RequestType} (h : t.id = t'.id) :
  t = t'
  := by
  cases t <;> cases t' <;> first | rfl | cases h

end Syscall.RequestType

namespace RootServer

variable {env : Surroundings} {msg : Message} {server : RootServer EntryPoint} {info : MessageInfo}

/-! ### What each branch does -/

/-- The end of the branches that reply. -/
theorem reply_settles (w : ℕ) :
  Settles env.returns isReply 1
    (api (.setMR 1 w) >>= fun _ => api (.reply info) >>= fun _ => .ret server)
  := by
  apply Settles.call_other trivial rfl
  intro _
  apply Settles.call_kind trivial rfl
  intro _
  apply Settles.ret

theorem debug_settles (r : DebugRequest) :
  Settles env.returns isReply 0 (debug r server)
  := by
  unfold debug
  split
  · apply Settles.call_other trivial rfl
    intro _
    apply Settles.ret
  · apply Settles.ret

theorem kmalloc_settles {r : KMallocRequest} (h : env.kmalloc r.size) :
  Settles env.returns isReply 1 (kmalloc info r server)
  := by
  apply Settles.call_other h rfl
  intro ptr
  apply reply_settles

theorem kfree_settles {r : KFreeRequest} (h : env.kfree r.ptr) :
  Settles env.returns isReply 1 (kfree info r server)
  := by
  apply Settles.call_other h rfl
  intro _
  apply reply_settles

theorem mmap_settles (r : MMapRequest) :
  Settles env.returns isReply 1 (mmap info r server)
  := reply_settles 12345

/-- What is done to a thread object after the kernel has answered makes no further call. -/
theorem record_settles (state : Thread.State) (err : Error) (thread : Thread EntryPoint) :
  Settles env.returns isReply 0 ((Thread.record state err).carryOut Thread.control thread)
  := by
  unfold Thread.record
  split
  · apply Settles.ret
  · apply Settles.ret

theorem suspend_settles (thread : Thread EntryPoint) :
  Settles env.returns isReply 0 (thread.suspend.carryOut Thread.control thread)
  := by
  apply Settles.call_other trivial rfl
  intro err
  apply record_settles

theorem resume_settles (thread : Thread EntryPoint) :
  Settles env.returns isReply 0 (thread.resume.carryOut Thread.control thread)
  := by
  apply Settles.call_other trivial rfl
  intro err
  apply record_settles

theorem setPriority_settles (prio : ℕ) (thread : Thread EntryPoint) :
  Settles env.returns isReply 0 (thread.setPriority prio).inl
  := by
  apply Settles.call_other trivial rfl
  intro (err : Error)
  change Settles _ _ 0 (inl (if err = Error.noError then ret _ else ret _))
  split
  · apply Settles.ret
  · apply Settles.ret

/-- The operations on threads return, whatever the operation, and whether the thread is found or
not. -/
theorem threadOp_settles (r : ThreadRequest) :
  Settles env.returns isReply 0 (threadOp r server)
  := by
  unfold threadOp
  split
  · apply Settles.call_other trivial rfl
    intro _
    apply Settles.ret
  · split
    · apply (suspend_settles _).bind (n := 0)
      intro _
      apply Settles.ret
    · apply Settles.ret
  · split
    · apply (resume_settles _).bind (n := 0)
      intro _
      apply Settles.ret
    · apply Settles.ret
  · split
    · apply (setPriority_settles _ _).bind (n := 0)
      intro _
      apply Settles.ret
    · apply Settles.ret
  · apply Settles.ret
  · apply Settles.ret

theorem thread_settles (r : ThreadRequest) :
  Settles env.returns isReply 1 (thread info r server)
  := by
  unfold thread
  rw [← Nat.zero_add 1]
  apply (threadOp_settles r).bind
  intro server
  apply reply_settles

/-! ### What is done for a message -/

/-- A request of one word that was sent with its word is served. -/
theorem branch_long {α : Type} [Inhabited α] {make : ℕ → α}
    {f : α → RootServer EntryPoint → Server (RootServer EntryPoint)} (h : 2 ≤ msg.info.length) :
  branch (decodeWord make msg.info msg.mrs) f server = f (make (getMR 1 msg.mrs)) server
  := by
  rw [decodeWord_long h]
  rfl

/-- When the root server has received the message in a round, and goes no further, it has failed
no assertion, and has replied once when the message is a request that has a response and not at
all when it is one that has none. -/
def Answered (env : Surroundings) (server : RootServer EntryPoint) (received : Received) : Prop :=
  ∀ tr o, Maximal env.returns server.round (⟨.inr (.recv server.apiEndpoint), received⟩ :: tr) o →
    o ≠ .fail ∧ ∀ (t : RequestType) (r : t.Request), getMR 0 received.msg.mrs = t.id.toWord →
      count isReply tr = if (t.base r).hasResponse then 1 else 0

/-- When it can answer a message: there is a register, also one for the word of a request of one
word that has a response, and the `kmalloc` or `kfree` that is asked for comes back. -/
structure Answerable (env : Surroundings) (msg : Message) : Prop where
  id : 0 < msg.info.length
  word : ∀ id ∈ [ID.kMalloc, ID.kFree, ID.mMap], getMR 0 msg.mrs = id.toWord →
    2 ≤ msg.info.length
  kmalloc : getMR 0 msg.mrs = ID.kMalloc.toWord → env.kmalloc (getMR 1 msg.mrs)
  kfree : getMR 0 msg.mrs = ID.kFree.toWord → env.kfree (getMR 1 msg.mrs)

/-- A request that can be answered is replied to as often as it has responses. -/
theorem Answerable.settles (h : Answerable env msg) {t : RequestType}
    (hid : getMR 0 msg.mrs = t.id.toWord) :
  Settles env.returns isReply (if t.responds then 1 else 0) (processSyscall msg server)
  := by
  rw [processSyscall_eq h.id (ID.ofWord_eq_some_iff.mpr hid)]
  cases t with
  | debug =>
      change Settles _ _ 0 (branch _ _ _)
      unfold branch
      split
      · apply debug_settles
      · apply Settles.ret
  | kMalloc =>
      change Settles _ _ 1 (branch (decodeWord KMallocRequest.mk _ _) (RootServer.kmalloc _) _)
      rw [branch_long (h.word .kMalloc (by decide) hid)]
      apply kmalloc_settles (h.kmalloc hid)
  | kFree =>
      change Settles _ _ 1 (branch (decodeWord KFreeRequest.mk _ _) (RootServer.kfree _) _)
      rw [branch_long (h.word .kFree (by decide) hid)]
      apply kfree_settles (h.kfree hid)
  | mMap =>
      change Settles _ _ 1 (branch (decodeWord MMapRequest.mk _ _) (RootServer.mmap _) _)
      rw [branch_long (h.word .mMap (by decide) hid)]
      apply mmap_settles
  | thread => apply thread_settles

section

variable {received : Received} {caller : SharedThread EntryPoint}
  (hcaller : server.threads.get received.sender = some caller)
  (hlabel : received.msg.info.label = nullFault)

include hcaller hlabel

/-- A message from a thread of the table that is not a fault goes to `processSyscall`. -/
theorem maximal_round_iff {tr : List (Event ServerSig)} {o : Outcome (RootServer EntryPoint)} :
  Maximal env.returns server.round (⟨.inr (.recv server.apiEndpoint), received⟩ :: tr) o
    ↔ Maximal env.returns (processSyscall received.msg server) tr o
  := by
  have hrecv : env.returns (.inr (.recv server.apiEndpoint)) := trivial
  have hreceive : receive received server = processSyscall received.msg server := by
    simp only [receive, hcaller, if_pos hlabel]
  rw [← hreceive]
  apply Maximal.call_iff hrecv

/-- A message without registers fails an assertion. -/
theorem not_answered_of_empty (hlen : received.msg.info.length = 0) :
  ¬ Answered env server received
  := by
  intro h
  have hfail : Maximal env.returns (processSyscall received.msg server) [] .fail := by
    rw [processSyscall, assert_false_bind (by omega)]
    apply Maximal.fail
  obtain ⟨hnot, -⟩ := h _ _ ((maximal_round_iff hcaller hlabel).mpr hfail)
  apply hnot rfl

/-- A request that has a response is not answered when nothing is called for it. -/
theorem not_answered_of_silent {t : RequestType} (hresponds : t.responds = true)
    (hid : getMR 0 received.msg.mrs = t.id.toWord) {o : Outcome (RootServer EntryPoint)}
    (hsilent : Maximal env.returns (processSyscall received.msg server) [] o) :
  ¬ Answered env server received
  := by
  intro h
  obtain ⟨-, hcount⟩ := h _ _ ((maximal_round_iff hcaller hlabel).mpr hsilent)
  obtain ⟨r⟩ := t.nonempty_request
  have hone := hcount t r hid
  rw [t.hasResponse_eq, hresponds] at hone
  cases hone

/-- A request that has a response is not answered when it is not decoded. -/
theorem not_answered_of_dropped {t : RequestType} (hresponds : t.responds = true)
    (hid : getMR 0 received.msg.mrs = t.id.toWord) (hlen : 0 < received.msg.info.length)
    (hinvalid : (t.decode received.msg.info received.msg.mrs).isValid = false) :
  ¬ Answered env server received
  := by
  have hret : processSyscall received.msg server = .ret server := by
    rw [processSyscall_eq hlen (ID.ofWord_eq_some_iff.mpr hid), branch, hinvalid]
    rfl
  apply not_answered_of_silent hcaller hlabel hresponds hid (o := .ret server)
  rw [hret]
  apply Maximal.ret server

/-- A request is answered only when it comes with its word, if it has one. -/
theorem Answered.word (h : Answered env server received) (hlen : 0 < received.msg.info.length)
    {t : RequestType} {make : ℕ → t.Request} [Inhabited t.Request]
    (hdecode : t.decode = decodeWord make) (hresponds : t.responds = true)
    (hid : getMR 0 received.msg.mrs = t.id.toWord) :
  2 ≤ received.msg.info.length
  := by
  by_contra hword
  apply not_answered_of_dropped hcaller hlabel hresponds hid hlen _ h
  rw [hdecode, decodeWord_short (by omega)]
  rfl

/-- It is answered only when what is called first for it comes back. -/
theorem Answered.returns (h : Answered env server received) {t : RequestType}
    (hresponds : t.responds = true) (hid : getMR 0 received.msg.mrs = t.id.toWord)
    {c : ServerSig.Call} {k : ServerSig.Answer c → Server (RootServer EntryPoint)}
    (hcall : processSyscall received.msg server = .call c k) :
  env.returns c
  := by
  by_contra hwaits
  apply not_answered_of_silent hcaller hlabel hresponds hid (o := .running) _ h
  rw [hcall]
  apply Maximal.waits c k hwaits

/-- A message that is answered can be answered. -/
theorem Answered.answerable (h : Answered env server received) :
  Answerable env received.msg
  := by
  have hlen : 0 < received.msg.info.length := by
    by_contra hlen
    apply not_answered_of_empty hcaller hlabel (by omega) h
  have hkmalloc : getMR 0 received.msg.mrs = ID.kMalloc.toWord → 2 ≤ received.msg.info.length :=
    @Answered.word _ _ _ _ _ hcaller hlabel h hlen .kMalloc KMallocRequest.mk ⟨⟨0⟩⟩ rfl rfl
  have hkfree : getMR 0 received.msg.mrs = ID.kFree.toWord → 2 ≤ received.msg.info.length :=
    @Answered.word _ _ _ _ _ hcaller hlabel h hlen .kFree KFreeRequest.mk ⟨⟨0⟩⟩ rfl rfl
  have hmmap : getMR 0 received.msg.mrs = ID.mMap.toWord → 2 ≤ received.msg.info.length :=
    @Answered.word _ _ _ _ _ hcaller hlabel h hlen .mMap MMapRequest.mk ⟨⟨0⟩⟩ rfl rfl
  constructor
  · apply hlen
  · intro id hmem
    simp only [List.mem_cons, List.not_mem_nil, or_false] at hmem
    rcases hmem with rfl | rfl | rfl
    · apply hkmalloc
    · apply hkfree
    · apply hmmap
  · intro hid
    have hbranch : processSyscall received.msg server
        = branch (KMallocRequest.decode received.msg.info received.msg.mrs)
            (RootServer.kmalloc received.msg.info) server :=
      processSyscall_eq (t := .kMalloc) hlen (ID.ofWord_eq_some_iff.mpr hid)
    rw [KMallocRequest.decode, branch_long (hkmalloc hid)] at hbranch
    apply h.returns hcaller hlabel (t := .kMalloc) rfl hid hbranch
  · intro hid
    have hbranch : processSyscall received.msg server
        = branch (KFreeRequest.decode received.msg.info received.msg.mrs)
            (RootServer.kfree received.msg.info) server :=
      processSyscall_eq (t := .kFree) hlen (ID.ofWord_eq_some_iff.mpr hid)
    rw [KFreeRequest.decode, branch_long (hkfree hid)] at hbranch
    apply h.returns hcaller hlabel (t := .kFree) rfl hid hbranch

/-- A message that can be answered is answered. -/
theorem Answerable.answered (h : Answerable env received.msg) :
  Answered env server received
  := by
  intro tr o hmax
  rw [maximal_round_iff hcaller hlabel] at hmax
  by_cases hid : ∃ t : RequestType, getMR 0 received.msg.mrs = t.id.toWord
  · obtain ⟨t, hid⟩ := hid
    obtain ⟨⟨server', rfl⟩, hcount⟩ := h.settles hid tr o hmax
    refine ⟨nofun, fun t' r hid' => ?_⟩
    obtain rfl : t' = t := by
      apply RequestType.id_injective
      rw [← ID.ofWord_eq_some_iff, hid', ID.ofWord_toWord] at hid
      apply Option.some.inj hid
    rw [t'.hasResponse_eq, hcount]
  · have hunknown : processSyscall received.msg server = .ret server := by
      apply processSyscall_unknown h.id
      intro t ht
      apply hid ⟨t, ID.ofWord_eq_some_iff.mp ht⟩
    rw [hunknown] at hmax
    cases hmax with
    | ret => exact ⟨nofun, fun t r ht => absurd ⟨t, ht⟩ hid⟩

/-- What is received from a thread of the table and is no fault is answered as it should be
exactly when it can be: it has a register, a request of one word that has a response has one for
its word, and the `kmalloc` or `kfree` that it asks for comes back. -/
theorem answered_iff :
  Answered env server received ↔ Answerable env received.msg
  := by
  constructor
  · intro h
    apply h.answerable hcaller hlabel
  · intro h
    apply h.answered hcaller hlabel

end

/-- A thread with the badge one. -/
def firstThread : SharedThread Unit :=
  ⟨64, { Thread.new 20 () with badge := 1 }⟩

/-- A root server with this thread. -/
def oneThread : RootServer Unit :=
  { (initial 2 : RootServer Unit) with threads := ⟨[firstThread]⟩ }

theorem oneThread_get :
  oneThread.threads.get 1 = some firstThread
  := rfl

/-- A `KMalloc` request in a message of so many registers. -/
def kmallocReceived (length : ℕ) : Received where
  sender := 1
  msg := ⟨MessageInfo.new 0 0 0 length, setMR 0 ID.kMalloc.toWord fun _ => 100⟩

/-- A request for a hundred bytes is answered. -/
theorem kmalloc_answered :
  Answered ⟨fun _ => True, fun _ => True⟩ oneThread (kmallocReceived 2)
  := by
  apply (answered_iff oneThread_get rfl).mpr
  exact ⟨by decide, fun _ _ _ => by decide, fun _ => trivial, fun _ => trivial⟩

/-- A message without registers fails an assertion, and a `KMalloc` request of one register gets
no reply. -/
theorem not_always_answered :
  ¬ Answered ⟨fun _ => True, fun _ => True⟩ oneThread (kmallocReceived 0)
    ∧ ¬ Answered ⟨fun _ => True, fun _ => True⟩ oneThread (kmallocReceived 1)
  := by
  constructor
  · apply not_answered_of_empty oneThread_get rfl rfl
  · apply not_answered_of_dropped oneThread_get rfl (t := .kMalloc) rfl rfl (by decide) rfl

end RootServer
