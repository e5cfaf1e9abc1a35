import StandaloneSel4.Heap.Book
import StandaloneSel4.Lib.Sum
import StandaloneSel4.Lib.Total
import StandaloneSel4.Server.Replies
import StandaloneSel4.Server.Responses

/-!
# Sessions

Threads of the table send requests to the root server in any order, and what they free is what they
have got. The root server receives one message after the other, its heap is its own, and whatever it
calls may leave anything in its message registers. What it does for all of them together is the
service: every thread that waits gets the answer to its own request.
-/

open SeL4 Prog Syscall Service Kmalloc Sync Fuel

variable {EntryPoint : Type}

/-! ### What is sent -/

/-- What a thread sends, given by its badge and its message registers. -/
structure Letter where
  sender : ℕ
  content : Content
  mrs : Registers

/-- The message. -/
def Letter.message (l : Letter) : Message :=
  match l.content with
  | .request t r => requestMessage t.id (t.base r) l.mrs
  | .fault info _ => ⟨info, l.mrs⟩

/-- The message for a request says which request it is. -/
theorem Letter.content_eq {l : Letter} {t : RequestType} {r : t.Request} {mrs : Registers}
    (h : l.message = requestMessage t.id (t.base r) mrs) :
  l.content = .request t r
  := by
  obtain ⟨sender, content, own⟩ := l
  cases content with
  | request t' r' =>
      have hmessage : requestMessage t'.id (t'.base r') own
          = requestMessage t.id (t.base r) mrs := h
      have hid := RequestType.id_received r mrs own
      have hdecode := RequestType.decode_received r mrs own
      rw [← hmessage] at hid hdecode
      rw [RequestType.id_received r' own own, Option.some.injEq] at hid
      obtain rfl : t' = t := by
        revert hid
        cases t' <;> cases t <;> decide
      rw [RequestType.decode_received r' own own] at hdecode
      exact congrArg (Content.request t') (congrArg Expected.value hdecode)
  | fault info hlabel =>
      obtain rfl : info = (requestMessage t.id (t.base r) mrs).info := congrArg Message.info h
      exact absurd rfl hlabel

/-- The response that says `v`. -/
def Syscall.RequestType.response : (t : RequestType) → ℕ → t.Response
  | .debug, _ => BaseResponse.mk
  | .kMalloc, v => KMallocResponse.mk v
  | .kFree, v => KFreeResponse.mk (toInt v)
  | .mMap, v => MMapResponse.mk v
  | .thread, _ => BaseResponse.mk

/-- With the message `m` for a reply, `performBase` returns the response that says `v` to the one
who has sent the letter. -/
def Letter.Gets (l : Letter) (m : Message) (v : ℕ) : Prop :=
  match l.content with
  | .request t r => ∀ endpoint, ∃ k,
      t.perform endpoint r l.mrs = .call (.call endpoint l.message) k
        ∧ k (m.deliver l.message.mrs) = .ret (success (t.response v))
  | .fault _ _ => False

/-! ### The desk -/

/-- What surrounds the root server: its heap with the lock and the blocks handed out, its message
registers, the badge of the thread that waits for a reply, what it has received, and the replies
with the badges of those who got them. -/
structure Desk where
  heap : Heap
  lock : BinSem
  live : List Live
  mrs : Registers
  caller : Option ℕ
  letters : List Letter
  replies : List (ℕ × Message)

namespace Desk

/-- A letter that may come: from a thread, for a size that can be counted in chunks, or for a block
that has been handed out. -/
def Expects (senders : List ℕ) (d : Desk) (l : Letter) : Prop :=
  l.sender ∈ senders ∧
    match l.content with
    | .request .kMalloc r => Kmalloc.Countable (KMallocRequest.size r)
    | .request .kFree r =>
        KFreeRequest.ptr r = 0 ∨ ∃ b ∈ d.live, KFreeRequest.ptr r = b.header + 32
    | _ => True

/-- After a letter has been received. A thread waits that sends a request that has a response, or
for which a fault is sent. -/
def receive (d : Desk) (l : Letter) : Desk :=
  { d with
    mrs := (l.message.deliver d.mrs).mrs
    caller :=
      match l.content with
      | .request t r => if (t.base r).hasResponse then some l.sender else none
      | .fault _ _ => some l.sender
    letters := d.letters ++ [l] }

/-- After `seL4_Reply`, which goes to the thread that waits, if one does. -/
def reply (d : Desk) (info : MessageInfo) : Desk :=
  { d with
    caller := none
    replies := d.replies ++ (d.caller.map fun b => (b, ⟨info, d.mrs⟩)).toList }

/-- Anything may be in the message registers. -/
def Disturbed (d d' : Desk) : Prop :=
  ∃ mrs, d' = { d with mrs := mrs }

/-- What surrounds the root server, as it is called. -/
def api (senders : List ℕ) : World ApiSig Desk
  | d, .recv _, received, d' => ∃ l, d.Expects senders l
      ∧ received = ⟨l.sender, l.message.deliver d.mrs⟩ ∧ d' = d.receive l
  | d, .setMR i w, _, d' => d' = { d with mrs := setMR i w d.mrs }
  | d, .reply info, _, d' => d' = d.reply info
  | d, .kmalloc size, ptr, d' => ∃ h lock count,
      Returns (alone heapActs (Kmalloc.kmalloc size) d.heap d.lock) (ptr, h, lock)
      ∧ Returns (chunkCount size) count
      ∧ Disturbed { d with heap := h, lock := lock, live := handOut d.live ptr count size } d'
  | d, .kfree ptr, _, d' => ∃ h lock,
      Returns (alone heapActs (Kmalloc.kfree ptr) d.heap d.lock) ((), h, lock)
      ∧ Disturbed { d with heap := h, lock := lock, live := release d.live ptr } d'
  | d, .debugDumpScheduler, _, d' => d.Disturbed d'
  | d, .thread _, _, d' => d.Disturbed d'

/-- The kernel, and all else. -/
def world (senders : List ℕ) : World ServerSig Desk :=
  World.sum (fun d _ _ d' => d.Disturbed d') (api senders)

/-- Before the first message. -/
def start (h : Heap) (lock : BinSem) (mrs : Registers) : Desk where
  heap := h
  lock := lock
  live := []
  mrs := mrs
  caller := none
  letters := []
  replies := []

end Desk

/-! ### The table -/

namespace ThreadTable

variable {table : ThreadTable EntryPoint} {t : SharedThread EntryPoint}

/-- Every thread of the table has an object of its own. -/
def Apart (table : ThreadTable EntryPoint) : Prop :=
  (table.threads.map SharedThread.ptr).Nodup

theorem mem_of_get {badge : ℕ} (h : table.get badge = some t) :
  t ∈ table.threads
  := List.mem_of_find?_eq_some h

/-- An assignment that keeps the badge of the thread keeps all badges, and the objects apart. -/
theorem assign_badges (hapart : table.Apart) (ht : t ∈ table.threads) {thread : Thread EntryPoint}
    (hbadge : thread.badge = t.thread.badge) :
  (table.assign t.ptr thread).badges = table.badges ∧ (table.assign t.ptr thread).Apart
  := by
  constructor
  · simp only [badges, assign, List.map_map]
    apply List.map_congr_left
    intro t' ht'
    simp only [Function.comp_apply]
    split
    · rename_i hptr
      rw [hbadge, List.inj_on_of_nodup_map hapart ht' ht hptr]
    · rfl
  · unfold Apart at hapart ⊢
    rw [assign, List.map_map]
    convert hapart using 2
    funext t'
    simp only [Function.comp_apply]
    split <;> rfl

end ThreadTable

namespace RootServer

open Prog

variable {server : RootServer EntryPoint} {senders : List ℕ} {d : Desk}

/-- The server knows the senders by their badges. -/
structure Knows (senders : List ℕ) (server : RootServer EntryPoint) : Prop where
  badges : server.threads.badges = senders
  apart : server.threads.Apart

theorem Knows.assign (h : server.Knows senders) {t : SharedThread EntryPoint}
    (ht : t ∈ server.threads.threads) {thread : Thread EntryPoint}
    (hbadge : thread.badge = t.thread.badge) :
  (server.assign t thread).Knows senders
  := by
  obtain ⟨hbadges, hapart⟩ := ThreadTable.assign_badges h.apart ht hbadge
  exact ⟨hbadges.trans h.badges, hapart⟩

/-- A sender has an entry in the table. -/
theorem Knows.exists_caller (h : server.Knows senders) {badge : ℕ} (hsender : badge ∈ senders) :
  ∃ t, server.threads.get badge = some t
  := by
  rw [← h.badges] at hsender
  apply Option.ne_none_iff_exists'.mp
  intro hnone
  exact ThreadTable.get_eq_none_iff.mp hnone hsender

/-- A letter with a request gets to what serves such requests. -/
theorem Knows.receive_request (h : server.Knows senders) {l : Letter} (hsender : l.sender ∈ senders)
    {t : RequestType} {r : t.Request} (hcontent : l.content = .request t r) (old : Registers) :
  receive ⟨l.sender, l.message.deliver old⟩ server
    = serve t (l.message.deliver old).info r server
  := by
  obtain ⟨caller, hcaller⟩ := h.exists_caller hsender
  have hmessage : l.message = requestMessage t.id (t.base r) l.mrs := by
    rw [Letter.message, hcontent]
  have hlabel : (l.message.deliver old).info.label = nullFault := by
    rw [hmessage]
    rfl
  simp only [receive, hcaller]
  rw [if_pos hlabel, hmessage]
  exact processSyscall_request r l.mrs old server

/-! ### One letter -/

/-- The reply went to the one who had sent the letter, who gets the answer `v` by it. -/
def Delivered (e : Letter × ℕ) (reply : ℕ × Message) : Prop :=
  reply.1 = e.1.sender ∧ e.1.Gets reply.2 e.2

/-- What has become of a letter that was received: it has been served. -/
structure Served (l : Letter) (d d' : Desk) : Prop where
  run : Kmalloc.Run Kmalloc.Countable d'.heap d'.lock d'.live
  letters : d'.letters = d.letters
  serves : ∃ v rs, Serves (book d.live) l.content v (book d'.live)
    ∧ d'.replies = d.replies ++ rs ∧ List.Forall₂ Delivered (v.map (Prod.mk l)).toList rs

variable {l : Letter} {d' : Desk}

/-- A letter that has an answer was answered. -/
theorem Served.answered (h : Served l d d') (hanswered : l.content.answered = true) :
  ∃ w m, Serves (book d.live) l.content (some w) (book d'.live)
    ∧ d'.replies = d.replies ++ [(l.sender, m)] ∧ l.Gets m w
  := by
  obtain ⟨v, rs, hserves, hreplies, hdelivered⟩ := h.serves
  obtain ⟨w, rfl⟩ : ∃ w, v = some w := by
    rw [← Option.isSome_iff_exists, hserves.isSome_eq, hanswered]
  cases hdelivered with
  | @cons _ reply _ _ hreply hnil =>
      cases hnil
      obtain ⟨sender, m⟩ := reply
      obtain ⟨rfl, hgets⟩ := hreply
      exact ⟨w, m, hserves, hreplies, hgets⟩

/-- A letter that is served without a reply, the heap being left as it is. -/
theorem Served.silent (hrun : Kmalloc.Run Kmalloc.Countable d.heap d.lock d.live)
    (hserves : Serves (book d.live) l.content none (book d.live)) (hd : d.Disturbed d') :
  Served l d d'
  := by
  obtain ⟨mrs, rfl⟩ := hd
  exact ⟨hrun, rfl, none, [], hserves, (List.append_nil _).symm, List.Forall₂.nil⟩

/-- A reply with the info of the request and the word `w` in register 1 is what the client waits
for. -/
theorem gets_reply {t : RequestType} {r : t.Request} (hcontent : l.content = .request t r)
    (hresponds : (t.base r).hasResponse = true) (old mrs : Registers) {w : ℕ}
    (hzero : t = .kFree → w = 0) :
  l.Gets ⟨(l.message.deliver old).info, setMR 1 w mrs⟩ w
  := by
  obtain ⟨sender, content, own⟩ := l
  obtain rfl : content = .request t r := hcontent
  intro endpoint
  cases t with
  | debug => cases hresponds
  | kMalloc =>
      refine ⟨_, rfl, ?_⟩
      have hword := ResultType.getMR_reply (t := .kMalloc) r own old mrs w
      exact congrArg (fun w => ret (Syscall.success (KMallocResponse.mk w))) hword
  | kFree =>
      obtain rfl := hzero rfl
      exact ⟨_, rfl, rfl⟩
  | mMap =>
      refine ⟨_, rfl, ?_⟩
      have hword := ResultType.getMR_reply (t := .mMap) r own old mrs w
      exact congrArg (fun w => ret (Syscall.success (MMapResponse.mk w))) hword
  | thread => exact ⟨_, rfl, rfl⟩

/-- The end of the branches that reply. -/
theorem reply_total {info : MessageInfo} {w b : ℕ} (hcaller : d.caller = some b) :
  (api (.setMR 1 w) >>= fun _ => api (.reply info) >>= fun _ => .ret server).totalIn
    (Desk.world senders) d fun server' d' => server' = server
      ∧ d' = { d with
          mrs := setMR 1 w d.mrs
          caller := none
          replies := d.replies ++ [(b, ⟨info, setMR 1 w d.mrs⟩)] }
  := by
  refine ⟨⟨(), _, rfl⟩, fun _ d₁ hd₁ => ?_⟩
  obtain rfl : d₁ = { d with mrs := setMR 1 w d.mrs } := hd₁
  refine ⟨⟨(), _, rfl⟩, fun _ d₂ hd₂ => ?_⟩
  obtain rfl : d₂ = Desk.reply { d with mrs := setMR 1 w d.mrs } info := hd₂
  refine ⟨rfl, ?_⟩
  simp only [Desk.reply, hcaller, Option.map_some, Option.toList_some]

/-- What a control of a thread leaves: the kernel has been called, and the badge is the same. -/
def Controlled (thread : Thread EntryPoint) (d : Desk) (thread' : Thread EntryPoint) (d' : Desk) :
    Prop :=
  thread'.badge = thread.badge ∧ d.Disturbed d'

theorem record_total (state : Thread.State) (err : Error) {thread : Thread EntryPoint}
    (hd : d.Disturbed d') :
  ((Thread.record state err).carryOut Thread.control thread).totalIn (Desk.world senders) d'
    fun r d'' => Controlled thread d r.2 d''
  := by
  unfold Thread.record
  split
  · exact ⟨rfl, hd⟩
  · exact ⟨rfl, hd⟩

theorem suspend_total (thread : Thread EntryPoint) :
  (thread.suspend.carryOut Thread.control thread).totalIn (Desk.world senders) d
    fun r d' => Controlled thread d r.2 d'
  := by
  refine ⟨⟨Error.noError, d, d.mrs, rfl⟩, fun err d' hd => ?_⟩
  exact record_total .paused err hd

theorem resume_total (thread : Thread EntryPoint) :
  (thread.resume.carryOut Thread.control thread).totalIn (Desk.world senders) d
    fun r d' => Controlled thread d r.2 d'
  := by
  refine ⟨⟨Error.noError, d, d.mrs, rfl⟩, fun err d' hd => ?_⟩
  exact record_total .running err hd

theorem setPriority_total (prio : ℕ) (thread : Thread EntryPoint) :
  (thread.setPriority prio).inl.totalIn (Desk.world senders) d
    fun r d' => Controlled thread d r.2 d'
  := by
  refine ⟨⟨Error.noError, d, d.mrs, rfl⟩, fun (err : Error) d' hd => ?_⟩
  change totalIn _ (inl (if err = Error.noError then ret _ else ret _)) _ _
  split
  · exact ⟨rfl, hd⟩
  · exact ⟨rfl, hd⟩

/-- A program that controls a thread, and the assignment of what it has made of the object. -/
theorem assign_total (h : server.Knows senders) {badge : ℕ} {t : SharedThread EntryPoint}
    (ht : server.threads.get badge = some t) {p : Server (Error × Thread EntryPoint)}
    (hp : p.totalIn (Desk.world senders) d fun r d' => Controlled t.thread d r.2 d') :
  (p >>= fun r => .ret (server.assign t r.2)).totalIn (Desk.world senders) d
    fun server' d' => server'.Knows senders ∧ d.Disturbed d'
  := by
  apply totalFor_bind
  apply totalFor_mono hp
  rintro ⟨err, thread⟩ d' ⟨hbadge, hd⟩
  exact ⟨h.assign (ThreadTable.mem_of_get ht) hbadge, hd⟩

/-- The operations on threads return, and change nothing but threads. -/
theorem threadOp_total (h : server.Knows senders) (r : ThreadRequest) :
  (threadOp r server).totalIn (Desk.world senders) d
    fun server' d' => server'.Knows senders ∧ d.Disturbed d'
  := by
  have hsame : d.Disturbed d := ⟨d.mrs, rfl⟩
  unfold threadOp
  split
  · exact ⟨⟨(), d, d.mrs, rfl⟩, fun _ d' hd => ⟨h, hd⟩⟩
  · split
    · exact assign_total h ‹_› (suspend_total _)
    · exact ⟨h, hsame⟩
  · split
    · exact assign_total h ‹_› (resume_total _)
    · exact ⟨h, hsame⟩
  · split
    · exact assign_total h ‹_› (setPriority_total _ _)
    · exact ⟨h, hsame⟩
  · exact ⟨h, hsame⟩
  · exact ⟨h, hsame⟩

/-- The end of the branches that reply serves the letter, when that is the answer to it. -/
theorem reply_served {old : Registers} {w : ℕ} {d₀ : Desk} (h : server.Knows senders)
    {t : RequestType} {r : t.Request} (hcontent : l.content = .request t r)
    (hresponds : (t.base r).hasResponse = true) (hzero : t = .kFree → w = 0)
    (hcaller : d.caller = some l.sender)
    (hrun : Kmalloc.Run Kmalloc.Countable d.heap d.lock d.live) (hletters : d.letters = d₀.letters)
    (hreplies : d.replies = d₀.replies)
    (hserves : Serves (book d₀.live) l.content (some w) (book d.live)) :
  (api (.setMR 1 w) >>= fun _ => api (.reply (l.message.deliver old).info) >>= fun _ =>
    .ret server).totalIn (Desk.world senders) d
      fun server' d' => server'.Knows senders ∧ Served l d₀ d'
  := by
  apply totalFor_mono (reply_total hcaller)
  rintro server' d' ⟨rfl, rfl⟩
  use h
  refine ⟨hrun, hletters, some w, _, hserves, congrArg (· ++ _) hreplies, ?_⟩
  exact List.Forall₂.cons ⟨rfl, gets_reply hcontent hresponds old _ hzero⟩ List.Forall₂.nil

section

variable (h : server.Knows senders) (old : Registers)
  (hrun : Kmalloc.Run Kmalloc.Countable d.heap d.lock d.live)

include h hrun

theorem debug_total {r : DebugRequest} (hcontent : l.content = .request .debug r) :
  (debug r server).totalIn (Desk.world senders) d
    fun server' d' => server'.Knows senders ∧ Served l d d'
  := by
  have hserves : Serves (book d.live) l.content none (book d.live) := by
    rw [hcontent]
    exact .debug
  unfold debug
  split
  · exact ⟨⟨(), d, d.mrs, rfl⟩, fun _ d' hd => ⟨h, .silent hrun hserves hd⟩⟩
  · exact ⟨h, .silent hrun hserves ⟨d.mrs, rfl⟩⟩

theorem kmalloc_total {r : KMallocRequest} (hcontent : l.content = .request .kMalloc r)
    (hcaller : d.caller = some l.sender) (hsize : Kmalloc.Countable r.size) :
  (kmalloc (l.message.deliver old).info r server).totalIn (Desk.world senders) d
    fun server' d' => server'.Knows senders ∧ Served l d d'
  := by
  have hlt : r.size < 2 ^ 64 := by
    unfold Kmalloc.Countable at hsize
    omega
  obtain ⟨count, hcount⟩ := hsize.returns
  obtain ⟨ptr, h', hret⟩ := hrun.kmalloc_returns hlt hcount
  refine ⟨⟨ptr, _, h', d.lock, count, hret, hcount, d.mrs, rfl⟩, fun ptr d' hd => ?_⟩
  obtain ⟨h', lock', count, hret, hcount, mrs, rfl⟩ := hd
  obtain ⟨hrun', hserves⟩ := hrun.kmalloc_serves hsize hcount hret
  exact reply_served h hcontent rfl nofun hcaller hrun' rfl rfl (by rw [hcontent]; exact hserves)

theorem kfree_total {r : KFreeRequest} (hcontent : l.content = .request .kFree r)
    (hcaller : d.caller = some l.sender)
    (hptr : r.ptr = 0 ∨ ∃ b ∈ d.live, r.ptr = b.header + 32) :
  (kfree (l.message.deliver old).info r server).totalIn (Desk.world senders) d
    fun server' d' => server'.Knows senders ∧ Served l d d'
  := by
  obtain ⟨ptr⟩ := r
  obtain ⟨h', hret⟩ := hrun.kfree_ends hptr
  refine ⟨⟨(), _, h', d.lock, hret, d.mrs, rfl⟩, fun _ d' hd => ?_⟩
  obtain ⟨h', lock', hret, mrs, rfl⟩ := hd
  obtain ⟨hrun', hserves⟩ := hrun.kfree_serves hptr hret
  exact reply_served h hcontent rfl (fun _ => rfl) hcaller hrun' rfl rfl
    (by rw [hcontent]; exact hserves)

theorem mmap_total {r : MMapRequest} (hcontent : l.content = .request .mMap r)
    (hcaller : d.caller = some l.sender) :
  (mmap (l.message.deliver old).info r server).totalIn (Desk.world senders) d
    fun server' d' => server'.Knows senders ∧ Served l d d'
  := reply_served h hcontent rfl nofun hcaller hrun rfl rfl (by rw [hcontent]; exact .mMap)

theorem thread_total {r : ThreadRequest} (hcontent : l.content = .request .thread r)
    (hcaller : d.caller = some l.sender) :
  (thread (l.message.deliver old).info r server).totalIn (Desk.world senders) d
    fun server' d' => server'.Knows senders ∧ Served l d d'
  := by
  unfold thread
  apply totalFor_bind
  apply totalFor_mono (threadOp_total h r)
  rintro server' d' ⟨h', mrs, rfl⟩
  exact reply_served h' hcontent rfl nofun hcaller hrun rfl rfl (by rw [hcontent]; exact .thread)

/-- What has been received is served. -/
theorem receive_total (hexpects : d.Expects senders l) :
  (receive ⟨l.sender, l.message.deliver old⟩ server).totalIn (Desk.world senders) (d.receive l)
    fun server' d' => server'.Knows senders ∧ Served l (d.receive l) d'
  := by
  obtain ⟨hsender, hexpects⟩ := hexpects
  cases hcontent : l.content with
  | request t r =>
      rw [h.receive_request hsender hcontent old]
      rw [hcontent] at hexpects
      have hcaller : (t.base r).hasResponse = true → (d.receive l).caller = some l.sender := by
        intro hresponds
        simp only [Desk.receive, hcontent, if_pos hresponds]
      cases t with
      | debug => exact debug_total (d := d.receive l) h hrun hcontent
      | kMalloc => exact kmalloc_total (d := d.receive l) h old hrun hcontent (hcaller rfl) hexpects
      | kFree => exact kfree_total (d := d.receive l) h old hrun hcontent (hcaller rfl) hexpects
      | mMap => exact mmap_total (d := d.receive l) h old hrun hcontent (hcaller rfl)
      | thread => exact thread_total (d := d.receive l) h old hrun hcontent (hcaller rfl)
  | fault info hlabel =>
      have hmessage : (l.message.deliver old).info.label ≠ nullFault := by
        rw [Letter.message, hcontent]
        exact hlabel
      obtain ⟨caller, hcaller⟩ := h.exists_caller hsender
      simp only [receive, hcaller]
      rw [if_neg hmessage]
      refine ⟨h, .silent (d := d.receive l) hrun ?_ ⟨(d.receive l).mrs, rfl⟩⟩
      rw [hcontent]
      exact .fault

end

/-- A round receives a letter that may come, and serves it. -/
theorem round_serves (hsenders : senders ≠ []) (h : server.Knows senders)
    (hrun : Kmalloc.Run Kmalloc.Countable d.heap d.lock d.live) :
  server.round.totalIn (Desk.world senders) d fun server' d' =>
    server'.Knows senders ∧ ∃ l, d.Expects senders l ∧ Served l (d.receive l) d'
  := by
  obtain ⟨b, hb⟩ := List.exists_mem_of_ne_nil senders hsenders
  refine ⟨⟨_, _, ⟨b, .request .debug (DebugRequest.mk 0), d.mrs⟩, ⟨hb, trivial⟩, rfl, rfl⟩, ?_⟩
  rintro received d' ⟨l, hexpects, rfl, rfl⟩
  apply totalFor_mono (receive_total h d.mrs hrun hexpects)
  rintro server' d' ⟨hknows, hserved⟩
  exact ⟨hknows, l, hexpects, hserved⟩

/-- Any letter that may come is received by some round. -/
theorem exists_round (h : server.Knows senders)
    (hrun : Kmalloc.Run Kmalloc.Countable d.heap d.lock d.live) (hexpects : d.Expects senders l) :
  ∃ tr server' d', Runs (Desk.world senders) d server.round tr (some server') d'
    ∧ Served l (d.receive l) d'
  := by
  have htotal := receive_total h d.mrs hrun hexpects
  obtain ⟨tr, o, d', hruns⟩ := exists_runs_of_totalIn htotal
  obtain ⟨server', rfl, -, hserved⟩ := hruns.of_totalFor htotal
  exact ⟨_, server', d', .call ⟨l, hexpects, rfl, rfl⟩ hruns, hserved⟩

/-- The state after some rounds: what was received has been served. -/
structure InSession (senders : List ℕ) (rounds : ℕ) (server : RootServer EntryPoint) (d : Desk) :
    Prop where
  knows : server.Knows senders
  run : Kmalloc.Run Kmalloc.Countable d.heap d.lock d.live
  length : d.letters.length = rounds
  serves : ∃ log, Service.Runs Letter.content d.letters log (book d.live)
    ∧ List.Forall₂ Delivered log d.replies

/-- A round serves one more letter. -/
theorem round_total {rounds : ℕ} (hsenders : senders ≠ []) (h : InSession senders rounds server d) :
  server.round.totalIn (Desk.world senders) d (InSession senders (rounds + 1))
  := by
  apply totalFor_mono (round_serves hsenders h.knows h.run)
  rintro server' d' ⟨hknows, l, -, hserved⟩
  obtain ⟨log, hruns, hreplies⟩ := h.serves
  obtain ⟨v, rs, hserves, hmore, hdelivered⟩ := hserved.serves
  have hletters : d'.letters = d.letters ++ [l] := hserved.letters
  constructor
  · exact hknows
  · exact hserved.run
  · rw [hletters, List.length_append, h.length, List.length_singleton]
  · use log ++ (v.map (Prod.mk l)).toList
    constructor
    · rw [hletters]
      exact hruns.snoc hserves
    · rw [hmore]
      exact List.rel_append hreplies hdelivered

/-- Every thread that waits gets one reply, in the order in which the requests were received. -/
theorem InSession.replies {rounds : ℕ} (h : InSession senders rounds server d) :
  d.replies.map Prod.fst
    = (d.letters.filter fun l => l.content.answered).map Letter.sender
  := by
  obtain ⟨log, hruns, hreplies⟩ := h.serves
  rw [← hruns.answered, List.map_map]
  generalize d.replies = replies at hreplies
  clear hruns
  induction hreplies with
  | nil => rfl
  | cons hdelivered _ ih =>
      rw [List.map_cons, List.map_cons, ih, hdelivered.1]
      rfl

section

variable {h : Heap} {lock : BinSem} {mem : Bytes.Mem} {head tail start size mutexNotif : ℕ}

/-- In a session any letter that may come is received by some round. -/
theorem InSession.exists_round {rounds : ℕ} (h : InSession senders rounds server d)
    (hexpects : d.Expects senders l) :
  ∃ tr tr' server' d', Prog.Runs (Desk.world senders) d server.round tr (some server') d'
    ∧ Prog.Runs (Desk.world senders) (d.receive l)
        (receive ⟨l.sender, l.message.deliver d.mrs⟩ server) tr' (some server') d'
    ∧ InSession senders (rounds + 1) server' d' ∧ d'.letters = d.letters ++ [l]
  := by
  have htotal := receive_total h.knows d.mrs h.run hexpects
  obtain ⟨tr, o, d', hruns⟩ := exists_runs_of_totalIn htotal
  obtain ⟨server', rfl, -, hserved⟩ := hruns.of_totalFor htotal
  have hround : Prog.Runs (Desk.world senders) d server.round _ (some server') d' :=
    .call ⟨l, hexpects, rfl, rfl⟩ hruns
  obtain ⟨server'', heq, hsession⟩ :=
    hround.of_totalFor (round_total (List.ne_nil_of_mem hexpects.1) h)
  obtain rfl := Option.some.inj heq
  exact ⟨_, tr, server', d', hround, hruns, hsession, hserved.letters⟩

end

end RootServer
