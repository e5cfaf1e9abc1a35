import StandaloneSel4.Lib.Handler
import StandaloneSel4.Objects.Progress
import StandaloneSel4.Server.Table
import StandaloneSel4.Syscall.Perform

/-!
# The dispatcher

A round of the loop of the root server receives a message, finds the thread it is from by the
badge, and hands a message that is not a fault to `processSyscall`. There the id in register 0
selects a branch, which decodes the request and does what it asks for when that succeeds. What
is only printed is left out, and so is the calling thread, of which nothing else is used.
-/

open SeL4 Prog Syscall

/-- What `seL4_Recv` gives: the badge of the sender, and the message. -/
structure Received where
  sender : ℕ
  msg : Message

/-- What the root server calls to serve its clients. -/
inductive ApiCall where
  | recv (endpoint : ℕ)
  | setMR (i w : ℕ)
  | reply (info : MessageInfo)
  | kmalloc (size : ℕ)
  | kfree (ptr : ℕ)
  | debugDumpScheduler
  /-- The system calls for a thread. -/
  | thread (c : ThreadCall)

/-- The calls, with what they return. -/
abbrev ApiSig : Signature where
  Call := ApiCall
  Answer
    | .recv _ => Received
    | .kmalloc _ => ℕ
    | .thread c => ThreadSig.Answer c
    | _ => Unit

/-- The calls of the root server: those of its object factory, and those it serves by. -/
abbrev ServerSig : Signature :=
  FactorySig.sum ApiSig

/-- A program of the root server. -/
abbrev Server (α : Type) : Type :=
  Prog ServerSig α

/-- The program that makes a call. -/
def api (c : ApiCall) : Server (ApiSig.Answer c) :=
  perform (S := ServerSig) (.inr c)

variable {EntryPoint : Type}

/-- How a program of a thread is carried out on the thread object by another thread. -/
def Thread.control : Handler ThreadSig ServerSig (Thread EntryPoint)
  | .setState state, thread => return ((), { thread with state := state })
  | c, thread => .call (.inr (.thread c)) fun x => .ret (x, thread)

/-- The table after an assignment to the thread object at `ptr`. -/
def ThreadTable.assign (ptr : ℕ) (thread : Thread EntryPoint) (table : ThreadTable EntryPoint) :
    ThreadTable EntryPoint :=
  ⟨table.threads.map fun t => if t.ptr = ptr then { t with thread := thread } else t⟩

namespace RootServer

/-- The server after an assignment to a thread object. -/
def assign (t : SharedThread EntryPoint) (thread : Thread EntryPoint)
    (server : RootServer EntryPoint) : RootServer EntryPoint :=
  { server with threads := server.threads.assign t.ptr thread }

/-! ### The branches of `processSyscall` -/

/-- The branch for `Debug`, for a request that was decoded. -/
def debug (r : DebugRequest) (server : RootServer EntryPoint) : Server (RootServer EntryPoint) :=
  match DebugRequest.Operation.ofWord r.op with
  | some .dumpScheduler => do
      api .debugDumpScheduler
      return server
  | _ => return server

/-- The branch for `KMalloc`. -/
def kmalloc (info : MessageInfo) (r : KMallocRequest) (server : RootServer EntryPoint) :
    Server (RootServer EntryPoint) := do
  let ptr ← api (.kmalloc r.size)
  api (.setMR 1 ptr)
  api (.reply info)
  return server

/-- The branch for `KFree`. -/
def kfree (info : MessageInfo) (r : KFreeRequest) (server : RootServer EntryPoint) :
    Server (RootServer EntryPoint) := do
  api (.kfree r.ptr)
  api (.setMR 1 0)
  api (.reply info)
  return server

/-- The operation of a request to the branch for `Thread`. -/
def threadOp (r : ThreadRequest) (server : RootServer EntryPoint) :
    Server (RootServer EntryPoint) :=
  match ThreadRequest.ThreadOp.ofWord r.op with
  | some .list => do
      api .debugDumpScheduler
      return server
  | some .suspend =>
      match server.threads.get r.arg1 with
      | some t => do
          let (_, thread) ← t.thread.suspend.carryOut Thread.control t.thread
          return server.assign t thread
      | none => return server
  | some .resume =>
      match server.threads.get r.arg1 with
      | some t => do
          let (_, thread) ← t.thread.resume.carryOut Thread.control t.thread
          return server.assign t thread
      | none => return server
  | some .setPriority =>
      match server.threads.get r.arg1 with
      | some t => do
          let (_, thread) ← (t.thread.setPriority r.arg2).inl
          return server.assign t thread
      | none => return server
  -- the thread is looked up, and nothing is done with it
  | some .stopAndDelete => return server
  | none => return server

/-- The branch for `Thread`. -/
def thread (info : MessageInfo) (r : ThreadRequest) (server : RootServer EntryPoint) :
    Server (RootServer EntryPoint) := do
  let server ← threadOp r server
  api (.setMR 1 0)
  api (.reply info)
  return server

/-- The branch for `MMap`. -/
def mmap (info : MessageInfo) (_ : MMapRequest) (server : RootServer EntryPoint) :
    Server (RootServer EntryPoint) := do
  api (.setMR 1 12345)
  api (.reply info)
  return server

/-- A branch: nothing is done when the request was not decoded. -/
def branch {α : Type} (paramOrErr : Expected α Bool)
    (serve : α → RootServer EntryPoint → Server (RootServer EntryPoint))
    (server : RootServer EntryPoint) : Server (RootServer EntryPoint) :=
  if paramOrErr.isValid then serve paramOrErr.value server else return server

/-- `processSyscall`. -/
def processSyscall (msg : Message) (server : RootServer EntryPoint) :
    Server (RootServer EntryPoint) := do
  assert (0 < msg.info.length)
  let syscallID := getMR 0 msg.mrs
  match ID.ofWord syscallID with
  | some .debug => branch (DebugRequest.decode msg.info msg.mrs) debug server
  | some .kMalloc => branch (KMallocRequest.decode msg.info msg.mrs) (kmalloc msg.info) server
  | some .kFree => branch (KFreeRequest.decode msg.info msg.mrs) (kfree msg.info) server
  | some .thread => branch (ThreadRequest.decode msg.info msg.mrs) (thread msg.info) server
  | some .mMap => branch (MMapRequest.decode msg.info msg.mrs) (mmap msg.info) server
  | _ => return server

/-- What a round of the loop of `run` does with what it has received. Of a fault it is only
printed what fault it is. -/
def receive (received : Received) (server : RootServer EntryPoint) :
    Server (RootServer EntryPoint) :=
  match server.threads.get received.sender with
  | none => .fail -- the caller is asserted not to be null
  | some _ =>
      if received.msg.info.label = nullFault then processSyscall received.msg server
      else return server

/-- A round of the loop of `run`. -/
def round (server : RootServer EntryPoint) : Server (RootServer EntryPoint) := do
  let received ← api (.recv server.apiEndpoint)
  receive received server

/-- What the branch for a type of requests does with one. -/
def serve : (t : RequestType) → MessageInfo → t.Request → RootServer EntryPoint →
    Server (RootServer EntryPoint)
  | .debug, _ => debug
  | .kMalloc, info => kmalloc info
  | .kFree, info => kfree info
  | .mMap, info => mmap info
  | .thread, info => thread info

variable {msg : Message} {server : RootServer EntryPoint} {t : RequestType}

/-- The id of a type selects its branch. -/
theorem processSyscall_eq (hlen : 0 < msg.info.length)
    (hid : ID.ofWord (getMR 0 msg.mrs) = some t.id) :
  processSyscall msg server
    = branch (t.decode msg.info msg.mrs) (serve t msg.info) server
  := by
  rw [processSyscall, assert_true_bind hlen]
  simp only [hid]
  cases t <;> rfl

/-- Other ids select none. -/
theorem processSyscall_unknown (hlen : 0 < msg.info.length)
    (hid : ∀ t : RequestType, ID.ofWord (getMR 0 msg.mrs) ≠ some t.id) :
  processSyscall msg server = .ret server
  := by
  rw [processSyscall, assert_true_bind hlen]
  dsimp only
  split
  · exact absurd ‹_› (hid .debug)
  · exact absurd ‹_› (hid .kMalloc)
  · exact absurd ‹_› (hid .kFree)
  · exact absurd ‹_› (hid .thread)
  · exact absurd ‹_› (hid .mMap)
  · rfl

end RootServer
