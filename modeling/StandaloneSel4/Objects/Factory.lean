import StandaloneSel4.Kernel
import StandaloneSel4.Lib.Bump
import StandaloneSel4.Word

/-!
# The object factory

`ObjectFactory::createThread` makes a thread in eleven steps, and has an exit of its own
for the failure of each. What it calls, the pool, the page table, the heap and the kernel,
is not looked into here: a program over `FactorySig` is under any answers of these.

What an execution of `createThread` does is said once, by `Attempt`: some of the steps
succeed, and then either that was all, or the next step fails and what has been acquired is
given back, all but the `Thread` object. Without memory for that object nothing is returned.
-/

open SeL4 Prog

/-- `Thread::State`. -/
inductive Thread.State where
  | uninitialized
  | started
  | running
  | paused
  | done
  deriving DecidableEq

/-- `Thread`. Nothing but its own thread looks into the entry point. -/
structure Thread (EntryPoint : Type) where
  tcb : ℕ
  entryPoint : EntryPoint
  tcbStackAddr : ℕ
  endpoint : ℕ
  badge : ℕ
  priority : ℕ
  state : Thread.State
  deriving DecidableEq

/-- A `std::shared_ptr<Thread>` other than the null pointer, and the object at it. -/
structure SharedThread (EntryPoint : Type) where
  ptr : ℕ
  thread : Thread EntryPoint
  deriving DecidableEq

/-- What the object factory calls. -/
inductive FactoryCall where
  | allocObject (type : ObjectType)
  | releaseObject (obj : ℕ)
  | getFreeSlot
  | releaseSlot (pos : ℕ)
  | mapPage (vaddr : ℕ) (rights : CapRights)
  | unmapPage (pageCap : ℕ)
  /-- `operator new` for a `Thread`. -/
  | newThread
  /-- `operator delete` for a `Thread`. -/
  | deleteThread (ptr : ℕ)
  | tcbSetSpace (tcb : ℕ)
  | tcbSetTLSBase (tcb tlsBase : ℕ)
  | tcbSetIPCBuffer (tcb buffer bufferFrame : ℕ)
  | tcbSetPriority (tcb prio : ℕ)
  | cnodeMint (slot endpoint : ℕ) (rights : CapRights) (badge : ℕ)
  deriving DecidableEq

/-- The calls of the object factory, with what they return. -/
abbrev FactorySig : Signature where
  Call := FactoryCall
  Answer
    | .allocObject _ | .getFreeSlot | .mapPage _ _ => Expected ℕ Error
    | .newThread => ℕ
    | .releaseObject _ | .releaseSlot _ | .deleteThread _ => Unit
    | _ => Error

instance (c : FactoryCall) : Nonempty (FactorySig.Answer c) := by
  cases c with
  | allocObject => exact ⟨success 0⟩
  | getFreeSlot => exact ⟨success 0⟩
  | mapPage => exact ⟨success 0⟩
  | newThread => exact ⟨(0 : ℕ)⟩
  | releaseObject => exact ⟨()⟩
  | releaseSlot => exact ⟨()⟩
  | deleteThread => exact ⟨()⟩
  | _ => exact ⟨Error.noError⟩

/-- A program of the object factory. -/
abbrev Factory (α : Type) : Type :=
  Prog FactorySig α

/-- A call that was made, with its answer. -/
abbrev FactoryEvent : Type :=
  Event FactorySig

/-- The program that makes a call. -/
def ask (c : FactoryCall) : Factory (FactorySig.Answer c) :=
  perform (S := FactorySig) c

@[simp]
theorem ask_bind {α : Type} (c : FactoryCall) (f : FactorySig.Answer c → Factory α) :
  ask c >>= f = .call c f
  := rfl

/-- `PAGE_SIZE`. -/
def pageSize : ℕ := 4096

/-- `seL4_MaxPrio`. -/
def maxPrio : ℕ := 255

variable {EntryPoint : Type}

/-- The constructor of `Thread`. -/
def Thread.new (tcb : ℕ) (entryPoint : EntryPoint) : Thread EntryPoint where
  tcb := tcb
  entryPoint := entryPoint
  tcbStackAddr := 0
  endpoint := 0
  badge := 0
  priority := 0
  state := .uninitialized

/-- `Thread::setPriority`. -/
def Thread.setPriority (prio : ℕ) (thread : Thread EntryPoint) :
    Factory (Error × Thread EntryPoint) := do
  let err ← ask (.tcbSetPriority thread.tcb prio)
  if err = .noError then
    return (err, { thread with priority := prio })
  return (err, thread)

/-- What comes after `setPriority` goes on from the kernel's answer. -/
theorem Thread.setPriority_bind {α : Type} (prio : ℕ) (thread : Thread EntryPoint)
    (f : Error × Thread EntryPoint → Factory α) :
  thread.setPriority prio >>= f = ask (.tcbSetPriority thread.tcb prio) >>= fun err =>
    if err = .noError then f (err, { thread with priority := prio }) else f (err, thread)
  := by
  unfold Thread.setPriority
  rw [ask_bind, ask_bind, call_bind]
  congr 1
  funext err
  split <;> rfl

/-- `Thread::getPriority`. -/
def Thread.getPriority (thread : Thread EntryPoint) : ℕ :=
  thread.priority

namespace ObjectFactory

/-- `createThread`. The last argument, and what is returned beside the thread, is the field
`currentVirtualAddress`. `operator new` (kmalloc.cpp) is not `noexcept`, so that the null pointer
which it may return nevertheless is not tested: the constructor writes to it. -/
def createThread (tcbBadge : ℕ) (entryPoint : EntryPoint) (apiEndpoint : ℕ)
    (currentVirtualAddress : ℕ) :
    Factory (Expected (Option (SharedThread EntryPoint)) Error × ℕ) := do
  let tcbOrErr ← ask (.allocObject .tcbObject)
  if !tcbOrErr.isValid then
    return (unexpected tcbOrErr.error, currentVirtualAddress)
  let ptr ← ask .newThread
  if ptr = 0 then
    Prog.fail -- the constructor comes in front of the exit
  let thread := Thread.new tcbOrErr.value entryPoint
  let thread := { thread with badge := tcbBadge }
  let err ← ask (.tcbSetSpace thread.tcb)
  if err ≠ .noError then
    ask (.releaseObject tcbOrErr.value)
    return (unexpected err, currentVirtualAddress)
  let thread := { thread with tcbStackAddr := currentVirtualAddress }
  let tcbStackOrErr ← ask (.mapPage currentVirtualAddress .readWrite)
  if !tcbStackOrErr.isValid then
    ask (.releaseObject tcbOrErr.value)
    return (unexpected tcbStackOrErr.error, currentVirtualAddress)
  let currentVirtualAddress := Word.add currentVirtualAddress pageSize
  let tlsAddr := currentVirtualAddress
  let tcbTlsOrErr ← ask (.mapPage currentVirtualAddress .readWrite)
  if !tcbTlsOrErr.isValid then
    ask (.releaseObject tcbOrErr.value)
    let _ ← ask (.unmapPage tcbStackOrErr.value)
    return (unexpected tcbTlsOrErr.error, currentVirtualAddress)
  let currentVirtualAddress := Word.add currentVirtualAddress pageSize
  let tcbIPC := currentVirtualAddress
  let tcbIPCOrErr ← ask (.mapPage currentVirtualAddress .readWrite)
  if !tcbIPCOrErr.isValid then
    ask (.releaseObject tcbOrErr.value)
    let _ ← ask (.unmapPage tcbStackOrErr.value)
    let _ ← ask (.unmapPage tcbTlsOrErr.value)
    return (unexpected tcbIPCOrErr.error, currentVirtualAddress)
  let currentVirtualAddress := Word.add currentVirtualAddress pageSize
  let err ← ask (.tcbSetTLSBase thread.tcb tlsAddr)
  if err ≠ .noError then
    ask (.releaseObject tcbOrErr.value)
    let _ ← ask (.unmapPage tcbStackOrErr.value)
    let _ ← ask (.unmapPage tcbTlsOrErr.value)
    let _ ← ask (.unmapPage tcbIPCOrErr.value)
    return (unexpected err, currentVirtualAddress)
  let err ← ask (.tcbSetIPCBuffer thread.tcb tcbIPC tcbIPCOrErr.value)
  if err ≠ .noError then
    ask (.releaseObject tcbOrErr.value)
    let _ ← ask (.unmapPage tcbStackOrErr.value)
    let _ ← ask (.unmapPage tcbTlsOrErr.value)
    let _ ← ask (.unmapPage tcbIPCOrErr.value)
    return (unexpected err, currentVirtualAddress)
  let prio := maxPrio
  let (err, thread) ← thread.setPriority prio
  if err ≠ .noError then
    ask (.releaseObject tcbOrErr.value)
    let _ ← ask (.unmapPage tcbStackOrErr.value)
    let _ ← ask (.unmapPage tcbTlsOrErr.value)
    let _ ← ask (.unmapPage tcbIPCOrErr.value)
    return (unexpected err, currentVirtualAddress)
  assert (thread.getPriority = prio)
  let tcbEndpointSlotOrErr ← ask .getFreeSlot
  assert tcbEndpointSlotOrErr.isValid
  if !tcbEndpointSlotOrErr.isValid then
    ask (.releaseObject tcbOrErr.value)
    let _ ← ask (.unmapPage tcbStackOrErr.value)
    let _ ← ask (.unmapPage tcbTlsOrErr.value)
    let _ ← ask (.unmapPage tcbIPCOrErr.value)
    return (unexpected tcbEndpointSlotOrErr.error, currentVirtualAddress)
  let tcbEndpointSlot := tcbEndpointSlotOrErr.value
  let err ← ask (.cnodeMint tcbEndpointSlot apiEndpoint .allRights thread.badge)
  if err ≠ .noError then
    ask (.releaseObject tcbOrErr.value)
    let _ ← ask (.unmapPage tcbStackOrErr.value)
    let _ ← ask (.unmapPage tcbTlsOrErr.value)
    let _ ← ask (.unmapPage tcbIPCOrErr.value)
    ask (.releaseSlot tcbEndpointSlotOrErr.value)
    return (unexpected err, currentVirtualAddress)
  let thread := { thread with endpoint := tcbEndpointSlot }
  return (success (some ⟨ptr, thread⟩), currentVirtualAddress)

/-! ### What an execution does -/

/-- What is acquired by a call and has to be given back. -/
inductive Resource where
  | object (obj : ℕ)
  | thread (ptr : ℕ)
  | page (pageCap : ℕ)
  | slot (pos : ℕ)
  deriving DecidableEq

/-- The error of an answer that is a failure. -/
def Expected.failure (r : Expected ℕ Error) : Option Error :=
  if r.isValid then none else some r.error

theorem Expected.not_isValid {r : Expected ℕ Error} {err : Error}
    (h : Expected.failure r = some err) :
  r.isValid = false
  := by
  unfold Expected.failure at h
  split at h
  · cases h
  · exact Bool.eq_false_iff.mpr ‹_›

/-- The error of a call that has failed. -/
def failure : FactoryEvent → Option Error
  | ⟨.allocObject _, r⟩ => Expected.failure r
  | ⟨.getFreeSlot, r⟩ => Expected.failure r
  | ⟨.mapPage _ _, r⟩ => Expected.failure r
  | ⟨.newThread, ptr⟩ => if ptr = 0 then some .notEnoughMemory else none
  | ⟨.releaseObject _, _⟩ => none
  | ⟨.releaseSlot _, _⟩ => none
  | ⟨.deleteThread _, _⟩ => none
  | ⟨.unmapPage _, e⟩ => if e = .noError then none else some e
  | ⟨.tcbSetSpace _, e⟩ => if e = .noError then none else some e
  | ⟨.tcbSetTLSBase _ _, e⟩ => if e = .noError then none else some e
  | ⟨.tcbSetIPCBuffer _ _ _, e⟩ => if e = .noError then none else some e
  | ⟨.tcbSetPriority _ _, e⟩ => if e = .noError then none else some e
  | ⟨.cnodeMint _ _ _ _, e⟩ => if e = .noError then none else some e

/-- What a call has acquired. -/
def acquired : FactoryEvent → Option Resource
  | ⟨.allocObject _, r⟩ => if r.isValid then some (.object r.value) else none
  | ⟨.getFreeSlot, r⟩ => if r.isValid then some (.slot r.value) else none
  | ⟨.mapPage _ _, r⟩ => if r.isValid then some (.page r.value) else none
  | ⟨.newThread, ptr⟩ => if ptr = 0 then none else some (.thread ptr)
  | _ => none

/-- The call that `createThread` gives a resource back by. There is none for the `Thread`
object. -/
def Resource.giveBack : Resource → Option FactoryCall
  | .object obj => some (.releaseObject obj)
  | .thread _ => none
  | .page pageCap => some (.unmapPage pageCap)
  | .slot pos => some (.releaseSlot pos)

/-- The addresses that pages are mapped at. -/
def mappings : Bump FactoryEvent ℕ where
  asked
    | ⟨.mapPage vaddr _, _⟩ => some vaddr
    | _ => none
  granted
    | ⟨.mapPage vaddr _, r⟩ => if r.isValid then some vaddr else none
    | _ => none
  next vaddr := Word.add vaddr pageSize
  asked_of_granted := by
    rintro ⟨call, r⟩ vaddr h
    cases call with
    | mapPage vaddr' rights =>
        dsimp only at h ⊢
        split at h
        · exact h
        · cases h
    | _ => cases h

/-- An answer that is a success. -/
abbrev Granted : Type :=
  { r : Expected ℕ Error // r.isValid = true }

/-- The answers to a `createThread` all of whose steps succeed. -/
structure Answers where
  tcb : Granted
  ptr : { p : ℕ // p ≠ 0 }
  stack : Granted
  tls : Granted
  ipc : Granted
  slot : Granted

/-- The steps of `createThread` when all of them succeed. -/
def Answers.steps (a : Answers) (tcbBadge apiEndpoint addr : ℕ) : List FactoryEvent :=
  let tls := Word.add addr pageSize
  let ipc := Word.add tls pageSize
  [⟨.allocObject .tcbObject, a.tcb.val⟩,
    ⟨.newThread, a.ptr.val⟩,
    ⟨.tcbSetSpace a.tcb.val.value, .noError⟩,
    ⟨.mapPage addr .readWrite, a.stack.val⟩,
    ⟨.mapPage tls .readWrite, a.tls.val⟩,
    ⟨.mapPage ipc .readWrite, a.ipc.val⟩,
    ⟨.tcbSetTLSBase a.tcb.val.value tls, .noError⟩,
    ⟨.tcbSetIPCBuffer a.tcb.val.value ipc a.ipc.val.value, .noError⟩,
    ⟨.tcbSetPriority a.tcb.val.value maxPrio, .noError⟩,
    ⟨.getFreeSlot, a.slot.val⟩,
    ⟨.cnodeMint a.slot.val.value apiEndpoint .allRights tcbBadge, .noError⟩]

/-- The thread that is made when all steps succeed. -/
def Answers.thread (a : Answers) (tcbBadge : ℕ) (entryPoint : EntryPoint) (addr : ℕ) :
    SharedThread EntryPoint where
  ptr := a.ptr.val
  thread :=
    { tcb := a.tcb.val.value
      entryPoint := entryPoint
      tcbStackAddr := addr
      endpoint := a.slot.val.value
      badge := tcbBadge
      priority := maxPrio
      state := .uninitialized }

/-- The calls by which `createThread` gives back what the steps `before` have acquired. -/
def undoing (before : List FactoryEvent) : List FactoryCall :=
  (before.filterMap acquired).filterMap Resource.giveBack

/-- What there is none of in a release of an object, of a slot or of a page, there is none of
in giving back. -/
theorem eq_none_of_undoing {α : Type} {f : FactoryEvent → Option α}
    (hobject : ∀ obj x, f ⟨.releaseObject obj, x⟩ = none)
    (hslot : ∀ pos x, f ⟨.releaseSlot pos, x⟩ = none)
    (hpage : ∀ pageCap x, f ⟨.unmapPage pageCap, x⟩ = none) {before undo : List FactoryEvent}
    (h : undo.map Event.call = undoing before) :
  ∀ u ∈ undo, f u = none
  := by
  rintro ⟨call, y⟩ hu
  have hcall : call ∈ undoing before := by
    rw [← h]
    apply List.mem_map_of_mem hu
  obtain ⟨x, -, hx⟩ := List.mem_filterMap.mp hcall
  cases x with
  | thread ptr => cases hx
  | object obj =>
      cases hx
      apply hobject
  | page pageCap =>
      cases hx
      apply hpage
  | slot pos =>
      cases hx
      apply hslot

/-- The steps whose failure stops the server: there is no memory for the `Thread` object, or no
slot, which an assertion excludes. -/
def Stops (c : FactoryCall) : Prop :=
  c = .newThread ∨ c = .getFreeSlot

/-- What an execution of `createThread` that has ended has done. -/
inductive Attempt (tcbBadge : ℕ) (entryPoint : EntryPoint) (apiEndpoint addr : ℕ) :
    List FactoryEvent → Outcome (Expected (Option (SharedThread EntryPoint)) Error × ℕ) →
      Prop where
  /-- All steps have succeeded. -/
  | made (a : Answers) :
      Attempt tcbBadge entryPoint apiEndpoint addr (a.steps tcbBadge apiEndpoint addr)
        (.ret (success (some (a.thread tcbBadge entryPoint addr)),
          mappings.counter addr (a.steps tcbBadge apiEndpoint addr)))
  /-- The steps `before` have succeeded, the step `s` has not. -/
  | gaveUp (a : Answers) {before rest undo : List FactoryEvent} {s e : FactoryEvent}
      {err : Error} :
      a.steps tcbBadge apiEndpoint addr = before ++ s :: rest → e.call = s.call →
      failure e = some err → ¬ Stops e.call → undo.map Event.call = undoing before →
      Attempt tcbBadge entryPoint apiEndpoint addr (before ++ e :: undo)
        (.ret (unexpected err, mappings.counter addr before))
  /-- The step that has not succeeded stops the server. -/
  | stopped (a : Answers) {before rest : List FactoryEvent} {s e : FactoryEvent} :
      a.steps tcbBadge apiEndpoint addr = before ++ s :: rest → e.call = s.call →
      (failure e).isSome → Stops e.call →
      Attempt tcbBadge entryPoint apiEndpoint addr (before ++ [e]) .fail

/-! ### The walk through the steps -/

/-- The program that makes some calls and returns. -/
def callAll {α : Type} : List FactoryCall → α → Factory α
  | [], x => .ret x
  | c :: cs, x => .call c fun _ => callAll cs x

/-- An execution that is at its end has made all the calls. -/
theorem callAll_wp {α : Type} (cs : List FactoryCall) (x : α) :
  (callAll cs x).wp fun tr o => o = .running ∨ tr.map Event.call = cs ∧ o = .ret x
  := by
  induction cs with
  | nil => exact ⟨.inr ⟨rfl, rfl⟩, .inl rfl⟩
  | cons c cs ih =>
      use .inl rfl
      intro y
      apply wp_mono ih
      rintro tr o (rfl | ⟨rfl, rfl⟩)
      · exact .inl rfl
      · exact .inr ⟨rfl, rfl⟩

section

variable (tcbBadge : ℕ) (entryPoint : EntryPoint) (apiEndpoint addr : ℕ)

/-- What is left of `createThread` after the calls in `past`. -/
def Continues (past : List FactoryEvent)
    (p : Factory (Expected (Option (SharedThread EntryPoint)) Error × ℕ)) : Prop :=
  p.wp fun tr o => o = .running ∨ Attempt tcbBadge entryPoint apiEndpoint addr (past ++ tr) o

variable {tcbBadge entryPoint apiEndpoint addr} {past : List FactoryEvent}
  {p q : Factory (Expected (Option (SharedThread EntryPoint)) Error × ℕ)}

theorem Continues.ask {c : FactoryCall}
    {f : FactorySig.Answer c → Factory (Expected (Option (SharedThread EntryPoint)) Error × ℕ)}
    (h : ∀ x, Continues tcbBadge entryPoint apiEndpoint addr (past ++ [⟨c, x⟩]) (f x)) :
  Continues tcbBadge entryPoint apiEndpoint addr past (ask c >>= f)
  := by
  unfold Continues at h ⊢
  rw [ask_bind, wp_call]
  use .inl rfl
  intro x
  simpa using h x

/-- A test of an `Expected`. -/
theorem Continues.granted {b : Bool}
    (hp : b = false → Continues tcbBadge entryPoint apiEndpoint addr past p)
    (hq : b = true → Continues tcbBadge entryPoint apiEndpoint addr past q) :
  Continues tcbBadge entryPoint apiEndpoint addr past (if !b then p else q)
  := by
  cases b with
  | false => exact hp rfl
  | true => exact hq rfl

/-- A test of an error. -/
theorem Continues.noError {err : Error}
    (hp : err ≠ .noError → Continues tcbBadge entryPoint apiEndpoint addr past p)
    (hq : err = .noError → Continues tcbBadge entryPoint apiEndpoint addr past q) :
  Continues tcbBadge entryPoint apiEndpoint addr past (if err ≠ .noError then p else q)
  := by
  split
  · apply hp ‹_›
  · apply hq (not_not.mp ‹_›)

/-- A test of a pointer. -/
theorem Continues.notNull {ptr : ℕ}
    (hp : ptr = 0 → Continues tcbBadge entryPoint apiEndpoint addr past p)
    (hq : ptr ≠ 0 → Continues tcbBadge entryPoint apiEndpoint addr past q) :
  Continues tcbBadge entryPoint apiEndpoint addr past (if ptr = 0 then p else q)
  := by
  split
  · apply hp ‹_›
  · apply hq ‹_›

/-- An assertion. -/
theorem Continues.assert {c : Prop} [Decidable c]
    {f : Unit → Factory (Expected (Option (SharedThread EntryPoint)) Error × ℕ)}
    (hp : ¬ c → Continues tcbBadge entryPoint apiEndpoint addr past .fail)
    (hq : c → Continues tcbBadge entryPoint apiEndpoint addr past (f ())) :
  Continues tcbBadge entryPoint apiEndpoint addr past (assert c >>= f)
  := by
  by_cases hc : c
  · rw [assert_true_bind hc]
    apply hq hc
  · rw [assert_false_bind hc]
    apply hp hc

/-- The steps are split at the one after the first `k`. -/
theorem steps_split (a : Answers) (k : ℕ) {e : FactoryEvent}
    (hcall : (a.steps tcbBadge apiEndpoint addr)[k]?.map Event.call = some e.call)
    (hpast : past = (a.steps tcbBadge apiEndpoint addr).take k) :
  ∃ s rest, a.steps tcbBadge apiEndpoint addr = past ++ s :: rest ∧ e.call = s.call
  := by
  obtain ⟨s, hs, hcall⟩ := Option.map_eq_some_iff.mp hcall
  obtain ⟨hk, rfl⟩ := List.getElem?_eq_some_iff.mp hs
  use (a.steps tcbBadge apiEndpoint addr)[k], (a.steps tcbBadge apiEndpoint addr).drop (k + 1)
  constructor
  · rw [hpast, List.getElem_cons_drop, List.take_append_drop]
  · exact hcall.symm

/-- The exit at the step after the first `k`. -/
theorem Continues.gaveUp (a : Answers) (k : ℕ) (cs : List FactoryCall) {e : FactoryEvent}
    {err : Error} {addr' : ℕ}
    (hcall : (a.steps tcbBadge apiEndpoint addr)[k]?.map Event.call = some e.call)
    (hpast : past = (a.steps tcbBadge apiEndpoint addr).take k) (hfailure : failure e = some err)
    (hstops : ¬ Stops e.call) (hcs : undoing past = cs)
    (haddr : mappings.counter addr past = addr') :
  Continues tcbBadge entryPoint apiEndpoint addr (past ++ [e]) (callAll cs (unexpected err, addr'))
  := by
  apply wp_mono (callAll_wp cs _)
  rintro tr o (rfl | ⟨htr, rfl⟩)
  · exact .inl rfl
  · right
    obtain ⟨s, rest, hsplit, hcall⟩ := steps_split a k hcall hpast
    subst haddr
    rw [List.append_assoc]
    exact Attempt.gaveUp a hsplit hcall hfailure hstops (htr.trans hcs.symm)

/-- The end at a step that stops the server. -/
theorem Continues.stopped (a : Answers) (k : ℕ) {e : FactoryEvent}
    (hcall : (a.steps tcbBadge apiEndpoint addr)[k]?.map Event.call = some e.call)
    (hpast : past = (a.steps tcbBadge apiEndpoint addr).take k) (hfailure : (failure e).isSome)
    (hstops : Stops e.call) :
  Continues tcbBadge entryPoint apiEndpoint addr (past ++ [e]) .fail
  := by
  obtain ⟨s, rest, hsplit, hcall⟩ := steps_split a k hcall hpast
  apply wp_fail.mpr
  use .inr ?_, .inl rfl
  rw [List.append_nil]
  exact Attempt.stopped a hsplit hcall hfailure hstops

/-- The end after all steps. -/
theorem Continues.made (a : Answers) {addr' : ℕ}
    (hpast : past = a.steps tcbBadge apiEndpoint addr)
    (haddr : mappings.counter addr past = addr') :
  Continues tcbBadge entryPoint apiEndpoint addr past
    (.ret (success (some (a.thread tcbBadge entryPoint addr)), addr'))
  := by
  apply wp_ret.mpr
  use .inr ?_, .inl rfl
  rw [List.append_nil, ← haddr, hpast]
  exact Attempt.made a

/-- Some answer that is a success. -/
def granted : Granted :=
  ⟨success 0, rfl⟩

/-- Some address that is not null. -/
def nonNull : { p : ℕ // p ≠ 0 } :=
  ⟨1, one_ne_zero⟩

attribute [local simp] failure Expected.failure undoing Stops acquired Resource.giveBack
  Bump.advance mappings List.filterMap_cons

/-- What is left of `createThread` before its first step is all of it. -/
theorem createThread_continues :
  Continues tcbBadge entryPoint apiEndpoint addr []
    (createThread tcbBadge entryPoint apiEndpoint addr)
  := by
  unfold createThread Thread.new
  dsimp only
  -- the answers so far, each followed by any that is a success
  let a₀ : Answers := ⟨granted, nonNull, granted, granted, granted, granted⟩
  apply Continues.ask
  intro tcb
  apply Continues.granted
  · intro htcb
    apply Continues.gaveUp a₀ 0 [] (by rfl) (by rfl)
    all_goals simp [htcb]
  intro htcb
  let a₁ : Answers := { a₀ with tcb := ⟨tcb, htcb⟩ }
  apply Continues.ask
  intro ptr
  apply Continues.notNull
  · intro hptr
    apply Continues.stopped a₁ 1 (by rfl) (by rfl)
    all_goals simp [hptr]
  intro hptr
  let a₂ : Answers := { a₁ with ptr := ⟨ptr, hptr⟩ }
  -- `seL4_TCB_SetSpace`
  apply Continues.ask
  intro err
  apply Continues.noError
  · intro herr
    apply Continues.gaveUp a₂ 2 [.releaseObject tcb.value] (by rfl) (by rfl)
    all_goals simp [htcb, hptr, herr]
  rintro rfl
  apply Continues.ask
  intro stack
  apply Continues.granted
  · intro hstack
    apply Continues.gaveUp a₂ 3 [.releaseObject tcb.value] (by rfl) (by rfl)
    all_goals simp [htcb, hptr, hstack]
  intro hstack
  let a₃ : Answers := { a₂ with stack := ⟨stack, hstack⟩ }
  apply Continues.ask
  intro tls
  apply Continues.granted
  · intro htls
    apply Continues.gaveUp a₃ 4
      [.releaseObject tcb.value, .unmapPage stack.value] (by rfl) (by rfl)
    all_goals simp [htcb, hptr, hstack, htls]
  intro htls
  let a₄ : Answers := { a₃ with tls := ⟨tls, htls⟩ }
  apply Continues.ask
  intro ipc
  apply Continues.granted
  · intro hipc
    apply Continues.gaveUp a₄ 5
      [.releaseObject tcb.value, .unmapPage stack.value, .unmapPage tls.value] (by rfl) (by rfl)
    all_goals simp [htcb, hptr, hstack, htls, hipc]
  intro hipc
  let a₅ : Answers := { a₄ with ipc := ⟨ipc, hipc⟩ }
  -- `seL4_TCB_SetTLSBase`
  apply Continues.ask
  intro err
  apply Continues.noError
  · intro herr
    apply Continues.gaveUp a₅ 6
      [.releaseObject tcb.value, .unmapPage stack.value, .unmapPage tls.value,
        .unmapPage ipc.value] (by rfl) (by rfl)
    all_goals simp [htcb, hptr, hstack, htls, hipc, herr]
  rintro rfl
  -- `seL4_TCB_SetIPCBuffer`
  apply Continues.ask
  intro err
  apply Continues.noError
  · intro herr
    apply Continues.gaveUp a₅ 7
      [.releaseObject tcb.value, .unmapPage stack.value, .unmapPage tls.value,
        .unmapPage ipc.value] (by rfl) (by rfl)
    all_goals simp [htcb, hptr, hstack, htls, hipc, herr]
  rintro rfl
  rw [Thread.setPriority_bind]
  apply Continues.ask
  intro err
  rcases ne_or_eq err .noError with herr | rfl
  · rw [if_neg herr, if_pos herr]
    apply Continues.gaveUp a₅ 8
      [.releaseObject tcb.value, .unmapPage stack.value, .unmapPage tls.value,
        .unmapPage ipc.value] (by rfl) (by rfl)
    all_goals simp [htcb, hptr, hstack, htls, hipc, herr]
  rw [if_pos rfl, if_neg (not_not.mpr rfl)]
  apply Continues.assert
  · intro hprio
    exact absurd rfl hprio
  intro _
  -- the slot, whose failure the assertion before the exit excludes
  apply Continues.ask
  intro slot
  apply Continues.assert
  · intro hslot
    apply Continues.stopped a₅ 9 (by rfl) (by rfl)
    all_goals simp [hslot]
  intro hslot
  let a₆ : Answers := { a₅ with slot := ⟨slot, hslot⟩ }
  apply Continues.granted
  · intro hnot
    rw [hslot] at hnot
    cases hnot
  intro _
  -- `seL4_CNode_Mint`
  apply Continues.ask
  intro err
  apply Continues.noError
  · intro herr
    apply Continues.gaveUp a₆ 10
      [.releaseObject tcb.value, .unmapPage stack.value, .unmapPage tls.value,
        .unmapPage ipc.value, .releaseSlot slot.value] (by rfl) (by rfl)
    all_goals simp [htcb, hptr, hstack, htls, hipc, hslot, herr]
  rintro rfl
  apply Continues.made a₆
  · rfl
  · simp [hstack, htls, hipc]

/-- What an execution of `createThread` that has ended has done. -/
theorem createThread_inv {tr : List FactoryEvent}
    {o : Outcome (Expected (Option (SharedThread EntryPoint)) Error × ℕ)}
    (h : Exec (createThread tcbBadge entryPoint apiEndpoint addr) tr o) (ho : o ≠ .running) :
  Attempt tcbBadge entryPoint apiEndpoint addr tr o
  := by
  rcases wp_iff.mp createThread_continues tr o h with rfl | hattempt
  · exact absurd rfl ho
  · exact hattempt

end

/-- A refusal, or none. -/
def refuse (b : Bool) : Error :=
  if b then .invalidCapability else .noError

/-- Answers that refuse the calls in `P` and grant all others, each with a number of its
own. -/
def refusing (P : FactoryCall → Bool) : Oracle FactorySig
  | past, .allocObject type =>
      if P (.allocObject type) then unexpected .notEnoughMemory else success (20 + past.length)
  | past, .getFreeSlot =>
      if P .getFreeSlot then unexpected .notEnoughMemory else success (20 + past.length)
  | past, .mapPage vaddr rights =>
      if P (.mapPage vaddr rights) then unexpected .deleteFirst else success (20 + past.length)
  | _, .newThread => if P .newThread then 0 else 0x8000001020
  | _, .releaseObject _ => ()
  | _, .releaseSlot _ => ()
  | _, .deleteThread _ => ()
  | _, .unmapPage pageCap => refuse (P (.unmapPage pageCap))
  | _, .tcbSetSpace tcb => refuse (P (.tcbSetSpace tcb))
  | _, .tcbSetTLSBase tcb tlsBase => refuse (P (.tcbSetTLSBase tcb tlsBase))
  | _, .tcbSetIPCBuffer tcb buffer frame => refuse (P (.tcbSetIPCBuffer tcb buffer frame))
  | _, .tcbSetPriority tcb prio => refuse (P (.tcbSetPriority tcb prio))
  | _, .cnodeMint slot endpoint rights badge => refuse (P (.cnodeMint slot endpoint rights badge))

end ObjectFactory
