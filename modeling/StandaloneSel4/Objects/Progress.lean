import StandaloneSel4.Lib.Steps
import StandaloneSel4.Objects.Factory

/-!
# The progress of a thread

The state of a `Thread` is written by the thread itself, in `_threadMain`, and by those who
start, suspend and resume it, each after the kernel has answered. Here a thread makes its way
through `_threadMain` while requests to start, to suspend and to resume it are carried out, one
after the other, the calls of the thread and of the requests coming in any order. A thread that
is suspended makes no call; its own `suspend` goes on when it is resumed.
-/

open SeL4 Prog Steps

/-- What a thread and those who control it call. -/
inductive ThreadCall where
  | tcbReadRegisters (tcb : ℕ)
  /-- `seL4_TCB_WriteRegisters` with the registers of a thread that begins with `_threadMain` on
  the given stack, and with the flag that resumes it. -/
  | tcbWriteRegisters (tcb stack : ℕ)
  | tcbSuspend (tcb : ℕ)
  | tcbResume (tcb : ℕ)
  | setUserData
  /-- The call of the entry point. -/
  | entryPoint
  /-- The assignment to `_state`. -/
  | setState (state : Thread.State)
  deriving DecidableEq

/-- The calls, with what they return. -/
abbrev ThreadSig : Signature where
  Call := ThreadCall
  Answer
    | .setUserData | .entryPoint | .setState _ => Unit
    | _ => Error

/-- A program of a thread or of one who controls it. -/
abbrev Threaded (α : Type) : Type :=
  Prog ThreadSig α

/-- The program that makes a call. -/
def tell (c : ThreadCall) : Threaded (ThreadSig.Answer c) :=
  perform (S := ThreadSig) c

namespace Thread

variable {EntryPoint : Type}

/-- `getState`. -/
def getState (thread : Thread EntryPoint) : State :=
  thread.state

/-- The end of `start`, `suspend` and `resume`: the state is recorded unless the kernel has
refused. -/
def record (state : State) (err : Error) : Threaded Error := do
  if err = .noError then
    tell (.setState state)
    return err
  else return err

/-- `start`. -/
def start (thread : Thread EntryPoint) : Threaded Error := do
  let _ ← tell (.tcbReadRegisters thread.tcb)
  let err ← tell (.tcbWriteRegisters thread.tcb (Word.add thread.tcbStackAddr pageSize))
  record .started err

/-- `suspend`. -/
def suspend (thread : Thread EntryPoint) : Threaded Error := do
  let err ← tell (.tcbSuspend thread.tcb)
  record .paused err

/-- `resume`. -/
def resume (thread : Thread EntryPoint) : Threaded Error := do
  let err ← tell (.tcbResume thread.tcb)
  record .running err

/-- `_threadMain`. -/
def threadMain (thread : Thread EntryPoint) : Threaded Unit := do
  tell (.setState .running)
  tell .setUserData
  tell .entryPoint
  tell (.setState .done)
  let _ ← thread.suspend
  return ()

end Thread

/-- A thread on its way. -/
structure Progress (EntryPoint : Type) where
  thread : Thread EntryPoint
  /-- Whether the kernel has suspended it. -/
  suspended : Bool
  /-- What is left of its `_threadMain`. -/
  own : Threaded Unit
  /-- What is left of the request that is carried out for it, its result when it has been. -/
  request : Threaded Error

/-- The requests of others. -/
inductive Request where
  | start
  | suspend
  | resume

variable {EntryPoint : Type}

/-- The program of a request. -/
def Request.prog (thread : Thread EntryPoint) : Request → Threaded Error
  | .start => thread.start
  | .suspend => thread.suspend
  | .resume => thread.resume

namespace Progress

/-- What a call does once it has got its answer. -/
def perform (s : Progress EntryPoint) : Event ThreadSig → Progress EntryPoint
  | ⟨.setState state, _⟩ => { s with thread := { s.thread with state := state } }
  | ⟨.tcbSuspend _, err⟩ => if err = .noError then { s with suspended := true } else s
  | ⟨.tcbResume _, err⟩ => if err = .noError then { s with suspended := false } else s
  | ⟨.tcbWriteRegisters _ _, err⟩ =>
      if err = .noError then { s with suspended := false, own := s.thread.threadMain } else s
  | ⟨.tcbReadRegisters _, _⟩ | ⟨.setUserData, _⟩ | ⟨.entryPoint, _⟩ => s

/-- Only an assignment to the state changes it. -/
theorem perform_thread {c : ThreadCall} {x : ThreadSig.Answer c} (s : Progress EntryPoint)
    (hc : ∀ state, c ≠ .setState state) :
  (s.perform ⟨c, x⟩).thread = s.thread
  := by
  cases c with
  | setState state => exact absurd rfl (hc state)
  | tcbSuspend tcb =>
      simp only [perform]
      split <;> rfl
  | tcbResume tcb =>
      simp only [perform]
      split <;> rfl
  | tcbWriteRegisters tcb stack =>
      simp only [perform]
      split <;> rfl
  | tcbReadRegisters tcb => rfl
  | setUserData => rfl
  | entryPoint => rfl

/-- What happens in a step. -/
inductive Move where
  /-- A request is made. -/
  | ask (r : Request)
  /-- The thread makes its next call, and gets an answer. -/
  | own (e : Event ThreadSig)
  /-- The next call of the request is made and answered. -/
  | request (e : Event ThreadSig)

/-- The steps. The calls of a thread that the kernel has suspended wait, and a request is made
when the one before has been carried out. -/
inductive Next : Progress EntryPoint → Move → Progress EntryPoint → Prop where
  | ask {s : Progress EntryPoint} {err : Error} (r : Request) :
      s.request = .ret err → Next s (.ask r) { s with request := r.prog s.thread }
  | own {s : Progress EntryPoint} {c : ThreadCall} {k : ThreadSig.Answer c → Threaded Unit}
      (x : ThreadSig.Answer c) :
      s.suspended = false → s.own = .call c k →
      Next s (.own ⟨c, x⟩) (({ s with own := k x }).perform ⟨c, x⟩)
  | request {s : Progress EntryPoint} {c : ThreadCall} {k : ThreadSig.Answer c → Threaded Error}
      (x : ThreadSig.Answer c) :
      s.request = .call c k →
      Next s (.request ⟨c, x⟩) (({ s with request := k x }).perform ⟨c, x⟩)

/-- A thread that has been constructed. Its TCB does not run. -/
def constructed (tcb : ℕ) (entryPoint : EntryPoint) : Progress EntryPoint where
  thread := Thread.new tcb entryPoint
  suspended := true
  own := return ()
  request := return .noError

/-- The kernel has done what a call of a request asked for. -/
def Accepted : Event ThreadSig → Prop
  | ⟨.tcbSuspend _, err⟩ | ⟨.tcbResume _, err⟩ | ⟨.tcbWriteRegisters _ _, err⟩ => err = .noError
  | _ => False

/-- The kernel has done what a request asked for, and it is about to be recorded. -/
def Recording (s : Progress EntryPoint) : Prop :=
  ∃ state k, s.request = .call (.setState state) k

/-- No request is accepted when the thread is done, and the thread does not become done while one
that has been accepted is still to be recorded. -/
def Timely (s : Progress EntryPoint) : Move → Prop
  | .ask _ => True
  | .own e => e.call = .setState .done → ¬ s.Recording
  | .request e => s.thread.state = .done → ¬ Accepted e

/-! ### The invariant -/

/-- What may be left of `_threadMain` before the entry point has returned and that has been
recorded. Before the thread is started it is nothing. -/
inductive OnWay (tcb : ℕ) : Threaded Unit → Prop where
  | constructed : OnWay tcb (.ret ())
  | entering : OnWay tcb (do
      tell (.setState .running)
      tell .setUserData
      tell .entryPoint
      tell (.setState .done)
      let err ← tell (.tcbSuspend tcb)
      let _ ← Thread.record .paused err
      return ())
  | entered : OnWay tcb (do
      tell .setUserData
      tell .entryPoint
      tell (.setState .done)
      let err ← tell (.tcbSuspend tcb)
      let _ ← Thread.record .paused err
      return ())
  | running : OnWay tcb (do
      tell .entryPoint
      tell (.setState .done)
      let err ← tell (.tcbSuspend tcb)
      let _ ← Thread.record .paused err
      return ())
  | returned : OnWay tcb (do
      tell (.setState .done)
      let err ← tell (.tcbSuspend tcb)
      let _ ← Thread.record .paused err
      return ())

/-- What may be left of it after that, and whether the thread is suspended. -/
inductive AtEnd (tcb : ℕ) : Bool → Threaded Unit → Prop where
  | leaving {suspended : Bool} : AtEnd tcb suspended (do
      let err ← tell (.tcbSuspend tcb)
      let _ ← Thread.record .paused err
      return ())
  | parked : AtEnd tcb true (do
      let _ ← Thread.record .paused .noError
      return ())
  | out {suspended : Bool} : AtEnd tcb suspended (.ret ())

/-- What may be left of a request. -/
inductive Asked (tcb : ℕ) : Threaded Error → Prop where
  | carriedOut {err : Error} : Asked tcb (.ret err)
  | starting {stack : ℕ} : Asked tcb (do
      let _ ← tell (.tcbReadRegisters tcb)
      let err ← tell (.tcbWriteRegisters tcb stack)
      Thread.record .started err)
  | writing {stack : ℕ} : Asked tcb (do
      let err ← tell (.tcbWriteRegisters tcb stack)
      Thread.record .started err)
  | suspending : Asked tcb (do
      let err ← tell (.tcbSuspend tcb)
      Thread.record .paused err)
  | resuming : Asked tcb (do
      let err ← tell (.tcbResume tcb)
      Thread.record .running err)
  | recording {state : Thread.State} {err : Error} : state ≠ .done → Asked tcb (do
      tell (.setState state)
      return err)

/-- The end of a request is to record, or to return that it was refused. -/
theorem Asked.record {tcb : ℕ} {state : Thread.State} (hstate : state ≠ .done) (err : Error) :
  Asked tcb (Thread.record state err)
  := by
  unfold Thread.record
  split
  · apply Asked.recording hstate
  · apply Asked.carriedOut

/-- What is so wherever timely steps lead: either the entry point has not returned and the thread
is not done, or it has, the thread is done and nothing is about to be recorded. -/
structure Inv (s : Progress EntryPoint) : Prop where
  asked : Asked s.thread.tcb s.request
  stage : OnWay s.thread.tcb s.own ∧ s.thread.state ≠ .done
    ∨ AtEnd s.thread.tcb s.suspended s.own ∧ s.thread.state = .done ∧ ¬ s.Recording

theorem constructed_inv (tcb : ℕ) (entryPoint : EntryPoint) :
  (constructed tcb entryPoint).Inv
  := ⟨Asked.carriedOut, .inl ⟨OnWay.constructed, nofun⟩⟩

variable {s s' : Progress EntryPoint} {m : Move}

/-- A timely step of the thread keeps the invariant. -/
theorem Inv.own {c : ThreadCall} {k : ThreadSig.Answer c → Threaded Unit} (h : s.Inv)
    (x : ThreadSig.Answer c) (hm : s.Timely (.own ⟨c, x⟩)) (hsuspended : s.suspended = false)
    (hown : s.own = .call c k) :
  (({ s with own := k x }).perform ⟨c, x⟩).Inv
  := by
  obtain ⟨thread, suspended, own, request⟩ := s
  obtain ⟨hasked, hstage⟩ := h
  simp only at hsuspended hown hasked hstage
  subst hsuspended hown
  rcases hstage with ⟨hway, hstate⟩ | ⟨hend, hstate, hrecording⟩
  · generalize hp : (.call c k : Threaded Unit) = p at hway
    cases hway with
    | constructed => cases hp
    | entering =>
        cases hp
        exact ⟨hasked, .inl ⟨OnWay.entered, nofun⟩⟩
    | entered =>
        cases hp
        exact ⟨hasked, .inl ⟨OnWay.running, hstate⟩⟩
    | running =>
        cases hp
        exact ⟨hasked, .inl ⟨OnWay.returned, hstate⟩⟩
    | returned =>
        cases hp
        exact ⟨hasked, .inr ⟨AtEnd.leaving, rfl, hm rfl⟩⟩
  · generalize hp : (.call c k : Threaded Unit) = p at hend
    generalize hb : false = b at hend
    cases hend with
    | leaving =>
        cases hp
        by_cases hx : x = .noError
        · subst hx
          exact ⟨hasked, .inr ⟨AtEnd.parked, hstate, hrecording⟩⟩
        · simp only [perform, if_neg hx]
          refine ⟨hasked, .inr ⟨?_, hstate, hrecording⟩⟩
          change AtEnd thread.tcb _ (Thread.record .paused x >>= fun _ => .ret ())
          rw [Thread.record, if_neg hx]
          apply AtEnd.out
    | parked => cases hb
    | out => cases hp

/-- What the kernel has refused is not recorded. -/
theorem record_of_refused {state : Thread.State} {err : Error} (h : err ≠ .noError) :
  Thread.record state err = .ret err
  := by
  rw [Thread.record, if_neg h]
  rfl

/-- The invariant holds when the kernel has answered to a request, which it has refused in case
the thread is done, and what is left of `_threadMain` is of the kind it was. -/
theorem inv_record {thread : Thread EntryPoint} {suspended suspended' : Bool}
    {own own' : Threaded Unit} {state : Thread.State} {err : Error} (hstate : state ≠ .done)
    (hstage : OnWay thread.tcb own ∧ thread.state ≠ .done
      ∨ AtEnd thread.tcb suspended own ∧ thread.state = .done)
    (hrefused : thread.state = .done → err ≠ .noError)
    (hown : OnWay thread.tcb own → OnWay thread.tcb own') :
  (if err = .noError then ⟨thread, suspended', own', Thread.record state err⟩
    else ⟨thread, suspended, own, Thread.record state err⟩ : Progress EntryPoint).Inv
  := by
  have hasked : Asked thread.tcb (Thread.record state err) := Asked.record hstate err
  rcases hstage with ⟨hway, hdone⟩ | ⟨hend, hdone⟩
  · split
    · exact ⟨hasked, .inl ⟨hown hway, hdone⟩⟩
    · exact ⟨hasked, .inl ⟨hway, hdone⟩⟩
  · have herr := hrefused hdone
    rw [if_neg herr]
    refine ⟨hasked, .inr ⟨hend, hdone, ?_⟩⟩
    rintro ⟨state, k, hrecording⟩
    simp only [record_of_refused herr] at hrecording
    cases hrecording

/-- A timely step of the request that is carried out keeps the invariant. -/
theorem Inv.request {c : ThreadCall} {k : ThreadSig.Answer c → Threaded Error} (h : s.Inv)
    (x : ThreadSig.Answer c) (hm : s.Timely (.request ⟨c, x⟩)) (hrequest : s.request = .call c k) :
  (({ s with request := k x }).perform ⟨c, x⟩).Inv
  := by
  obtain ⟨thread, suspended, own, request⟩ := s
  obtain ⟨hasked, hstage⟩ := h
  simp only at hrequest hasked hstage
  subst hrequest
  have hstage' : OnWay thread.tcb own ∧ thread.state ≠ .done
      ∨ AtEnd thread.tcb suspended own ∧ thread.state = .done :=
    hstage.imp_right fun h => ⟨h.1, h.2.1⟩
  generalize hp : (.call c k : Threaded Error) = p at hasked
  cases hasked with
  | carriedOut => cases hp
  | starting =>
      cases hp
      refine ⟨Asked.writing, hstage.imp_right fun hend => ⟨hend.1, hend.2.1, ?_⟩⟩
      rintro ⟨state, k, hrecording⟩
      cases hrecording
  | writing =>
      cases hp
      apply inv_record (by decide) hstage' hm fun _ => OnWay.entering
  | suspending =>
      cases hp
      apply inv_record (by decide) hstage' hm fun hway => hway
  | resuming =>
      cases hp
      apply inv_record (by decide) hstage' hm fun hway => hway
  | recording hnot =>
      cases hp
      rcases hstage with ⟨hway, -⟩ | ⟨-, -, hrecording⟩
      · exact ⟨Asked.carriedOut, .inl ⟨hway, hnot⟩⟩
      · exact absurd ⟨_, _, rfl⟩ hrecording

/-- Every timely step keeps the invariant. -/
theorem Inv.next (h : s.Inv) (hm : s.Timely m) (hnext : Next s m s') :
  s'.Inv
  := by
  cases hnext with
  | own x hsuspended hown => apply h.own x hm hsuspended hown
  | request x hrequest => apply h.request x hm hrequest
  | ask r hidle =>
      have hasked : Asked s.thread.tcb (r.prog s.thread) := by
        cases r with
        | start => apply Asked.starting
        | suspend => apply Asked.suspending
        | resume => apply Asked.resuming
      refine ⟨hasked, h.stage.imp_right fun hend => ⟨hend.1, hend.2.1, ?_⟩⟩
      rintro ⟨state, k, hrecording⟩
      cases r with
      | start => cases hrecording
      | suspend => cases hrecording
      | resume => cases hrecording

/-- A thread that is done stays so in a timely step. -/
theorem Inv.stays_done (h : s.Inv) (hdone : s.thread.state = .done) (hm : s.Timely m)
    (hnext : Next s m s') :
  s'.thread.state = .done
  := by
  obtain ⟨hend, -, hrecording⟩ := h.stage.resolve_left (fun hway => hway.2 hdone)
  cases hnext with
  | ask r hidle => apply hdone
  | @own c k x hsuspended hown =>
      rw [hsuspended, hown] at hend
      rw [perform_thread]
      · apply hdone
      · rintro state rfl
        cases hend
  | @request c k x hrequest =>
      rw [perform_thread]
      · apply hdone
      · rintro state rfl
        apply hrecording ⟨state, k, hrequest⟩

/-- In every run of timely steps, a thread that is done is done for ever. -/
theorem done_final {tcb : ℕ} {entryPoint : EntryPoint}
    (hs : Reaches Next Timely (constructed tcb entryPoint) s)
    (hdone : s.thread.getState = .done) (hs' : Reaches Next Timely s s') :
  s'.thread.getState = .done
  := by
  have hinv := hs.invariant (I := Inv) (fun _ _ _ h hm hnext => h.next hm hnext)
    (constructed_inv tcb entryPoint)
  apply hs'.stays (Q := fun s => s.thread.state = .done)
    (fun _ _ _ h hm hnext => h.next hm hnext)
    (fun _ _ _ h hdone hm hnext => h.stays_done hdone hm hnext) hinv hdone

/-- A thread that is started and returns at once: it is done, and nothing is left to be
recorded. -/
theorem exists_done {permitted : Progress Unit → Move → Prop}
    (h : ∀ s m, Timely s m → permitted s m) :
  ∃ s, Reaches Next permitted (constructed 20 ()) s ∧ s.thread.getState = .done
    ∧ s.suspended = false ∧ s.request = .ret .noError
    ∧ s.own = Thread.suspend s.thread >>= fun _ => .ret ()
  := by
  have hnew : Reaches Next permitted (constructed 20 ()) (constructed 20 ()) := Reaches.refl _
  have hasked := hnew.step (h _ (.ask .start) trivial) (Next.ask .start rfl)
  have hread := hasked.step (h _ _ (by
    intro hdone
    cases hdone)) (Next.request Error.noError rfl)
  have hwritten := hread.step (h _ _ (by
    intro hdone
    cases hdone)) (Next.request Error.noError rfl)
  have hstarted := hwritten.step (h _ _ (by
    intro hdone
    cases hdone)) (Next.request () rfl)
  have hentered := hstarted.step (h _ _ (by
    intro hcall
    cases hcall)) (Next.own () rfl rfl)
  have hidentified := hentered.step (h _ _ (by
    intro hcall
    cases hcall)) (Next.own () rfl rfl)
  have hreturned := hidentified.step (h _ _ (by
    intro hcall
    cases hcall)) (Next.own () rfl rfl)
  have hdone := hreturned.step (h _ _ (by
    rintro - ⟨state, k, hrecording⟩
    cases hrecording)) (Next.own () rfl rfl)
  exact ⟨_, hdone, rfl, rfl, rfl, rfl⟩

/-- A thread that has returned and suspended itself is done. -/
theorem parked_done :
  ∃ s : Progress Unit, s.suspended = true ∧ s.thread.getState = .done
  := by
  obtain ⟨s, hs, hdone, hsuspended, -, hown⟩ := exists_done (fun _ _ h => h)
  have hstart : Reaches Next Timely s s := Reaches.refl s
  have hparked := hstart.step (by
    intro hcall
    cases hcall) (Next.own Error.noError hsuspended hown)
  exact ⟨_, rfl, done_final hs hdone hparked⟩

/-- A request to suspend a thread that is done makes it paused. -/
theorem not_done_final :
  ¬ ∀ s s' : Progress Unit, Reaches Next (fun _ _ => True) (constructed 20 ()) s →
      s.thread.getState = .done → Reaches Next (fun _ _ => True) s s' →
      s'.thread.getState = .done
  := by
  intro hall
  obtain ⟨s, hs, hdone, -, hrequest, -⟩ := exists_done (fun _ _ _ => trivial)
  have hstart : Reaches Next (fun _ _ => True) s s := Reaches.refl s
  have hasked := hstart.step trivial (Next.ask .suspend hrequest)
  have haccepted := hasked.step trivial (Next.request Error.noError rfl)
  have hpaused := haccepted.step trivial (Next.request () rfl)
  have hstill := hall s _ hs hdone hpaused
  cases hstill

end Progress
