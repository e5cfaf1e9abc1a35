import StandaloneSel4.Objects.Factory

/-!
# The pages of the threads

The address counter of the object factory starts at the end of the heap region and moves on
by a page after each `mapPage` that succeeds; no exit of `createThread` moves it back. So
every `mapPage` asks for a page behind all pages mapped before, whatever has been unmapped
since, and the three pages of a thread are pages mapped in its `createThread`.
-/

open SeL4 Prog

namespace RootServer

/-- `VirtualAddressLayout::ReservedVaddr`, where the heap region starts. -/
def reservedVaddr : ℕ := 0x8000001000

/-- `ReservedPages`, the number of pages of the heap region. -/
def reservedPages : ℕ := 10

/-- The address counter that the constructor gives to the object factory. -/
def firstVirtualAddress : ℕ :=
  Word.add reservedVaddr (reservedPages * pageSize)

/-- The page at the address has nothing in common with the heap region. -/
def OutsideHeap (vaddr : ℕ) : Prop :=
  vaddr + pageSize ≤ reservedVaddr ∨ reservedVaddr + reservedPages * pageSize ≤ vaddr

end RootServer

open RootServer

namespace ObjectFactory

variable {EntryPoint : Type}

/-- The pages at the two addresses have nothing in common. -/
def Apart (p q : ℕ) : Prop :=
  p + pageSize ≤ q ∨ q + pageSize ≤ p

/-- A `createThread` that has returned: its calls, and what it returned. -/
structure Made (EntryPoint : Type) where
  trace : List FactoryEvent
  result : Expected (Option (SharedThread EntryPoint)) Error

/-- The address of a page that a call gives to a TCB, for the TLS or as IPC buffer. -/
def pageArg : FactoryEvent → Option ℕ
  | ⟨.tcbSetTLSBase _ tlsBase, _⟩ => some tlsBase
  | ⟨.tcbSetIPCBuffer _ buffer _, _⟩ => some buffer
  | _ => none

/-- The stack, the TLS page and the IPC page of the thread that was made, if one was. -/
def Made.pages (c : Made EntryPoint) : List ℕ :=
  match c.result with
  | ⟨some t, _, true⟩ => t.thread.tcbStackAddr :: c.trace.filterMap pageArg
  | _ => []

/-- The calls made in a run. -/
def calls (l : List (Made EntryPoint)) : List FactoryEvent :=
  l.flatMap Made.trace

/-- The pages of the threads made in a run. -/
def threadPages (l : List (Made EntryPoint)) : List ℕ :=
  l.flatMap Made.pages

/-- The address counter after a run of `createThread`, each with any arguments and under
any answers. -/
inductive Run : ℕ → List (Made EntryPoint) → Prop where
  | start : Run firstVirtualAddress []
  | createThread {addr addr' : ℕ} {l : List (Made EntryPoint)} {tcbBadge apiEndpoint : ℕ}
      {entryPoint : EntryPoint} {tr : List FactoryEvent}
      {r : Expected (Option (SharedThread EntryPoint)) Error} :
      Run addr l →
      Exec (createThread tcbBadge entryPoint apiEndpoint addr) tr (.ret (r, addr')) →
      Run addr' (l ++ [⟨tr, r⟩])

/-! ### One call -/

section

variable {tcbBadge apiEndpoint addr addr' : ℕ} {entryPoint : EntryPoint}
  {before undo tr : List FactoryEvent} {e s : FactoryEvent} {err : Error}
  {o : Outcome (Expected (Option (SharedThread EntryPoint)) Error × ℕ)}
  {r : Expected (Option (SharedThread EntryPoint)) Error}

/-- Whether a call asks for a page depends on the call only. -/
theorem asked_of_call (h : e.call = s.call) :
  mappings.asked e = mappings.asked s
  := by
  obtain ⟨call, x⟩ := e
  obtain ⟨call', y⟩ := s
  obtain rfl : call = call' := h
  cases call <;> rfl

/-- A call that has failed maps no page. -/
theorem granted_of_failure (h : failure e = some err) :
  mappings.granted e = none
  := by
  obtain ⟨call, x⟩ := e
  cases call with
  | mapPage vaddr rights => simp [mappings, Expected.not_isValid h]
  | _ => rfl

/-- No page is mapped in giving back. -/
theorem asked_undo (h : undo.map Event.call = undoing before) :
  ∀ u ∈ undo, mappings.asked u = none
  := eq_none_of_undoing (fun _ _ => rfl) (fun _ _ => rfl) (fun _ _ => rfl) h

/-- The steps map three pages, one after the other. -/
theorem Answers.granted_steps (a : Answers) (tcbBadge apiEndpoint addr : ℕ) :
  (a.steps tcbBadge apiEndpoint addr).filterMap mappings.granted
    = [addr, Word.add addr pageSize, Word.add (Word.add addr pageSize) pageSize]
  := by
  simp [Answers.steps, mappings, a.stack.property, a.tls.property, a.ipc.property]

/-- The steps ask for pages at the counter. -/
theorem Answers.inStep_steps (a : Answers) (tcbBadge apiEndpoint addr : ℕ) :
  mappings.InStep addr (a.steps tcbBadge apiEndpoint addr)
  := by
  simp [Answers.steps, mappings, Bump.advance, a.stack.property, a.tls.property]

/-- An attempt asks for pages at the counter. -/
theorem Attempt.inStep (h : Attempt tcbBadge entryPoint apiEndpoint addr tr o) :
  mappings.InStep addr tr
  := by
  cases h with
  | made a => apply a.inStep_steps
  | gaveUp a hsteps hcall _ _ hundo =>
      have hinStep := a.inStep_steps tcbBadge apiEndpoint addr
      rw [hsteps] at hinStep
      apply hinStep.cut (asked_of_call hcall) (asked_undo hundo)
  | stopped a hsteps hcall _ _ =>
      have hinStep := a.inStep_steps tcbBadge apiEndpoint addr
      rw [hsteps] at hinStep
      apply hinStep.cut (asked_of_call hcall) (List.forall_mem_nil _)

/-- An attempt returns the counter. -/
theorem Attempt.counter (h : Attempt tcbBadge entryPoint apiEndpoint addr tr (.ret (r, addr'))) :
  addr' = mappings.counter addr tr
  := by
  cases h with
  | made a => rfl
  | gaveUp a hsteps hcall hfailure _ hundo =>
      rw [Bump.counter_append, Bump.counter_cons,
        Bump.advance_of_none (granted_of_failure hfailure),
        (Bump.counter_of_forall (asked_undo hundo)).1]

/-- The pages of the thread that an attempt makes are pages it maps. -/
theorem Attempt.pages (h : Attempt tcbBadge entryPoint apiEndpoint addr tr (.ret (r, addr'))) :
  (⟨tr, r⟩ : Made EntryPoint).pages.Sublist (tr.filterMap mappings.granted)
  := by
  cases h with
  | made a =>
      rw [a.granted_steps]
      apply List.Sublist.refl
  | gaveUp a _ _ _ _ _ => apply List.nil_sublist

/-- Every execution asks for pages at the counter. -/
theorem createThread_inStep
    (h : Exec (createThread tcbBadge entryPoint apiEndpoint addr) tr o) :
  mappings.InStep addr tr
  := by
  obtain ⟨tr', o', ho', h'⟩ := h.exists_ended
  exact (Bump.inStep_append.mp (createThread_inv h' ho').inStep).1

end

/-! ### Runs -/

theorem calls_append (l : List (Made EntryPoint)) (c : Made EntryPoint) :
  calls (l ++ [c]) = calls l ++ c.trace
  := by
  simp [calls]

theorem threadPages_append (l : List (Made EntryPoint)) (c : Made EntryPoint) :
  threadPages (l ++ [c]) = threadPages l ++ c.pages
  := by
  simp [threadPages]

/-- What is so after every run: the pages asked for are those at the counter, and the pages of
the threads are pages that were mapped. -/
structure AtCounter (addr : ℕ) (l : List (Made EntryPoint)) : Prop where
  counter : addr = mappings.counter firstVirtualAddress (calls l)
  inStep : mappings.InStep firstVirtualAddress (calls l)
  pages : (threadPages l).Sublist ((calls l).filterMap mappings.granted)

theorem Run.atCounter {addr : ℕ} {l : List (Made EntryPoint)} (hrun : Run addr l) :
  AtCounter addr l
  := by
  induction hrun with
  | start => exact ⟨rfl, trivial, List.Sublist.refl _⟩
  | createThread _ hexec ih =>
      have hattempt := createThread_inv hexec nofun
      have hinStep := hattempt.inStep
      rw [ih.counter] at hinStep
      constructor
      · rw [hattempt.counter, ih.counter, calls_append, Bump.counter_append]
      · rw [calls_append]
        apply Bump.inStep_append.mpr ⟨ih.inStep, hinStep⟩
      · rw [calls_append, threadPages_append, List.filterMap_append]
        apply ih.pages.append hattempt.pages

/-- The counter, while it has not wrapped around. -/
theorem next_iterate {n : ℕ} (h : firstVirtualAddress + pageSize * n < 2 ^ 64) :
  mappings.next^[n] firstVirtualAddress = firstVirtualAddress + pageSize * n
  := by
  induction n with
  | zero => rfl
  | succ n ih =>
      rw [Nat.mul_add_one, ← Nat.add_assoc] at h ⊢
      rw [Function.iterate_succ_apply', ih (by omega)]
      exact Word.add_of_lt h

/-- A later iterate is apart from an earlier one. -/
theorem apart_of_lt {m n : ℕ} (h : m < n) :
  Apart (firstVirtualAddress + pageSize * m) (firstVirtualAddress + pageSize * n)
  := by
  left
  have hmul : pageSize * (m + 1) ≤ pageSize * n := Nat.mul_le_mul_left pageSize h
  rw [Nat.mul_add_one] at hmul
  omega

theorem outsideHeap (n : ℕ) :
  OutsideHeap (firstVirtualAddress + pageSize * n)
  := by
  right
  have hfirst : firstVirtualAddress = reservedVaddr + reservedPages * pageSize := by decide
  omega

section

variable {tr : List FactoryEvent} (hinStep : mappings.InStep firstVirtualAddress tr)
  (hwrap : firstVirtualAddress + pageSize * mappings.count tr < 2 ^ 64)

include hwrap

/-- The addresses that the counter has had. -/
theorem next_iterate_of_le {n : ℕ} (hn : n ≤ mappings.count tr) :
  mappings.next^[n] firstVirtualAddress = firstVirtualAddress + pageSize * n
  := by
  apply next_iterate
  have hmul := Nat.mul_le_mul_left pageSize hn
  omega

include hinStep

/-- The pages mapped at the counter are outside the heap region. -/
theorem granted_outsideHeap :
  ∀ p ∈ tr.filterMap mappings.granted, OutsideHeap p
  := by
  intro p hp
  rw [hinStep.granted] at hp
  obtain ⟨n, hn, rfl⟩ := List.mem_iterate.mp hp
  rw [next_iterate_of_le hwrap (by omega)]
  apply outsideHeap

/-- The pages mapped at the counter are pairwise apart. -/
theorem granted_apart :
  (tr.filterMap mappings.granted).Pairwise Apart
  := by
  rw [hinStep.granted, List.pairwise_iff_getElem]
  intro i j hi hj hij
  rw [List.length_iterate] at hi hj
  rw [List.getElem_iterate, List.getElem_iterate, next_iterate_of_le hwrap (by omega),
    next_iterate_of_le hwrap (by omega)]
  apply apart_of_lt hij

/-- A page asked for at the counter is outside the heap region, and apart from the pages mapped
before. -/
theorem mapPage_apart {before after : List FactoryEvent} {vaddr : ℕ} {rights : CapRights}
    {r : Expected ℕ Error} (hsplit : tr = before ++ ⟨.mapPage vaddr rights, r⟩ :: after) :
  OutsideHeap vaddr ∧ ∀ p ∈ before.filterMap mappings.granted, Apart p vaddr
  := by
  subst hsplit
  have hbefore := (Bump.inStep_append.mp hinStep).1.granted
  have hle : mappings.count before ≤ mappings.count (before ++ ⟨.mapPage vaddr rights, r⟩ :: after)
    := by
    rw [Bump.count_append]
    omega
  rw [hinStep.asked (x := vaddr) rfl, next_iterate_of_le hwrap hle]
  use outsideHeap _
  intro p hp
  rw [hbefore] at hp
  obtain ⟨m, hm, rfl⟩ := List.mem_iterate.mp hp
  rw [next_iterate_of_le hwrap (by omega)]
  apply apart_of_lt hm

end

/-- While the counter does not wrap around, a `createThread` asks only for pages outside the
heap region and apart from all pages mapped before, whether or not they have been unmapped
since; and the stacks, TLS pages and IPC pages of all threads made are outside the heap region
and pairwise apart. The last call may have stopped anywhere. -/
theorem Run.pages_apart {addr tcbBadge apiEndpoint : ℕ} {entryPoint : EntryPoint}
    {l : List (Made EntryPoint)} {tr : List FactoryEvent}
    {o : Outcome (Expected (Option (SharedThread EntryPoint)) Error × ℕ)}
    (hrun : Run addr l)
    (hexec : Exec (ObjectFactory.createThread tcbBadge entryPoint apiEndpoint addr) tr o)
    (hwrap : firstVirtualAddress + pageSize * mappings.count (calls l ++ tr) < 2 ^ 64) :
  (∀ before after vaddr rights r,
      calls l ++ tr = before ++ ⟨.mapPage vaddr rights, r⟩ :: after →
      OutsideHeap vaddr ∧ ∀ p ∈ before.filterMap mappings.granted, Apart p vaddr)
    ∧ (∀ p ∈ threadPages l, OutsideHeap p) ∧ (threadPages l).Pairwise Apart
  := by
  have hat := hrun.atCounter
  have htr := createThread_inStep hexec
  rw [hat.counter] at htr
  have hinStep : mappings.InStep firstVirtualAddress (calls l ++ tr) :=
    Bump.inStep_append.mpr ⟨hat.inStep, htr⟩
  have hwrap' : firstVirtualAddress + pageSize * mappings.count (calls l) < 2 ^ 64 := by
    rw [Bump.count_append, Nat.mul_add] at hwrap
    omega
  and_intros
  · intro before after vaddr rights r hsplit
    apply mapPage_apart hinStep hwrap hsplit
  · intro p hp
    apply granted_outsideHeap hat.inStep hwrap' p (hat.pages.subset hp)
  · apply List.Pairwise.sublist hat.pages (granted_apart hat.inStep hwrap')

/-- A thread that is made when nothing is refused, with its stack at the address. -/
def granting (tcbBadge addr : ℕ) : Made Unit where
  trace := (observe (refusing fun _ => false) [] (createThread tcbBadge () 2 addr)).1
  result := success (some ⟨0x8000001020, ⟨20, (), addr, 29, tcbBadge, maxPrio, .uninitialized⟩⟩)

/-- A thread that is not made, since its IPC page is refused. -/
def refusingIPC : Made Unit where
  trace := (observe (refusing (· = .mapPage 0x8000010000 .readWrite)) []
    (createThread 2 () 2 0x800000E000)).1
  result := unexpected .deleteFirst

/-- The pages of two threads, between which another one could not be made, are outside the heap
region and apart. -/
theorem Run.twoMade_apart :
  (∀ p ∈ [0x800000B000, 0x800000C000, 0x800000D000, 0x8000010000, 0x8000011000, 0x8000012000],
      OutsideHeap p)
    ∧ [0x800000B000, 0x800000C000, 0x800000D000, 0x8000010000, 0x8000011000,
        0x8000012000].Pairwise Apart
  := by
  have hfirst : Run 0x800000E000 [granting 1 0x800000B000] :=
    Run.start.createThread (exec_observe (refusing fun _ => false) [] _)
  have hsecond : Run 0x8000010000 [granting 1 0x800000B000, refusingIPC] :=
    hfirst.createThread
      (exec_observe (refusing (· = .mapPage 0x8000010000 .readWrite)) [] _)
  have hthird : Run 0x8000013000 [granting 1 0x800000B000, refusingIPC, granting 3 0x8000010000] :=
    hsecond.createThread (exec_observe (refusing fun _ => false) [] _)
  have hexec : Exec (ObjectFactory.createThread 4 () 2 0x8000013000) [] .running := Exec.stop _
  exact (Run.pages_apart hthird hexec (by decide)).2

end ObjectFactory
