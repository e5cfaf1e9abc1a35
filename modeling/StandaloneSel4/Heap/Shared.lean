import StandaloneSel4.Heap.Integrity
import StandaloneSel4.Heap.Threads
import StandaloneSel4.Lib.Steps

/-!
# A shared heap runs as one alone

Threads run `kmalloc` and `kfree` in any interleaving, and write to the blocks that they own.
Beside the state stands a ledger of the blocks that have been handed out, and of those that threads
are about to give back. As long as no thread frees what is not handed out, or is being freed
already, the heap goes through a run of the allocator by one client, with the blocks of the ledger.
So what is so of every run is so of the heap that the threads share. The work of a thread on the
heap is one step here; `Interleaved` takes it apart.
-/

namespace Kmalloc

open Sync Fuel Bytes

variable {ι : Type}

/-- The blocks that have been handed out and not been linked back, and the one that a thread is
giving back. -/
structure Ledger (ι : Type) where
  live : List Live
  freeing : ι → Option Live

namespace Ledger

/-- Before the first operation. -/
def empty : Ledger ι where
  live := []
  freeing _ := none

/-- The block is handed out, and no thread is giving it back. -/
def Owned (L : Ledger ι) (b : Live) : Prop :=
  b ∈ L.live ∧ ∀ i, L.freeing i ≠ some b

variable [DecidableEq ι]

/-- The ledger when a thread is given an operation. -/
def start (i : ι) (L : Ledger ι) : Op → Ledger ι
  | .kfree ptr =>
      if ptr = 0 then L
      else { L with
        freeing := Function.update L.freeing i (L.live.find? fun b => b.header + 32 = ptr) }
  | _ => L

/-- The ledger when the thread `i` has given its block back. -/
def freed (i : ι) (L : Ledger ι) : Option Live → Ledger ι
  | some b => ⟨L.live.erase b, Function.update L.freeing i none⟩
  | none => L

/-- The ledger when a thread has worked on the heap. -/
def work (h : Heap) (fuel : ℕ) (i : ι) (L : Ledger ι) : HeapCall → Ledger ι
  | .kmallocNoLock size =>
      match kmallocNoLock size h fuel, chunkCount size fuel with
      | some (ptr, _), some count => { L with live := handOut L.live ptr count size }
      | _, _ => L
  | .kfreeNoLock ptr => if (kfreeNoLock ptr h fuel).isSome then L.freed i (L.freeing i) else L
  | _ => L

/-- The ledger after a move. -/
def record (s : Sync.State HeapSig Heap Op ℕ ι) (L : Ledger ι) : Move Op Mem ι → Ledger ι
  | .start i op => L.start i op
  | .go i fuel =>
      match (s.thread i).control with
      | .run (.call (.act c) _) => L.work s.shared fuel i c
      | _ => L
  | _ => L

theorem record_act {s : Sync.State HeapSig Heap Op ℕ ι} {L : Ledger ι} {i : ι} {fuel : ℕ}
    {c : HeapCall} {k : HeapSig.Answer c → Entry ℕ}
    (hcontrol : (s.thread i).control = .run (.call (.act c) k)) :
  L.record s (.go i fuel) = L.work s.shared fuel i c
  := by
  simp only [record, hcontrol]

theorem record_goes {s : Sync.State HeapSig Heap Op ℕ ι} {L : Ledger ι} {i : ι} {fuel : ℕ}
    {l : BinSem} {t : Sync.Thread HeapSig Op ℕ} (hgoes : (s.thread i).Goes s l t) :
  L.record s (.go i fuel) = L
  := by
  cases hgoes with
  | ret hc | lock hc | post hc _ | unlock hc _ | overflow hc _ | read hc | wait hc _ | acquire hc _
  | retry hc | consume hc _ | block hc _ | remember hc _ => simp only [record, hc]

/-- Work that needs more fuel is not recorded. -/
theorem work_of_none {h : Heap} {L : Ledger ι} {i : ι} {fuel : ℕ} {c : HeapCall}
    (hact : heapActs c h fuel = none) :
  L.work h fuel i c = L
  := by
  cases c with
  | kmallocNoLock size =>
      have hr : kmallocNoLock size h fuel = none := hact
      simp only [work, hr]
  | kfreeNoLock ptr =>
      have hr : kfreeNoLock ptr h fuel = none := Option.map_eq_none_iff.mp hact
      rw [work, hr, Option.isSome_none, if_neg Bool.false_ne_true]
  | size chunk | memcpy dest src n | memset s c len => rfl

end Ledger

/-- The threads and the heap, with the ledger. -/
structure Shared (ι : Type) where
  state : Sync.State HeapSig Heap Op ℕ ι
  ledger : Ledger ι

namespace Shared

/-- What the threads may do: sizes satisfy `P`, only what is owned is freed, and only the blocks
that are owned are written to. -/
def Allowed (P : ℕ → Prop) (x : Shared ι) : Move Op Mem ι → Prop
  | .start _ (.kmalloc size) => size < 2 ^ 64 ∧ P size
  | .start _ (.kfree ptr) => ptr = 0 ∨ ∃ b, x.ledger.Owned b ∧ ptr = b.header + 32
  | .start _ (.krealloc _ _) => False
  | .env m => ∀ a, (∀ b, x.ledger.Owned b → ¬ b.Payload a) → m a = x.state.shared.mem a
  | _ => True

variable [Fintype ι] [DecidableEq ι]

/-- A move of the threads. -/
def Next (x : Shared ι) (m : Move Op Mem ι) (x' : Shared ι) : Prop :=
  heapSystem.next x.state m = some x'.state ∧ x'.ledger = x.ledger.record x.state m

/-- Before the first operation. -/
def start (h : Heap) (lock : BinSem) : Shared ι :=
  ⟨Sync.State.start h lock, Ledger.empty⟩

end Shared

/-! ### What a thread has still to do -/

/-- The rest of a program allocates sizes that satisfy `P`, and frees the block `b` and no other, or
nothing. -/
def Frees (P : ℕ → Prop) : Option Live → Entry ℕ → Prop
  | b, .ret _ => b = none
  | _, .fail => False
  | b, .call .lock k => ∀ x, Frees P b (k x)
  | b, .call .unlock k => ∀ x, Frees P b (k x)
  | b, .call (.act (.kmallocNoLock size)) k => size < 2 ^ 64 ∧ P size ∧ ∀ x, Frees P b (k x)
  | b, .call (.act (.kfreeNoLock ptr)) k =>
      ptr = (b.elim 0 fun b => b.header + 32) ∧ Frees P none (k ())
  | _, .call (.act (.size _)) _ => False
  | _, .call (.act (.memcpy _ _ _)) _ => False
  | _, .call (.act (.memset _ _ _)) _ => False

/-- Where a thread is, likewise. -/
def ControlFrees (P : ℕ → Prop) (b : Option Live) : Control HeapSig ℕ → Prop
  | .idle => b = none
  | .run p => Frees P b p
  | .read k | .exchange _ k | .wait k | .blocked k | .signal k => ∀ x, Frees P b (k x)

variable {P : ℕ → Prop} {size ptr : ℕ} {b : Live}

theorem kmalloc_frees (hsize : size < 2 ^ 64) (hP : P size) :
  Frees P none (kmalloc size)
  := fun _ => ⟨hsize, hP, fun _ _ => rfl⟩

theorem kfree_frees (b : Option Live) :
  Frees P b (Op.kfree (b.elim 0 fun b => b.header + 32)).prog
  := fun _ => ⟨rfl, fun _ => rfl⟩

/-! ### The heap that the threads share -/

/-- The heap is as after a run with the blocks of the ledger, and every thread frees what the ledger
says. -/
structure Shared.Inv (P : ℕ → Prop) (lock : BinSem) (x : Shared ι) : Prop where
  run : Run P x.state.shared lock x.ledger.live
  thread : ∀ i, ControlFrees P (x.ledger.freeing i) (x.state.thread i).control
  live : ∀ i b, x.ledger.freeing i = some b → b ∈ x.ledger.live
  apart : ∀ i j b, x.ledger.freeing i = some b → x.ledger.freeing j = some b → i = j

/-- In a run a live block is found by its address. -/
theorem Run.find_live {h : Heap} {lock : BinSem} {live : List Live} (hrun : Run P h lock live)
    (hb : b ∈ live) :
  live.find? (fun c => c.header + 32 = b.header + 32) = some b
  := by
  obtain ⟨N, A, ht⟩ := hrun.ensureInit_tracks
  have hintact := ht.intact
  obtain ⟨c, hc⟩ : ∃ c, live.find? (fun c => c.header + 32 = b.header + 32) = some c := by
    rw [← Option.isSome_iff_exists, List.find?_isSome]
    exact ⟨b, hb, decide_eq_true rfl⟩
  have hheader : c.header + 32 = b.header + 32 := by simpa using List.find?_some hc
  have hmem := List.mem_of_find?_eq_some hc
  rw [hc]
  by_contra hne
  have hsymm : Std.Symm fun b c : Live =>
      b.header + 32 * b.count ≤ c.header ∨ c.header + 32 * c.count ≤ b.header :=
    ⟨fun _ _ => Or.symm⟩
  have hdisjoint := hintact.disjoint.forall hmem hb fun heq => hne (congrArg some heq)
  have hposb := (hintact.inside b hb).1
  have hposc := (hintact.inside c hmem).1
  omega

variable [DecidableEq ι]

namespace Shared.Inv

variable {lock : BinSem} {x x' : Shared ι} {i : ι}

/-- A thread that goes on without working on the heap. -/
theorem set (h : x.Inv P lock) (i : ι) {t : Sync.Thread HeapSig Op ℕ} (l : BinSem)
    (ht : ControlFrees P (x.ledger.freeing i) t.control) :
  Inv P lock ⟨State.set { x.state with lock := l } i t, x.ledger⟩
  := by
  constructor
  · exact h.run
  · exact State.forall_set (P := fun j t => ControlFrees P (x.ledger.freeing j) t.control) ht
      fun j _ => h.thread j
  · exact h.live
  · exact h.apart

/-- A thread that is given an operation. -/
theorem start (h : x.Inv P lock) {op : Op} (hallowed : x.Allowed P (.start i op))
    (hidle : (x.state.thread i).control = .idle) :
  Inv P lock
    ⟨x.state.set i { x.state.thread i with control := .run op.prog, op := some op },
      x.ledger.start i op⟩
  := by
  have hnone : x.ledger.freeing i = none := by
    have hthread := h.thread i
    rw [hidle] at hthread
    exact hthread
  match op, hallowed with
  | .kmalloc size, ⟨hsize, hP⟩ =>
      apply h.set i x.state.lock
      rw [hnone]
      exact kmalloc_frees hsize hP
  | .kfree ptr, hallowed =>
      by_cases hptr : ptr = 0
      · simp only [Ledger.start, if_pos hptr]
        apply h.set i x.state.lock
        rw [hnone, hptr]
        exact kfree_frees none
      · obtain ⟨b, ⟨hb, howned⟩, rfl⟩ := hallowed.resolve_left hptr
        simp only [Ledger.start, if_neg hptr, h.run.find_live hb]
        constructor
        · exact h.run
        · intro j
          simp only [State.set]
          by_cases hj : j = i
          · subst hj
            rw [Function.update_self, Function.update_self]
            exact kfree_frees (some b)
          · rw [Function.update_of_ne hj, Function.update_of_ne hj]
            exact h.thread j
        · intro j c hc
          dsimp only at hc
          by_cases hj : j = i
          · subst hj
            rw [Function.update_self] at hc
            obtain rfl := Option.some.inj hc
            exact hb
          · rw [Function.update_of_ne hj] at hc
            exact h.live j c hc
        · intro j k c hj hk
          dsimp only at hj hk
          by_cases hji : j = i
          · by_cases hki : k = i
            · rw [hji, hki]
            · rw [hji, Function.update_self] at hj
              rw [Function.update_of_ne hki] at hk
              obtain rfl := Option.some.inj hj
              exact absurd hk (howned k)
          · rw [Function.update_of_ne hji] at hj
            by_cases hki : k = i
            · rw [hki, Function.update_self] at hk
              obtain rfl := Option.some.inj hk
              exact absurd hj (howned j)
            · rw [Function.update_of_ne hki] at hk
              exact h.apart j k c hj hk

/-- A thread that has allocated. -/
theorem kmallocNoLock (h : x.Inv P lock) {k : ℕ → Entry ℕ} {fuel : ℕ} {r : ℕ × Heap}
    (hcontrol : (x.state.thread i).control = .run (.call (.act (.kmallocNoLock size)) k))
    (hr : Kmalloc.kmallocNoLock size x.state.shared fuel = some r) :
  Inv P lock
    ⟨State.set { x.state with shared := r.2 } i ((x.state.thread i).goto (.run (k r.1))),
      x.ledger.work x.state.shared fuel i (.kmallocNoLock size)⟩
  := by
  have hthread := h.thread i
  rw [hcontrol] at hthread
  obtain ⟨hsize, hP, hk⟩ := hthread
  obtain ⟨count, hcount, -⟩ := Option.bind_eq_some_iff.mp hr
  obtain ⟨ptr, h'⟩ := r
  have hwork : x.ledger.work x.state.shared fuel i (.kmallocNoLock size)
      = { x.ledger with live := handOut x.ledger.live ptr count size } := by
    simp only [Ledger.work, hr, hcount]
  rw [hwork]
  constructor
  · apply h.run.kmalloc hsize hP ⟨fuel, hcount⟩
    apply kmalloc_returns h.run.tracks.1 ⟨fuel, hr⟩
  · exact State.forall_set (P := fun j t => ControlFrees P (x.ledger.freeing j) t.control)
      (hk ptr) fun j _ => h.thread j
  · intro j b hb
    have hlive := h.live j b hb
    simp only [handOut]
    split
    · exact hlive
    · exact List.mem_cons_of_mem _ hlive
  · exact h.apart

/-- A thread that has freed. -/
theorem kfreeNoLock (h : x.Inv P lock) {k : Unit → Entry ℕ} {fuel : ℕ} {h' : Heap}
    (hcontrol : (x.state.thread i).control = .run (.call (.act (.kfreeNoLock ptr)) k))
    (hr : Kmalloc.kfreeNoLock ptr x.state.shared fuel = some h') :
  Inv P lock
    ⟨State.set { x.state with shared := h' } i ((x.state.thread i).goto (.run (k ()))),
      x.ledger.work x.state.shared fuel i (.kfreeNoLock ptr)⟩
  := by
  have hthread := h.thread i
  rw [hcontrol] at hthread
  obtain ⟨hptr, hk⟩ := hthread
  cases hfreeing : x.ledger.freeing i with
  | none =>
      -- nothing is freed
      rw [hfreeing] at hptr
      obtain rfl : ptr = 0 := hptr
      obtain rfl : x.state.shared = h' := by
        rw [Kmalloc.kfreeNoLock, if_pos rfl] at hr
        exact Option.some.inj hr
      have hwork : x.ledger.work x.state.shared fuel i (.kfreeNoLock 0) = x.ledger := by
        have hsome : (Kmalloc.kfreeNoLock 0 x.state.shared fuel).isSome := by
          rw [hr]
          rfl
        rw [Ledger.work, if_pos hsome, hfreeing, Ledger.freed]
      rw [hwork]
      apply h.set i x.state.lock
      rw [hfreeing]
      exact hk
  | some b =>
      rw [hfreeing] at hptr
      obtain rfl : ptr = b.header + 32 := hptr
      have hwork : x.ledger.work x.state.shared fuel i (.kfreeNoLock (b.header + 32))
          = ⟨x.ledger.live.erase b, Function.update x.ledger.freeing i none⟩ := by
        have hsome : (Kmalloc.kfreeNoLock (b.header + 32) x.state.shared fuel).isSome := by
          rw [hr]
          rfl
        rw [Ledger.work, if_pos hsome, hfreeing, Ledger.freed]
      rw [hwork]
      have hother : ∀ j c, Function.update x.ledger.freeing i none j = some c →
          j ≠ i ∧ x.ledger.freeing j = some c := by
        intro j c hc
        by_cases hj : j = i
        · rw [hj, Function.update_self] at hc
          cases hc
        · rw [Function.update_of_ne hj] at hc
          exact ⟨hj, hc⟩
      constructor
      · apply h.run.kfree (h.live i b hfreeing)
        exact kfree_returns h.run.tracks.1 ⟨fuel, hr⟩
      · intro j
        simp only [State.set]
        by_cases hj : j = i
        · subst hj
          rw [Function.update_self, Function.update_self]
          exact hk
        · rw [Function.update_of_ne hj, Function.update_of_ne hj]
          exact h.thread j
      · intro j c hc
        obtain ⟨hj, hfreeing'⟩ := hother j c hc
        have hne : c ≠ b := by
          rintro rfl
          exact hj (h.apart j i c hfreeing' hfreeing)
        exact (List.mem_erase_of_ne hne).mpr (h.live j c hfreeing')
      · intro j k c hj hk
        exact h.apart j k c (hother j c hj).2 (hother k c hk).2

/-- A thread that works on the heap. -/
theorem act (h : x.Inv P lock) {c : HeapCall} {k : HeapSig.Answer c → Entry ℕ}
    {fuel : ℕ} {r : HeapSig.Answer c} {h' : Heap}
    (hcontrol : (x.state.thread i).control = .run (.call (.act c) k))
    (hact : heapActs c x.state.shared fuel = some (r, h')) :
  Inv P lock
    ⟨State.set { x.state with shared := h' } i ((x.state.thread i).goto (.run (k r))),
      x.ledger.work x.state.shared fuel i c⟩
  := by
  have hthread := h.thread i
  rw [hcontrol] at hthread
  cases c with
  | kmallocNoLock size => exact h.kmallocNoLock hcontrol hact
  | kfreeNoLock ptr =>
      obtain ⟨h'', hr, heq⟩ := Option.map_eq_some_iff.mp hact
      obtain rfl : h'' = h' := congrArg Prod.snd heq
      exact h.kfreeNoLock hcontrol hr
  | size chunk | memcpy dest src n | memset s c len => exact absurd hthread id

/-- A thread that does not. -/
theorem goes (h : x.Inv P lock) {l : BinSem} {t : Sync.Thread HeapSig Op ℕ}
    (hgoes : (x.state.thread i).Goes x.state l t) :
  Inv P lock ⟨State.set { x.state with lock := l } i t, x.ledger⟩
  := by
  apply h.set i l
  have hthread := h.thread i
  cases hgoes with
  | ret hc | lock hc | post hc _ | read hc | wait hc _ | retry hc | block hc _ =>
      rw [hc] at hthread
      exact hthread
  | overflow hc _ =>
      rw [hc] at hthread
      exact hthread (-1)
  | unlock hc _ | acquire hc _ | consume hc _ | remember hc _ =>
      rw [hc] at hthread
      exact hthread 0

variable [Fintype ι]

/-- A move of the threads keeps the invariant. -/
theorem next (h : x.Inv P lock) {m : Move Op Mem ι} (hallowed : x.Allowed P m)
    (hnext : x.Next m x') :
  Inv P lock x'
  := by
  obtain ⟨s', L'⟩ := x'
  obtain ⟨hnext, rfl⟩ : heapSystem.next x.state m = some s' ∧ L' = _ := hnext
  cases System.step hnext with
  | start hidle => exact h.start hallowed hidle
  | go hgoes =>
      rw [Ledger.record_goes hgoes]
      exact h.goes hgoes
  | act hcontrol hact =>
      rw [Ledger.record_act hcontrol]
      exact h.act hcontrol hact
  | stay hcontrol hact =>
      rw [Ledger.record_act hcontrol, Ledger.work_of_none hact]
      exact h
  | spurious hcontrol => exact h.goes (.retry hcontrol)
  | @wake i j k k' hcontrol hcontrol' =>
      have hi := h.thread i
      have hj := h.thread j
      rw [hcontrol] at hi
      rw [hcontrol'] at hj
      have hsignalled := h.set i x.state.lock (t := (x.state.thread i).goto (.run (k 0))) (hi 0)
      exact hsignalled.set j x.state.lock (t := (x.state.thread j).locked (k' 0)) (hj 0)
  | env =>
      refine ⟨?_, h.thread, h.live, h.apart⟩
      apply h.run.write
      intro a ha
      apply hallowed
      intro b hb
      exact ha b hb.1

end Shared.Inv

end Kmalloc
