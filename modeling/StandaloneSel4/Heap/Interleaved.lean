import StandaloneSel4.Heap.Concurrent
import StandaloneSel4.Heap.Footprint
import StandaloneSel4.Heap.Hanging
import StandaloneSel4.Sync.Splitting

/-!
# Threads inside the allocator

Threads run `kmalloc` and `kfree` access by access: between any two reads or writes of one thread
the others may go on, and clients write to their blocks byte by byte. While a thread is at work the
free list is not as it should be; but no other thread is at work then, for none gets the lock, and
what clients write is no part of what the thread reads. So the threads follow threads that do their
work at once, and the heap goes through a run of the allocator by one client.
-/

namespace Kmalloc

open Sync Fuel Bytes Prog

variable {ι : Type}

/-- The work on the heap, and the accesses that it consists of. -/
def heapSplitting : Splitting HeapSig AccessSig Heap where
  acts := heapActs
  access := heapAccess
  work := heapWork
  adequate := through_heapWork

/-- The threads that use the heap, access by access. Clients write bytes. -/
def accessSystem : System (PartSig HeapSig AccessSig) Heap (Op × ℕ) (ℕ × UInt8) ℕ :=
  heapSplitting.system Op.prog fun w => Heap.writeByte w.1 w.2

namespace Ledger

/-- What clients have in the blocks that the thread `i` is not giving back. -/
def Kept (L : Ledger ι) (i : ι) (a : ℕ) : Prop :=
  ∃ b ∈ L.live, L.freeing i ≠ some b ∧ b.Payload a

/-- The accesses that leave it alone. -/
abbrev Spares (L : Ledger ι) (i : ι) : HeapAccess → Prop :=
  Avoids (L.Kept i)

instance [Fintype ι] (L : Ledger ι) (b : Live) : Decidable (L.Owned b) :=
  inferInstanceAs (Decidable (b ∈ L.live ∧ ∀ i, L.freeing i ≠ some b))

/-- What is owned is in the ledger. -/
theorem exists_owned (L : Ledger ι) {Q : Live → Prop} :
  (∃ b ∈ L.live, L.Owned b ∧ Q b) ↔ ∃ b, L.Owned b ∧ Q b
  := by
  constructor
  · rintro ⟨b, -, hb, hQ⟩
    exact ⟨b, hb, hQ⟩
  · rintro ⟨b, hb, hQ⟩
    exact ⟨b, hb.1, hb, hQ⟩

variable [DecidableEq ι]

/-- The ledger when the work of a thread on the heap returns: the count of the chunks handed out is
in the header before them. -/
def returned (h : Heap) (i : ι) (L : Ledger ι) : (c : HeapCall) → HeapSig.Answer c → Ledger ι
  | .kmallocNoLock size, ptr =>
      { L with live := handOut L.live ptr (get .count h.mem (Word.sub ptr sizeofInfo)) size }
  | .kfreeNoLock _, _ => L.freed i (L.freeing i)
  | _, _ => L

/-- The ledger after a move of threads that work access by access. -/
def note (s : Sync.State (PartSig HeapSig AccessSig) Heap (Op × ℕ) ℕ ι) (L : Ledger ι) :
    Move (Op × ℕ) (ℕ × UInt8) ι → Ledger ι
  | .start i op => L.start i op.1
  | .go i _ =>
      match (s.thread i).control with
      | .run (.call (.act (.returned c x)) _) => L.returned s.shared i c x
      | _ => L
  | _ => L

/-- No thread but the one that is given an operation has another task then. -/
theorem start_freeing_of_ne (L : Ledger ι) {i j : ι} (hj : j ≠ i) (op : Op) :
  (L.start i op).freeing j = L.freeing j
  := by
  cases op with
  | kfree ptr =>
      rw [start]
      split
      · rfl
      · exact Function.update_of_ne hj _ _
  | kmalloc size | krealloc ptr size => rfl

/-- A block that no thread is giving back is not given back by a thread that has another task. -/
theorem start_freeing_ne (L : Ledger ι) {b : Live} (hfreeing : ∀ j, L.freeing j ≠ some b) {i : ι}
    {op : Op} (hop : ∀ ptr, op = .kfree ptr → ptr ≠ b.header + 32) (j : ι) :
  (L.start i op).freeing j ≠ some b
  := by
  by_cases hj : j = i
  · subst hj
    cases op with
    | kfree ptr =>
        rw [start]
        split
        · exact hfreeing j
        · change Function.update L.freeing j _ j ≠ some b
          rw [Function.update_self]
          intro hfind
          have hptr : b.header + 32 = ptr := by simpa using List.find?_some hfind
          exact hop ptr rfl hptr.symm
    | kmalloc size | krealloc ptr size => exact hfreeing j
  · rw [L.start_freeing_of_ne hj]
    exact hfreeing j

theorem start_live (L : Ledger ι) (i : ι) (op : Op) :
  (L.start i op).live = L.live
  := by
  cases op with
  | kfree ptr =>
      rw [start]
      split <;> rfl
  | kmalloc size | krealloc ptr size => rfl

/-- A thread that is not about to work on the heap changes nothing in the ledger. -/
theorem record_of_not_acts {s : Sync.State HeapSig Heap Op ℕ ι} (L : Ledger ι) {i : ι}
    (hi : ¬ (s.thread i).control.Acts) (fuel : ℕ) :
  L.record s (.go i fuel) = L
  := by
  simp only [record]
  split
  · rename_i hcontrol
    rw [hcontrol] at hi
    exact absurd trivial hi
  · rfl

theorem note_of_not_acts
    {s : Sync.State (PartSig HeapSig AccessSig) Heap (Op × ℕ) ℕ ι} (L : Ledger ι) {i : ι}
    (hi : ¬ (s.thread i).control.Acts) (fuel : ℕ) :
  L.note s (.go i fuel) = L
  := by
  simp only [note]
  split
  · rename_i hcontrol
    rw [hcontrol] at hi
    exact absurd trivial hi
  · rfl

end Ledger

/-- The threads and the heap, with the ledger. -/
structure Interleaved (ι : Type) where
  state : Sync.State (PartSig HeapSig AccessSig) Heap (Op × ℕ) ℕ ι
  ledger : Ledger ι

namespace Interleaved

instance (b : Live) (a : ℕ) : Decidable (b.Payload a) :=
  inferInstanceAs (Decidable (b.header + 32 ≤ a ∧ a < b.header + 32 * b.count))

/-- What the threads may do: sizes satisfy `P`, only what is owned is freed, and only the blocks
that are owned are written to. -/
def Allowed (P : ℕ → Prop) (x : Interleaved ι) : Move (Op × ℕ) (ℕ × UInt8) ι → Prop
  | .start _ (.kmalloc size, _) => size < 2 ^ 64 ∧ P size
  | .start _ (.kfree ptr, _) => ptr = 0 ∨ ∃ b, x.ledger.Owned b ∧ ptr = b.header + 32
  | .start _ (.krealloc _ _, _) => False
  | .env (a, _) => ∃ b, x.ledger.Owned b ∧ b.Payload a
  | _ => True

/-- The move does not write to the block, and gives no thread the task to free it. -/
def Unharmed (b : Live) : Move (Op × ℕ) (ℕ × UInt8) ι → Prop
  | .start _ (.kfree ptr, _) => ptr ≠ b.header + 32
  | .env (a, _) => ¬ b.Payload a
  | _ => True

instance (b : Live) (m : Move (Op × ℕ) (ℕ × UInt8) ι) : Decidable (Unharmed b m) :=
  match m with
  | .start _ (.kfree ptr, _) => inferInstanceAs (Decidable (ptr ≠ b.header + 32))
  | .env (a, _) => inferInstanceAs (Decidable (¬ b.Payload a))
  | .start _ (.kmalloc _, _) | .start _ (.krealloc _ _, _) => isTrue trivial
  | .go _ _ | .spurious _ | .wake _ _ => isTrue trivial

/-- A move of the threads. -/
def Next [Fintype ι] [DecidableEq ι] (x : Interleaved ι) (m : Move (Op × ℕ) (ℕ × UInt8) ι)
    (x' : Interleaved ι) : Prop :=
  accessSystem.next x.state m = some x'.state ∧ x'.ledger = x.ledger.note x.state m

/-- The move, when it can be made. -/
def step [Fintype ι] [DecidableEq ι] (x : Interleaved ι) (m : Move (Op × ℕ) (ℕ × UInt8) ι) :
    Option (Interleaved ι) :=
  (accessSystem.next x.state m).map fun s => ⟨s, x.ledger.note x.state m⟩

theorem next_of_step [Fintype ι] [DecidableEq ι] (x : Interleaved ι)
    (m : Move (Op × ℕ) (ℕ × UInt8) ι) (x' : Interleaved ι) (h : x.step m = some x') :
  x.Next m x'
  := by
  obtain ⟨s, hs, rfl⟩ := Option.map_eq_some_iff.mp h
  exact ⟨hs, rfl⟩

instance [Fintype ι] {P : ℕ → Prop} [DecidablePred P] (x : Interleaved ι)
    (m : Move (Op × ℕ) (ℕ × UInt8) ι) : Decidable (x.Allowed P m) :=
  match m with
  | .start _ (.kmalloc size, _) => inferInstanceAs (Decidable (size < 2 ^ 64 ∧ P size))
  | .start _ (.kfree ptr, _) =>
      decidable_of_iff (ptr = 0 ∨ ∃ b ∈ x.ledger.live, x.ledger.Owned b ∧ ptr = b.header + 32)
        (or_congr Iff.rfl x.ledger.exists_owned)
  | .start _ (.krealloc _ _, _) => isFalse id
  | .env (a, _) =>
      decidable_of_iff (∃ b ∈ x.ledger.live, x.ledger.Owned b ∧ b.Payload a) x.ledger.exists_owned
  | .go _ _ | .spurious _ | .wake _ _ => isTrue trivial

/-- Before the first operation. -/
def start (h : Heap) (lock : BinSem) : Interleaved ι :=
  ⟨Sync.State.start h lock, Ledger.empty⟩

/-- The threads follow threads that do their work at once, and have the same ledger. -/
structure Models [Fintype ι] (P : ℕ → Prop) (lock : BinSem) (x : Interleaved ι) (y : Shared ι) :
    Prop where
  sound : y.Sound P lock
  guarded : ∀ i, (y.state.thread i).Along fun _ => Guarded
  ledger : x.ledger = y.ledger
  follows : heapSplitting.Follows x.ledger.Spares x.state y.state

end Interleaved

variable {P : ℕ → Prop} {lock : BinSem}

theorem Interleaved.Models.start [Fintype ι] {h : Heap} {mem : Mem}
    {head tail start size mutexNotif : ℕ}
    (hpool : setMemoryPool (Heap.boot mem head tail) start size mutexNotif = some (h, lock))
    (hplaced : h.Placed) :
  Models P lock (Interleaved.start h lock : Interleaved ι) (Shared.start h lock)
  where
  sound := .start hpool hplaced
  guarded _ := trivial
  ledger := rfl
  follows := ⟨rfl, fun _ => rfl, fun _ => rfl, fun _ => .same (X := heapSplitting) (c := .idle) id,
    fun _ => rfl⟩

/-! ### Steps -/

section

variable [DecidableEq ι]

/-- What a move of threads that work access by access can do to the heap and to the ledger. -/
inductive Interleaved.Effect (x x' : Interleaved ι) : Move (Op × ℕ) (ℕ × UInt8) ι → Prop where
  | none {m : Move (Op × ℕ) (ℕ × UInt8) ι} :
      x'.state.shared = x.state.shared → x'.ledger = x.ledger → Effect x x' m
  | start {i : ι} {op : Op} {n : ℕ} :
      x'.state.shared = x.state.shared → x'.ledger = x.ledger.start i op →
      Effect x x' (.start i (op, n))
  | write {a : ℕ} {b : UInt8} :
      x'.state.shared = x.state.shared.writeByte a b → x'.ledger = x.ledger →
      Effect x x' (.env (a, b))
  | access {i : ι} {fuel : ℕ} {c : HeapAccess} :
      x.ledger.Spares i c → x'.state.shared = (heapAccess c x.state.shared).2 →
      x'.ledger = x.ledger → Effect x x' (.go i fuel)
  | kmalloc {i : ι} {fuel size count ptr : ℕ} :
      x'.state.shared = x.state.shared →
      x'.ledger = { x.ledger with live := handOut x.ledger.live ptr count size } →
      Effect x x' (.go i fuel)
  | kfree {i : ι} {fuel : ℕ} :
      x'.state.shared = x.state.shared → x'.ledger = x.ledger.freed i (x.ledger.freeing i) →
      Effect x x' (.go i fuel)

/-- Such a move leaves a block that is owned, and what it holds, as it is. -/
theorem Interleaved.Effect.keeps {x x' : Interleaved ι} {m : Move (Op × ℕ) (ℕ × UInt8) ι}
    {b : Live} (h : x.Effect x' m) (hb : x.ledger.Owned b) (hm : Unharmed b m) :
  x'.ledger.Owned b ∧ ∀ a, b.Payload a → x'.state.shared.mem a = x.state.shared.mem a
  := by
  obtain ⟨hlive, hfreeing⟩ := hb
  cases h with
  | none hshared hledger =>
      rw [hshared, hledger]
      exact ⟨⟨hlive, hfreeing⟩, fun _ _ => rfl⟩
  | @start i op n hshared hledger =>
      rw [hshared, hledger]
      refine ⟨⟨?_, ?_⟩, fun _ _ => rfl⟩
      · rw [Ledger.start_live]
        exact hlive
      · apply x.ledger.start_freeing_ne hfreeing
        rintro ptr rfl
        exact hm
  | write hshared hledger =>
      rw [hshared, hledger]
      refine ⟨⟨hlive, hfreeing⟩, fun a ha => if_neg ?_⟩
      rintro rfl
      exact hm ha
  | @access i _ c hspares hshared hledger =>
      rw [hshared, hledger]
      refine ⟨⟨hlive, hfreeing⟩, fun a ha => ?_⟩
      exact Avoids.mem_eq hspares ⟨b, hlive, hfreeing i, ha⟩
  | kmalloc hshared hledger =>
      rw [hshared, hledger]
      refine ⟨⟨?_, hfreeing⟩, fun _ _ => rfl⟩
      rw [handOut]
      split
      · exact hlive
      · exact List.mem_cons_of_mem _ hlive
  | @kfree i _ hshared hledger =>
      rw [hshared, hledger]
      refine ⟨?_, fun _ _ => rfl⟩
      cases hc : x.ledger.freeing i with
      | none => exact ⟨hlive, hfreeing⟩
      | some c =>
          have hne : b ≠ c := by
            rintro rfl
            exact hfreeing i hc
          refine ⟨(List.mem_erase_of_ne hne).mpr hlive, fun j => ?_⟩
          change Function.update x.ledger.freeing i Option.none j ≠ some b
          by_cases hj : j = i
          · rw [hj, Function.update_self]
            exact (Option.some_ne_none b).symm
          · rw [Function.update_of_ne hj]
            exact hfreeing j

/-- When work returns, the ledger is as when it is done at once: the header before the chunks handed
out holds their count. -/
theorem Shared.Inv.returned_eq_work {y : Shared ι} (h : y.Inv P lock) {i : ι} {c : HeapCall}
    {k : HeapSig.Answer c → Entry ℕ} {n : ℕ} {r : HeapSig.Answer c} {h' : Heap}
    (hcontrol : (y.state.thread i).control = .run (.call (.act c) k))
    (hact : heapActs c y.state.shared n = some (r, h')) :
  y.ledger.returned h' i c r = y.ledger.work y.state.shared n i c
  := by
  have hdone : Run P h' lock (y.ledger.work y.state.shared n i c).live := (h.act hcontrol hact).run
  have hthread := h.thread i
  rw [hcontrol] at hthread
  cases c with
  | kmallocNoLock size =>
      have hr : Kmalloc.kmallocNoLock size y.state.shared n = some (r, h') := hact
      obtain ⟨count, hcount, -⟩ := Option.bind_eq_some_iff.mp hr
      simp only [Ledger.work, hr, hcount] at hdone ⊢
      simp only [Ledger.returned, handOut]
      by_cases hzero : r = 0
      · rw [if_pos hzero, if_pos hzero]
      · rw [if_neg hzero, if_neg hzero]
        rw [handOut, if_neg hzero] at hdone
        obtain ⟨-, N, A, ht⟩ := hdone.tracks_of_mem List.mem_cons_self
        have hheader : get .count h'.mem (Word.sub r sizeofInfo) = count :=
          ht.intact.count ⟨Word.sub r sizeofInfo, count, size⟩ List.mem_cons_self
        rw [hheader]
  | kfreeNoLock ptr =>
      obtain ⟨h'', hr, -⟩ := Option.map_eq_some_iff.mp hact
      rw [Ledger.work, hr]
      rfl
  | size chunk | memcpy dest src n | memset s c len => exact absurd hthread id

end

variable [Fintype ι] [DecidableEq ι]

/-- Only the thread that has the lock is about to work on the heap, and it will leave alone what
clients have in their blocks. -/
theorem Shared.Sound.ready {y : Shared ι} (h : y.Sound P lock)
    (hguarded : ∀ i, (y.state.thread i).Along fun _ => Guarded) :
  heapSplitting.Ready y.ledger.Spares y.state
  := by
  constructor
  · intro i j hi hj
    exact h.balanced.acts_unique hguarded hi hj
  intro i c k hcontrol n
  have hthread := h.inv.thread i
  rw [hcontrol] at hthread
  have hrun := h.inv.run
  cases c with
  | kmallocNoLock size =>
      rcases hrun.tracks.2 with ⟨-, hlive⟩ | ⟨N, A, ht⟩
      · -- before `init` clients have no blocks
        have hnone : ∀ a, ¬ y.ledger.Kept i a := by
          rintro a ⟨b, hb, -⟩
          rw [hlive] at hb
          cases hb
        apply within_of_forall
        intro c
        cases c with
        | get f c | set f c v => exact fun a ha => absurd ha (hnone a)
        | byte a | setByte a b => exact hnone a
        | static v | setTotal v | initialized | setInitialized => trivial
      · apply ht.within_kmallocNoLock
        rintro a ⟨b, hb, -, hpayload⟩
        exact ⟨b, hb, hpayload⟩
  | kfreeNoLock ptr =>
      obtain ⟨rfl, -⟩ := hthread
      cases hfreeing : y.ledger.freeing i with
      | none => exact .ret _ _
      | some b =>
          have hb := h.inv.live i b hfreeing
          obtain ⟨-, N, A, ht⟩ := hrun.tracks_of_mem hb
          apply ht.within_kfreeNoLock hb
          rintro a ⟨c, hc, hne, hpayload⟩
          rw [hfreeing] at hne
          exact ⟨c, (List.mem_erase_of_ne fun heq => hne (congrArg some heq.symm)).mpr hc, hpayload⟩
  | size chunk | memcpy dest src n | memset s c len => exact absurd hthread id

namespace Interleaved.Models

variable {x x' : Interleaved ι} {y : Shared ι}

/-- A step of the thread that is followed. -/
theorem step (h : x.Models P lock y) (hcard : Fintype.card ι < 2 ^ 31) {m : Move Op Mem ι}
    {s' : Sync.State HeapSig Heap Op ℕ ι} (hallowed : y.Allowed P m)
    (hnext : heapSystem.next y.state m = some s') (hledger : x'.ledger = y.ledger.record y.state m)
    (hfollows : heapSplitting.Ready x'.ledger.Spares s' →
      heapSplitting.Follows x'.ledger.Spares x'.state s') :
  ∃ y', Models P lock x' y' ∧ Steps.Reaches Shared.Next (Shared.Allowed P) y y'
  := by
  have hstep : y.Next m ⟨s', y.ledger.record y.state m⟩ := ⟨hnext, rfl⟩
  have hsound := h.sound.next hcard hallowed hstep
  have hguarded : ∀ i, (s'.thread i).Along fun _ => Guarded :=
    along_guarded.next h.sound.balanced (fun op => (grows_prog op).1) h.guarded hnext
  have hready := hsound.ready hguarded
  rw [← hledger] at hready
  use ⟨s', y.ledger.record y.state m⟩, ⟨hsound, hguarded, hledger, hfollows hready⟩
  exact (Steps.Reaches.refl y).step hallowed hstep

/-- What the threads do, in whatever interleaving, is what threads do that work at once. -/
theorem next (h : x.Models P lock y) (hcard : Fintype.card ι < 2 ^ 31)
    {m : Move (Op × ℕ) (ℕ × UInt8) ι} (hallowed : x.Allowed P m) (hnext : x.Next m x') :
  x.Effect x' m
    ∧ ∃ y', Models P lock x' y' ∧ Steps.Reaches Shared.Next (Shared.Allowed P) y y'
  := by
  obtain ⟨s', L'⟩ := x'
  obtain ⟨hnext, rfl⟩ : accessSystem.next x.state m = some s' ∧ L' = _ := hnext
  have hledger := h.ledger
  have hready := h.sound.ready h.guarded
  rw [← hledger] at hready
  cases m with
  | start i op =>
      obtain ⟨op, n⟩ := op
      obtain ⟨hshared, c', hstep, hfollows⟩ := h.follows.start heapSystem rfl hnext
      refine ⟨.start hshared rfl, h.step hcard ?_ hstep ?_ ?_⟩
      · cases op with
        | kmalloc size => exact hallowed
        | kfree ptr =>
            change ptr = 0 ∨ ∃ b, y.ledger.Owned b ∧ ptr = b.header + 32
            rw [← hledger]
            exact hallowed
        | krealloc ptr size => exact hallowed
      · rw [hledger]
        rfl
      · apply hfollows
        intro j a hj ha
        have hidle : (x.state.thread i).control = .idle := by
          cases System.step hnext with
          | start hidle => exact hidle
        have hne : j ≠ i := by
          rintro rfl
          exact (h.follows.place j).not_acts (by simp [hidle]) hj
        have hkept : (x.ledger.start i op).Kept j = x.ledger.Kept j := by
          funext a
          rw [Ledger.Kept, Ledger.Kept, Ledger.start_live, x.ledger.start_freeing_of_ne hne]
        change Avoids ((x.ledger.start i op).Kept j) a
        rw [hkept]
        exact ha
  | go i fuel =>
      by_cases hacts : (y.state.thread i).control.Acts
      · cases h.follows.acted heapSystem hready rfl hacts hnext with
        | access hcontrol ha hshared hfollows =>
            have hnote : x.ledger.note x.state (.go i fuel) = x.ledger := by
              simp only [Ledger.note, hcontrol]
            rw [hnote]
            exact ⟨.access ha hshared rfl, y, ⟨h.sound, h.guarded, hledger, hfollows⟩,
              Steps.Reaches.refl y⟩
        | @returned n c r k l c' hcontrol hcontrol' hact hshared hstep hshared' hfollows =>
            have hnote : x.ledger.note x.state (.go i fuel)
                = x.ledger.returned x.state.shared i c r := by
              simp only [Ledger.note, hcontrol]
            have hreturned := h.sound.inv.returned_eq_work hcontrol' hact
            rw [← hledger] at hreturned
            rw [hnote]
            refine ⟨?_, h.step hcard (m := .go i n) trivial hstep ?_ (hfollows _)⟩
            · have hthread := h.sound.inv.thread i
              rw [hcontrol'] at hthread
              cases c with
              | kmallocNoLock size => exact .kmalloc hshared rfl
              | kfreeNoLock ptr => exact .kfree hshared rfl
              | size chunk | memcpy dest src n | memset s c len => exact absurd hthread id
            · rw [Ledger.record_act hcontrol', ← hledger]
              exact hreturned
      · obtain ⟨hshared, c', hstep, -, hfollows⟩ := h.follows.goes heapSystem hacts hnext
        have hnot := fun hx => hacts ((h.follows.place i).acts hx)
        rw [x.ledger.note_of_not_acts hnot]
        refine ⟨.none hshared rfl, h.step hcard (m := .go i fuel) trivial hstep ?_
          (hfollows _ fun _ _ _ ha => ha)⟩
        rw [y.ledger.record_of_not_acts hacts, hledger]
  | spurious i =>
      obtain ⟨hshared, c', hstep, -, hfollows⟩ := h.follows.spurious heapSystem hnext
      exact ⟨.none hshared rfl, h.step hcard (m := .spurious i) trivial hstep hledger
        (hfollows _ fun _ _ _ ha => ha)⟩
  | wake i j =>
      obtain ⟨hshared, c', hstep, -, hfollows⟩ := h.follows.wake heapSystem hnext
      exact ⟨.none hshared rfl, h.step hcard (m := .wake i j) trivial hstep hledger
        (hfollows _ fun _ _ _ ha => ha)⟩
  | env w =>
      obtain ⟨a, b⟩ := w
      obtain rfl := Option.some.inj hnext
      obtain ⟨c, ⟨hc, hfree⟩, hpayload⟩ := hallowed
      refine ⟨.write rfl rfl, h.step hcard (m := .env (y.state.shared.writeByte a b).mem) ?_ rfl
        hledger fun _ => ?_⟩
      · intro a' hno
        apply if_neg
        rintro rfl
        rw [← hledger] at hno
        exact hno c ⟨hc, hfree⟩ hpayload
      · apply h.follows.outside hready (e := Heap.writeByte a b)
        intro i d _ hd
        exact commutes_writeByte b ⟨c, hc, hfree i, hpayload⟩ hd

end Interleaved.Models

/-! ### Whatever the threads do -/

/-- The heap `h` is the one after a run of the allocator by one client with the blocks of the
ledger. The free list and these blocks are intact in it, and a block that is being given back is one
of them, with one thread only. A thread that is at work on the heap has the lock, and no other
thread has it; what is left of its work does to the heap as it is what the whole work does to `h`.
When nobody has the lock, the heap is `h`. -/
structure Interleaved.Linearized (P : ℕ → Prop) (lock : BinSem) (x : Interleaved ι) (h : Heap) :
    Prop where
  run : Run P h lock x.ledger.live
  intact : (ensureInit h).Intact x.ledger.live
  freeing : ∀ i b, x.ledger.freeing i = some b →
    b ∈ x.ledger.live ∧ ∀ j, x.ledger.freeing j = some b → j = i
  locked : ∀ i, (x.state.thread i).control.Acts →
    (x.state.thread i).Holds ∧ ∀ j, (x.state.thread j).Holds → j = i
  rest : (∀ i, ¬ (x.state.thread i).Holds) → x.state.shared = h
  left : ∀ i, (x.state.thread i).control.Acts → ∃ c k p,
    (x.state.thread i).control = .run (parts c k p)
      ∧ through heapAccess p x.state.shared = heapActs c h (x.state.thread i).rounds

variable {h : Heap} {mem : Mem} {head tail start size mutexNotif : ℕ} {x x' : Interleaved ι}

/-- In every state that the threads reach they follow threads that work at once. -/
theorem Interleaved.reaches_models (hcard : Fintype.card ι < 2 ^ 31)
    (hpool : setMemoryPool (Heap.boot mem head tail) start size mutexNotif = some (h, lock))
    (hplaced : h.Placed)
    (hx : Steps.Reaches Next (Allowed P) (Interleaved.start h lock) x) :
  ∃ y, x.Models P lock y
  := by
  apply hx.invariant (I := fun x => ∃ y, x.Models P lock y)
  · rintro x m x' ⟨y, hy⟩ hallowed hnext
    obtain ⟨-, y', hy', -⟩ := hy.next hcard hallowed hnext
    exact ⟨y', hy'⟩
  · exact ⟨_, .start hpool hplaced⟩

/-- In every state that the threads reach there is a run of the allocator by one client with which
the state agrees. -/
theorem Interleaved.linearizes (hcard : Fintype.card ι < 2 ^ 31)
    (hpool : setMemoryPool (Heap.boot mem head tail) start size mutexNotif = some (h, lock))
    (hplaced : h.Placed)
    (hx : Steps.Reaches Next (Allowed P) (Interleaved.start h lock) x) :
  ∃ h', x.Linearized P lock h'
  := by
  obtain ⟨y, hy⟩ := Interleaved.reaches_models hcard hpool hplaced hx
  have hinv := hy.sound.inv
  have hplace := hy.follows.place
  obtain ⟨N, A, ht⟩ := hinv.run.ensureInit_tracks
  use y.state.shared
  constructor
  case run =>
    rw [hy.ledger]
    exact hinv.run
  case intact =>
    rw [hy.ledger]
    exact ht.intact
  case freeing =>
    rw [hy.ledger]
    intro i b hb
    use hinv.live i b hb
    intro j hj
    exact hinv.apart j i b hj hb
  case locked =>
    intro i hi
    have hholds := (hy.guarded i).holds ((hplace i).acts hi)
    use (hy.follows.holds_iff i).mpr hholds
    intro j hj
    exact hy.sound.balanced.exclusion ((hy.follows.holds_iff j).mp hj) hholds
  case rest =>
    intro hno
    apply hy.follows.still
    intro i hi
    apply hno i
    rw [hy.follows.holds_iff]
    exact (hy.guarded i).holds hi
  case left =>
    intro i hi
    have hwork := hplace i
    have hi' := hwork.acts hi
    generalize (x.state.thread i).control = u, (y.state.thread i).control = v at hwork hi' ⊢
    cases hwork with
    | same hn => exact absurd hi' hn
    | within hp _ => exact ⟨_, _, _, rfl, hp⟩

/-- The moves by which the thread `i` allocates eight bytes and writes to them, and the thread `j`
comes to the middle of `unlink` when it does so too. -/
def entersTwice (i j : ι) : List (Move (Op × ℕ) (ℕ × UInt8) ι) :=
  .start i (.kmalloc 8, 10) :: List.replicate 41 (.go i 0)
    ++ .env (4128, 171) :: .start j (.kmalloc 8, 10) :: List.replicate 13 (.go j 0)

/-- One of two threads waits to free its block, the other one is in the middle of `unlink`. -/
theorem Interleaved.linearizes_two :
  ∃ x : Interleaved (Fin 2), (x.state.thread 1).control.Acts ∧ (x.state.thread 0).Waits
    ∧ x.ledger.freeing 0 = some ⟨4096, 2, 8⟩
    ∧ ∃ h, x.Linearized (fun _ => True) ⟨7, 1, false⟩ h
  := by
  obtain ⟨x, hx, hacts, hwaits, hfreeing⟩ := Steps.exists_reaches
    (s := (Interleaved.start Heap.four ⟨7, 1, false⟩ : Interleaved (Fin 2)))
    (C := Allowed fun _ => True) Interleaved.next_of_step
    (l := entersTwice 0 1 ++ .start 0 (.kfree 4128, 10) :: List.replicate 4 (.go 0 0))
    (fun _ _ _ hm => hm)
    (Q := fun x => (x.state.thread 1).control.Acts ∧ (x.state.thread 0).Waits
      ∧ x.ledger.freeing 0 = some ⟨4096, 2, 8⟩)
    (by decide +kernel)
  use x, hacts, hwaits, hfreeing
  exact Interleaved.linearizes (by decide) Heap.four_pool Heap.four_placed hx

/-- Without the lock two threads can get the same block. -/
example :
  ((Steps.play
      (heapSplitting.system (fun size => .call (.act (.kmallocNoLock size)) .ret)
        fun (_ : Empty) h => h).next
      (fun _ _ => True)
      (.start 0 (8, 10) :: .start 1 (8, 10) :: List.replicate 27 (.go 0 0)
        ++ List.replicate 16 (.go 1 0) ++ List.replicate 9 (.go 0 0))
      (State.start Heap.four ⟨7, 1, false⟩ : State _ Heap _ ℕ (Fin 2))).any fun s =>
    match (s.thread 0).control, (s.thread 1).control with
    | .run (.ret p), .run (.ret q) => p = 4128 ∧ q = 4128
    | _, _ => false) = true
  := by decide +kernel

/-- A block that a thread owns holds what it held, and stays its own, whatever other threads do
inside the allocator, as long as nobody writes to it or gives it back. -/
theorem Interleaved.contents_kept (hcard : Fintype.card ι < 2 ^ 31)
    (hpool : setMemoryPool (Heap.boot mem head tail) start size mutexNotif = some (h, lock))
    (hplaced : h.Placed)
    (hx : Steps.Reaches Next (Allowed P) (Interleaved.start h lock) x) {b : Live}
    (hb : x.ledger.Owned b)
    (hx' : Steps.Reaches Next (fun x m => x.Allowed P m ∧ Unharmed b m) x x') :
  x'.ledger.Owned b ∧ ∀ a, b.Payload a → x'.state.shared.mem a = x.state.shared.mem a
  := by
  have hmodels := Interleaved.reaches_models hcard hpool hplaced hx
  apply hx'.stays (I := fun z => ∃ y, z.Models P lock y)
    (Q := fun z => z.ledger.Owned b
      ∧ ∀ a, b.Payload a → z.state.shared.mem a = x.state.shared.mem a)
  · rintro z m z' ⟨y, hy⟩ hm hnext
    obtain ⟨-, y', hy', -⟩ := hy.next hcard hm.1 hnext
    exact ⟨y', hy'⟩
  · rintro z m z' ⟨y, hy⟩ hheld hm hnext
    obtain ⟨heffect, -⟩ := hy.next hcard hm.1 hnext
    obtain ⟨howned, hsame⟩ := heffect.keeps hheld.1 hm.2
    use howned
    intro a ha
    rw [hsame a ha, hheld.2 a ha]
  · exact hmodels
  · exact ⟨hb, fun _ _ => rfl⟩

/-- The block of the first thread holds what it held while the second allocates a block and gives it
back. -/
theorem Interleaved.contents_kept_two :
  ∃ x x' : Interleaved (Fin 2), x.state.shared.mem 4128 = 171
    ∧ (x.state.thread 1).control.Acts ∧ (x'.state.thread 1).control.Acts
    ∧ x'.ledger.freeing 1 = some ⟨4160, 2, 8⟩ ∧ x'.ledger.Owned ⟨4096, 2, 8⟩
    ∧ ∀ a, Live.Payload ⟨4096, 2, 8⟩ a → x'.state.shared.mem a = x.state.shared.mem a
  := by
  -- the second thread gets its block, and relinks it
  let moves : List (Move (Op × ℕ) (ℕ × UInt8) (Fin 2)) :=
    List.replicate 8 (.go 1 0) ++ .start 1 (.kfree 4192, 10) :: List.replicate 12 (.go 1 0)
  obtain ⟨x, hx, hmem, hacts, howned, hplay⟩ := Steps.exists_reaches
    (s := (Interleaved.start Heap.four ⟨7, 1, false⟩ : Interleaved (Fin 2)))
    (C := Allowed fun _ => True) Interleaved.next_of_step (l := entersTwice 0 1)
    (fun _ _ _ hm => hm)
    (Q := fun x => x.state.shared.mem 4128 = 171 ∧ (x.state.thread 1).control.Acts
      ∧ x.ledger.Owned ⟨4096, 2, 8⟩
      ∧ (Steps.play step (fun x m => x.Allowed (fun _ => True) m ∧ Unharmed ⟨4096, 2, 8⟩ m)
        moves x).any (fun x => (x.state.thread 1).control.Acts
          ∧ x.ledger.freeing 1 = some ⟨4160, 2, 8⟩) = true)
    (by decide +kernel)
  obtain ⟨x', hx', hacts', hfreeing⟩ :=
    Steps.exists_reaches Interleaved.next_of_step (fun _ _ _ hm => hm) hplay
  use x, x', hmem, hacts, hacts', hfreeing
  exact Interleaved.contents_kept (by decide) Heap.four_pool Heap.four_placed hx howned hx'

end Kmalloc
