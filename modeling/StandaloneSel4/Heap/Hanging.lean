import StandaloneSel4.Heap.Threads
import StandaloneSel4.Sync.Hanging

/-!
# A block that grows

A `krealloc` for no less than the block has waits for the lock that it holds itself. From then on
the allocator hangs, for all threads and for good.
-/

namespace Kmalloc

open Sync Fuel Bytes

/-- When the program reads a size that is not more than the one asked for, it goes on to take the
lock. -/
def Regrows (size : ℕ) : Entry ℕ → Prop
  | .ret _ => True
  | .fail => True
  | .call .lock k => ∀ x, Regrows size (k x)
  | .call .unlock k => ∀ x, Regrows size (k x)
  | .call (.act (.size _)) k =>
      (∀ x, ¬ size < x → ∃ k', k x = .call .lock k') ∧ ∀ x, Regrows size (k x)
  | .call (.act (.kmallocNoLock _)) k => ∀ x, Regrows size (k x)
  | .call (.act (.kfreeNoLock _)) k => ∀ x, Regrows size (k x)
  | .call (.act (.memcpy _ _ _)) k => ∀ x, Regrows size (k x)
  | .call (.act (.memset _ _ _)) k => ∀ x, Regrows size (k x)

/-- What is so of the programs of the allocator from call to call: they work on the heap only under
the lock, and `krealloc` takes it again when the block is to grow. -/
def Grows (o : Option Op) (d : ℕ) (p : Entry ℕ) : Prop :=
  Guarded d p ∧ ∀ ptr size, o = some (.krealloc ptr size) → Regrows size p

theorem along_grows :
  Along Grows
  where
  lock h x := ⟨h.1 x, fun ptr size ho => h.2 ptr size ho x⟩
  unlock h x := ⟨h.1 x, fun ptr size ho => h.2 ptr size ho x⟩
  act {o d c k} h x := by
    refine ⟨h.1.2 x, fun ptr size ho => ?_⟩
    have hregrows := h.2 ptr size ho
    cases c with
    | size chunk => exact hregrows.2 x
    | kmallocNoLock size | kfreeNoLock ptr | memcpy dest src n | memset s c len =>
        exact hregrows x

/-- `kmalloc` works on the heap under the lock. -/
theorem guarded_kmalloc_bind {α : Type} {f : ℕ → Entry α} {size d : ℕ}
    (hf : ∀ r, Guarded d (f r)) :
  Guarded d (kmalloc size >>= f)
  := fun _ => ⟨Nat.succ_pos d, fun r _ => hf r⟩

theorem guarded_krealloc (ptr size : ℕ) :
  Guarded 0 (krealloc ptr size)
  := by
  intro _
  by_cases hptr : ptr = 0
  · rw [if_pos hptr]
    exact ⟨Nat.one_pos, fun _ _ => trivial⟩
  rw [if_neg hptr]
  use Nat.one_pos
  intro prevSize
  change Guarded (S := HeapSig) 1 (if size < prevSize then _ else _)
  split
  · exact fun _ => trivial
  apply guarded_kmalloc_bind
  intro newPtr
  split
  · exact fun _ => trivial
  · exact ⟨Nat.one_pos, fun _ => ⟨Nat.one_pos, fun _ => ⟨Nat.one_pos, fun _ _ => trivial⟩⟩⟩

theorem regrows_krealloc (ptr size : ℕ) :
  Regrows size (krealloc ptr size)
  := by
  intro _
  by_cases hptr : ptr = 0
  · rw [if_pos hptr]
    exact fun _ _ => trivial
  rw [if_neg hptr]
  constructor
  · intro prevSize hle
    exact ⟨_, if_neg hle⟩
  intro prevSize
  change Regrows size (if size < prevSize then _ else _)
  split
  · exact fun _ => trivial
  intro _ newPtr _
  change Regrows size (if newPtr = 0 then _ else _)
  split
  · exact fun _ => trivial
  · exact fun _ _ _ _ => trivial

/-- The programs of the allocator are so at their beginning. -/
theorem grows_prog (op : Op) :
  Grows (some op) 0 op.prog
  := by
  cases op with
  | kmalloc size =>
      refine ⟨guarded_kmalloc_bind (f := .ret) fun _ => trivial, ?_⟩
      rintro ptr size' ⟨⟩
  | kfree ptr =>
      refine ⟨fun _ => ⟨Nat.one_pos, fun _ _ => trivial⟩, ?_⟩
      rintro ptr size ⟨⟩
  | krealloc ptr size =>
      use guarded_krealloc ptr size
      rintro ptr' size' ⟨⟩
      exact regrows_krealloc ptr size

/-- And they take the lock first. -/
theorem wants_prog (op : Op) :
  (Control.run (S := HeapSig) op.prog).Wants
  := by
  cases op with
  | kmalloc size | kfree ptr | krealloc ptr size => trivial

theorem balanced_prog_twice (op : Op) :
  Balanced (fun _ _ => True) 2 0 op.prog
  := by
  cases op with
  | kmalloc size => exact balanced_kmalloc (by decide)
  | kfree ptr => exact balanced_kfree (by decide)
  | krealloc ptr size => exact balanced_krealloc (by decide) (.inl (by decide))

/-! ### Threads -/

section

variable {ι : Type} {s : Sync.State HeapSig Heap Op ℕ ι} {i : ι} {fuel : ℕ}

theorem meets_true (s : Sync.State HeapSig Heap Op ℕ ι) (m : Move Op Mem ι) :
  Meets heapSystem (fun _ _ _ => True) s m
  := by
  intro i fuel c k x shared _ _ _
  trivial

/-- A step that reads, for a `krealloc`, a size that is not more than the one asked for. -/
theorem exists_of_not_shrinks (hgrows : shrinks s (.go i fuel) = false) :
  ∃ ptr size c k, (s.thread i).op = some (.krealloc ptr size)
    ∧ (s.thread i).control = .run (.call (.act (.size c)) k)
    ∧ ¬ size < get .size s.shared.mem c
  := by
  unfold shrinks at hgrows
  dsimp only at hgrows
  split at hgrows
  · rename_i hop hcontrol
    exact ⟨_, _, _, _, hop, hcontrol, of_decide_eq_false hgrows⟩
  · cases hgrows

end

variable {ι : Type} [Fintype ι] [DecidableEq ι] {h₀ h : Heap} {start size mutexNotif fuel : ℕ}
  {lock : BinSem} {s s₁ s₂ s' : Sync.State HeapSig Heap Op ℕ ι} {i : ι}

/-- What is so in every state that the threads reach. -/
theorem reaches_grows (hcard : Fintype.card ι < 2 ^ 31)
    (hpool : setMemoryPool h₀ start size mutexNotif = some (h, lock))
    (hs : heapSystem.Reaches (fun _ _ => True) (Sync.State.start h lock) s) :
  Inv (fun _ _ _ => True) 2 s ∧ ∀ j, (s.thread j).Along Grows
  := by
  rw [setMemoryPool_lock hpool] at hs
  induction hs with
  | refl => exact ⟨Inv.start h mutexNotif, fun _ => trivial⟩
  | step _ _ hnext ih =>
      obtain ⟨hinv, hgrows⟩ := ih
      use hinv.next hcard balanced_prog_twice (meets_true _ _) hnext
      exact along_grows.next hinv grows_prog hgrows hnext

/-- A thread that reads such a size waits for itself then. -/
theorem hangs_of_not_shrinks (hcard : Fintype.card ι < 2 ^ 31)
    (hinv : Inv (fun _ _ _ => True) 2 s) (halong : ∀ j, (s.thread j).Along Grows)
    (hgrows : shrinks s (.go i fuel) = false)
    (hnext : heapSystem.next s (.go i fuel) = some s') :
  Hangs (fun _ _ _ => True) 2 s' i
  := by
  obtain ⟨ptr, size, c, k, hop, hcontrol, hle⟩ := exists_of_not_shrinks hgrows
  have hinv' := hinv.next hcard balanced_prog_twice (meets_true _ _) hnext
  have halong' := along_grows.next hinv grows_prog halong hnext
  have hi := halong i
  rw [Thread.Along, hop, hcontrol] at hi
  obtain ⟨⟨hheld, -⟩, hregrows⟩ := hi
  obtain ⟨k', hk'⟩ := (hregrows ptr size rfl).1 _ hle
  have hthread : s'.thread i = (s.thread i).goto (.run (k (get .size s.shared.mem c))) := by
    simp only [System.next, System.go, hcontrol, System.call, heapSystem, heapActs] at hnext
    obtain rfl := Option.some.inj hnext
    apply State.set_thread
  refine ⟨hinv', fun j => (halong' j).mono And.left, ?_, ?_⟩
  · rw [hthread]
    exact Nat.lt_of_sub_pos hheld
  · rw [hthread, Thread.Wants, Thread.goto, hk']
    trivial

/-- As soon as a `krealloc` has read that the block has no more than it is to have, the allocator
hangs, whatever the threads do: no thread gets the lock again, none works on the heap, those that
want the lock go on to want it for the same operation, and so does every one that begins an
operation later. -/
theorem krealloc_hangs (hcard : Fintype.card ι < 2 ^ 31)
    (hpool : setMemoryPool h₀ start size mutexNotif = some (h, lock))
    (hs : heapSystem.Reaches (fun _ _ => True) (Sync.State.start h lock) s)
    (hgrows : shrinks s (.go i fuel) = false)
    (hnext : heapSystem.next s (.go i fuel) = some s₁)
    (hs' : heapSystem.Reaches (fun _ _ => True) s₁ s') :
  (∀ j, (s'.thread j).acquired = (s₁.thread j).acquired)
    ∧ (∀ j, (s'.thread j).Wants ∨ (s'.thread j).Off)
    ∧ (∀ j, (s₁.thread j).Wants →
      (s'.thread j).Wants ∧ (s'.thread j).op = (s₁.thread j).op)
    ∧ (∀ m s₂, (∀ mem, m ≠ .env mem) → heapSystem.next s' m = some s₂ → s₂.shared = s'.shared)
    ∧ ∀ j op s₂ s₃, heapSystem.next s' (.start j op) = some s₂ →
      heapSystem.Reaches (fun _ _ => True) s₂ s₃ →
        (s₃.thread j).Wants ∧ (s₃.thread j).op = some op
  := by
  obtain ⟨hinv, halong⟩ := reaches_grows hcard hpool hs
  have hguarded : ∀ op : Op, Guarded 0 op.prog := fun op => (grows_prog op).1
  obtain ⟨hhangs, hthreads⟩ := (hangs_of_not_shrinks hcard hinv halong hgrows hnext).reaches hcard
    balanced_prog_twice hguarded (fun _ _ _ => meets_true _ _) hs'
  refine ⟨fun j => (hthreads j).1, hhangs.wants_or_off, fun j => (hthreads j).2,
    fun m s₂ hm hnext₂ => (hhangs.stays hcard hnext₂).2 hm, ?_⟩
  intro j op s₂ s₃ hnext₂ hs₃
  have hthread : s₂.thread j = { s'.thread j with control := .run op.prog, op := some op } := by
    simp only [System.next, heapSystem] at hnext₂
    split at hnext₂
    · obtain rfl := Option.some.inj hnext₂
      apply State.set_thread
    · cases hnext₂
  have hhangs₂ := hhangs.next hcard balanced_prog_twice hguarded (meets_true _ _) hnext₂
  obtain ⟨-, hlater⟩ := hhangs₂.reaches hcard balanced_prog_twice hguarded
    (fun _ _ _ => meets_true _ _) hs₃
  have hwants : (s₂.thread j).Wants := by
    rw [Thread.Wants, hthread]
    exact wants_prog op
  obtain ⟨hwants₃, hop⟩ := (hlater j).2 hwants
  use hwants₃
  rw [hop, hthread]

/-- The first of two threads allocates eight bytes and asks `krealloc` for sixteen, and the second
waits for the lock to allocate. -/
theorem krealloc_hangs_two :
  ∃ s₁ s' : Sync.State HeapSig Heap Op ℕ (Fin 2),
    ((s'.thread 0).Holds ∧ (s'.thread 1).Waits)
    ∧ (∀ j, (s'.thread j).acquired = (s₁.thread j).acquired)
    ∧ (∀ j, (s'.thread j).Wants ∨ (s'.thread j).Off)
    ∧ (∀ j, (s₁.thread j).Wants →
      (s'.thread j).Wants ∧ (s'.thread j).op = (s₁.thread j).op)
    ∧ (∀ m s₂, (∀ mem, m ≠ .env mem) → heapSystem.next s' m = some s₂ → s₂.shared = s'.shared)
    ∧ ∀ j op s₂ s₃, heapSystem.next s' (.start j op) = some s₂ →
      heapSystem.Reaches (fun _ _ => True) s₂ s₃ →
        (s₃.thread j).Wants ∧ (s₃.thread j).op = some op
  := by
  obtain ⟨s, hs, hgrows, hplay⟩ := heapSystem.exists_reaches (ι := Fin 2)
    (C := fun _ _ => True) (s := Sync.State.start Heap.four ⟨7, 1, false⟩)
    (P := fun s => shrinks s (.go 0 0) = false
      ∧ ((heapSystem.next s (.go 0 0)).any fun s => (heapSystem.play (fun _ _ => True)
        (.start 1 (.kmalloc 8) :: takesLock 1) s).any fun s =>
          (s.thread 0).Holds ∧ (s.thread 1).Waits) = true)
    (l := allocates 0 ++ .start 0 (.krealloc 4128 16) :: takesLock 0)
    (by decide +kernel)
  obtain ⟨s₁, hnext, hplay⟩ := (Option.any_eq_true _ _).mp hplay
  obtain ⟨s', hs', hwaits⟩ := heapSystem.exists_reaches (C := fun _ _ => True)
    (P := fun s => (s.thread 0).Holds ∧ (s.thread 1).Waits) hplay
  use s₁, s', hwaits
  exact krealloc_hangs (by decide) Heap.four_pool hs hgrows hnext hs'

end Kmalloc
