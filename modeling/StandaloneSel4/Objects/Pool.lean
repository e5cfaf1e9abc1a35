import StandaloneSel4.Kernel
import StandaloneSel4.Word

/-!
# The pool of untyped memory

`InitialUntypedPool` hands out the capability slots of the boot info's empty region one
after the other, and makes kernel objects in them. It never takes a slot back. Every slot
handed out is inside the region, and none is handed out twice, as long as no slot is asked
for when the region has none left; then the slot behind the region is handed out.
-/

open SeL4 Prog

/-- `InitialUntypedPool`. -/
structure InitialUntypedPool where
  emptySlotPos : ℕ
  deriving DecidableEq

namespace InitialUntypedPool

/-- `getFreeSlot`. -/
def getFreeSlot (info : BootInfo) (pool : InitialUntypedPool) :
    Expected ℕ Error × InitialUntypedPool :=
  if pool.emptySlotPos = 0 then
    (success info.empty.start, ⟨Word.add info.empty.start 1⟩)
  else if info.empty.stop < pool.emptySlotPos then
    (unexpected .notEnoughMemory, pool)
  else
    (success pool.emptySlotPos, ⟨Word.add pool.emptySlotPos 1⟩)

/-- `releaseSlot`. -/
def releaseSlot (_pos : ℕ) (pool : InitialUntypedPool) : InitialUntypedPool :=
  pool

/-- `releaseObject`. -/
def releaseObject (_obj : ℕ) (pool : InitialUntypedPool) : InitialUntypedPool :=
  pool

/-- The loop of `allocObject`, from `untyped` on over as many untypeds as are left. It
leaves with the slot, or falls through when no retype has succeeded. -/
def retypeLoop (info : BootInfo) (type : ObjectType) (cslot : ℕ) :
    ℕ → ℕ → Kernel (Option (Expected ℕ Error))
  | 0, _ => return none
  | left + 1, untyped => do
      if (info.untypedList (untyped - info.untyped.start)).isDevice then
        retypeLoop info type cslot left (untyped + 1)
      else
        let error ← untypedRetype untyped type cslot
        if error = .noError then
          return some (success cslot)
        else
          retypeLoop info type cslot left (untyped + 1)

/-- `allocObject`. The error that the loop gets is another variable than the one tested
after it. -/
def allocObject (info : BootInfo) (type : ObjectType) (pool : InitialUntypedPool) :
    Kernel (Expected ℕ Error × InitialUntypedPool) := do
  let (slotOrErr, pool) := getFreeSlot info pool
  if slotOrErr.isValid then
    let cslot := slotOrErr.value
    let error := Error.notEnoughMemory
    let ret ← retypeLoop info type cslot (info.untyped.stop - info.untyped.start)
      info.untyped.start
    match ret with
    | some r => return (r, pool)
    | none =>
        if error ≠ .noError then
          return (unexpected error, pool)
        else
          return (success cslot, pool)
  else
    return (unexpected slotOrErr.error, pool)

/-! ### What one call does -/

/-- The slot that the next call hands out, if it hands one out. -/
def slot? (info : BootInfo) (pool : InitialUntypedPool) : Option ℕ :=
  if pool.emptySlotPos = 0 then some info.empty.start
  else if info.empty.stop < pool.emptySlotPos then none
  else some pool.emptySlotPos

/-- The pool after the slot `s` has been handed out. -/
def after (s : ℕ) : InitialUntypedPool :=
  ⟨Word.add s 1⟩

variable {info : BootInfo} {pool pool' : InitialUntypedPool} {type : ObjectType} {cslot : ℕ}

/-- The next slot is the first of the region, or the one at the position while that is not
behind the region's end. -/
theorem slot?_eq_some {s : ℕ} :
  pool.slot? info = some s
    ↔ pool.emptySlotPos = 0 ∧ info.empty.start = s
      ∨ pool.emptySlotPos ≠ 0 ∧ pool.emptySlotPos ≤ info.empty.stop ∧ pool.emptySlotPos = s
  := by
  unfold slot?
  split
  · simp [*]
  · split
    · simp only [reduceCtorEq, false_iff]
      omega
    · simp only [Option.some.injEq]
      omega

theorem getFreeSlot_some {s : ℕ} (h : pool.slot? info = some s) :
  getFreeSlot info pool = (success s, after s)
  := by
  unfold getFreeSlot after
  rcases slot?_eq_some.mp h with ⟨hzero, rfl⟩ | ⟨hpos, hle, rfl⟩
  · rw [if_pos hzero]
  · rw [if_neg hpos, if_neg (Nat.not_lt.mpr hle)]

theorem getFreeSlot_none (h : pool.slot? info = none) :
  getFreeSlot info pool = (unexpected .notEnoughMemory, pool)
  := by
  unfold slot? at h
  unfold getFreeSlot
  split at h
  · cases h
  · rw [if_neg ‹_›]
    split at h
    · rw [if_pos ‹_›]
    · cases h

/-- The slot that a system call makes an object in. -/
def retypeSlot (e : Event KernelSig) : Option ℕ :=
  match e.call with
  | .untypedRetype _ _ slot => some slot
  | _ => none

theorem exists_retype {e : Event KernelSig} (h : (retypeSlot e).isSome) :
  ∃ untyped type slot err, e = ⟨.untypedRetype untyped type slot, err⟩
  := by
  obtain ⟨call, err⟩ := e
  cases call with
  | untypedRetype untyped type slot => use untyped, type, slot, err
  | _ => cases h

/-- The loop of `allocObject` makes no other call than retypes into the slot, and leaves
with that slot or falls through. -/
theorem retypeLoop_spec (left untyped : ℕ) :
  (retypeLoop info type cslot left untyped).wp fun tr o =>
    (∀ e ∈ tr, retypeSlot e = some cslot) ∧ o ≠ .fail
      ∧ ∀ r, o = .ret r → r = none ∨ r = some (success cslot)
  := by
  induction left generalizing untyped with
  | zero => simp [retypeLoop]
  | succ left ih =>
      rw [retypeLoop]
      split
      · apply ih
      · rw [untypedRetype_bind, wp_call]
        constructor
        · simp
        · intro x
          split
          · simp [retypeSlot]
          · apply wp_mono (ih (untyped + 1))
            rintro tr o ⟨htr, ho⟩
            use List.forall_mem_cons.mpr ⟨rfl, htr⟩

/-- What an execution of `allocObject` does when there is a slot: it makes retypes into the
slot only, and returns the slot or `seL4_NotEnoughMemory`. The slot is used up either
way. -/
structure Allocates (s : ℕ) (tr : List (Event KernelSig))
    (o : Outcome (Expected ℕ Error × InitialUntypedPool)) : Prop where
  trace : ∀ e ∈ tr, retypeSlot e = some s
  no_fail : o ≠ .fail
  result : ∀ r pool', o = .ret (r, pool') →
    pool' = after s ∧ (r = success s ∨ r = unexpected .notEnoughMemory)

theorem allocObject_some {s : ℕ} (h : pool.slot? info = some s) :
  (allocObject info type pool).wp (Allocates s)
  := by
  unfold allocObject
  rw [getFreeSlot_some h]
  dsimp only [success]
  rw [if_pos rfl]
  apply wp_bind
  apply wp_mono (retypeLoop_spec _ _)
  rintro tr o ⟨htr, hfail, hret⟩
  have hstop : Allocates s (tr ++ []) .running := ⟨by simpa using htr, by simp, by simp⟩
  cases o with
  | ret r =>
      rcases hret r rfl with rfl | rfl
      · use ⟨by simpa using htr, by simp, by rintro r pool' ⟨⟩; exact ⟨rfl, .inr rfl⟩⟩
      · use ⟨by simpa using htr, by simp, by rintro r pool' ⟨⟩; exact ⟨rfl, .inl rfl⟩⟩
  | fail => exact absurd rfl hfail
  | running => exact ⟨htr, by simp, by simp⟩

/-- When there is no slot, `allocObject` makes no system call. -/
theorem allocObject_none (h : pool.slot? info = none) :
  allocObject info type pool = .ret (unexpected .notEnoughMemory, pool)
  := by
  unfold allocObject
  rw [getFreeSlot_none h]
  rfl

/-- What an `allocObject` that has returned did. -/
theorem allocObject_inv {tr : List (Event KernelSig)} {r : Expected ℕ Error}
    (h : Exec (allocObject info type pool) tr (.ret (r, pool'))) :
  (pool.slot? info = none ∧ tr = [] ∧ r = unexpected .notEnoughMemory ∧ pool' = pool)
    ∨ ∃ s, pool.slot? info = some s ∧ (∀ e ∈ tr, retypeSlot e = some s) ∧ pool' = after s
        ∧ (r = success s ∨ r = unexpected .notEnoughMemory)
  := by
  cases hs : pool.slot? info with
  | none =>
      left
      rw [allocObject_none hs] at h
      obtain ⟨rfl, heq⟩ := h.ret_inv
      obtain ⟨rfl, rfl⟩ : r = unexpected .notEnoughMemory ∧ pool' = pool := by
        simpa using heq
      exact ⟨rfl, rfl, rfl, rfl⟩
  | some s =>
      right
      obtain ⟨htr, -, hret⟩ := wp_iff.mp (allocObject_some hs) _ _ h
      exact ⟨s, rfl, htr, hret r pool' rfl⟩

end InitialUntypedPool
