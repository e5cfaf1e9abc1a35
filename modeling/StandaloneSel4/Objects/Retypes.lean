import StandaloneSel4.Lib.World
import StandaloneSel4.Objects.Slots

/-!
# Retypes of `allocObject`

`allocObject` finds memory whenever there is some, in the first untyped that has it. When there is
none it has used up a slot all the same, so that failed calls exhaust the pool.
-/

open SeL4 Prog

namespace SeL4

/-- A kernel whose retypes succeed or not by a function of its state, of the untyped, the type and
the slot; the function gives the state after a retype that succeeds. -/
def retypeKernel {σ : Type} (retype : σ → ℕ → ObjectType → ℕ → Option σ) : World KernelSig σ
  | s, .untypedRetype untyped type slot, e, s' =>
      match retype s untyped type slot with
      | some s'' => e = Error.noError ∧ s' = s''
      | none => e ≠ Error.noError ∧ s' = s
  | s, _, _, s' => s' = s

/-- The untyped is in the list, and is no device memory. -/
def BootInfo.Usable (info : BootInfo) (untyped : ℕ) : Prop :=
  info.untyped.Contains untyped
    ∧ (info.untypedList (untyped - info.untyped.start)).isDevice = false

/-- A retype has succeeded, and so a capability has been created. -/
def creates (e : Event KernelSig) : Bool :=
  match e with
  | ⟨.untypedRetype _ _ _, x⟩ => (x : Error) = .noError
  | _ => false

/-- The kernel answers every call. -/
theorem exists_retypeKernel {σ : Type} (retype : σ → ℕ → ObjectType → ℕ → Option σ) (s : σ)
    (c : KernelCall) :
  ∃ x s', retypeKernel retype s c x s'
  := by
  cases c with
  | untypedRetype untyped type slot =>
      simp only [retypeKernel]
      split
      · exact ⟨_, _, rfl, rfl⟩
      · exact ⟨Error.rangeError, _, nofun, rfl⟩
  | mappingFailedLookupLevel => exact ⟨LookupLevel.noPT, s, rfl⟩
  | x86PageMap | x86PageUnmap | x86PageTableMap => exact ⟨Error.noError, s, rfl⟩

end SeL4

namespace InitialUntypedPool

variable {info : BootInfo} {pool pool' : InitialUntypedPool} {type : ObjectType}
  {s k left untyped : ℕ} {tr : List (Event KernelSig)} {r : Expected ℕ Error}

/-! ### Failing -/

/-- The loop of `allocObject` falls through when no retype has succeeded. -/
theorem retypeLoop_creates :
  (retypeLoop info type s left untyped).wp fun tr o =>
    ∀ r, o = .ret r → (r = none ↔ ∀ e ∈ tr, creates e = false)
  := by
  induction left generalizing untyped with
  | zero => simp [retypeLoop]
  | succ left ih =>
      rw [retypeLoop]
      split
      · apply ih
      · rw [untypedRetype_bind, wp_call]
        constructor
        · intro r hr
          cases hr
        · intro x
          by_cases hx : x = Error.noError
          · simp [hx, creates]
          · rw [if_neg hx]
            apply wp_mono ih
            intro tr o h r hr
            have hcreates : creates ⟨.untypedRetype untyped type s, x⟩ = false :=
              decide_eq_false hx
            rw [h r hr, List.forall_mem_cons, and_iff_right hcreates]

/-- With a slot, `allocObject` fails when no retype has succeeded. -/
theorem allocObject_isValid (hslot : pool.slot? info = some s)
    (h : Exec (allocObject info type pool) tr (.ret (r, pool'))) :
  r.isValid = false ↔ ∀ e ∈ tr, creates e = false
  := by
  unfold allocObject at h
  rw [getFreeSlot_some hslot] at h
  dsimp only [success] at h
  rw [if_pos rfl] at h
  obtain ⟨tr₁, ret, tr₂, hloop, hend, rfl⟩ := Exec.bind_ret h
  have hcreates := wp_iff.mp retypeLoop_creates _ _ hloop ret rfl
  obtain ⟨-, -, hret⟩ := wp_iff.mp (retypeLoop_spec _ _) _ _ hloop
  rcases hret ret rfl with rfl | rfl
  · obtain ⟨rfl, heq⟩ := hend.ret_inv
    obtain ⟨rfl, -⟩ : r = unexpected .notEnoughMemory ∧ pool' = after s := by simpa using heq
    rw [List.append_nil]
    exact iff_of_true rfl (hcreates.mp rfl)
  · obtain ⟨rfl, heq⟩ := hend.ret_inv
    obtain ⟨rfl, -⟩ : r = success s ∧ pool' = after s := by simpa using heq
    rw [List.append_nil]
    exact iff_of_false nofun fun h => absurd (hcreates.mpr h) nofun

/-- The slot after the next one is the next one only behind the last word. -/
theorem after_eq_iff (hslot : pool.slot? info = some s) :
  after s = pool ↔ pool.emptySlotPos = 0 ∧ info.empty.start = 2 ^ 64 - 1
  := by
  obtain ⟨pos⟩ := pool
  have hstart := info.empty.start_le
  have hstop := info.empty.stop_lt
  rw [after, mk.injEq]
  unfold Word.add
  rcases slot?_eq_some.mp hslot with ⟨hzero, rfl⟩ | ⟨hpos, hle, rfl⟩
  · dsimp only at hzero ⊢
    omega
  · dsimp only at hpos hle ⊢
    omega

/-- An `allocObject` that has returned is atomic on failure, exactly if it had no slot to begin
with, or did not fail since the kernel accepted a retype, or if the slots number wraps around to
the zero that it began with. -/
theorem allocObject_atomic_iff (h : Exec (allocObject info type pool) tr (.ret (r, pool'))) :
  (r.isValid = false → (∀ e ∈ tr, creates e = false) ∧ pool' = pool)
    ↔ pool.slot? info = none ∨ (∃ e ∈ tr, creates e)
      ∨ pool.emptySlotPos = 0 ∧ info.empty.start = 2 ^ 64 - 1
  := by
  rcases allocObject_inv h with ⟨hslot, rfl, rfl, rfl⟩ | ⟨s, hslot, -, rfl, -⟩
  · exact iff_of_true (fun _ => ⟨nofun, rfl⟩) (.inl hslot)
  · have hsome : ¬ pool.slot? info = none := by
      rw [hslot]
      nofun
    have hcreated : (∃ e ∈ tr, creates e) ↔ ¬ ∀ e ∈ tr, creates e = false := by simp
    rw [allocObject_isValid hslot h, after_eq_iff hslot, or_iff_right hsome, hcreated]
    tauto

/-- Two untypeds, of which the first is device memory, and four slots. -/
def twoUntypeds : BootInfo where
  empty := ⟨50, 54, by decide, by decide⟩
  untyped := ⟨30, 32, by decide, by decide⟩
  untypedList i := ⟨i.beq 0⟩

/-- When the four slots have been used up, a call fails and leaves the pool as it was. -/
theorem allocObject_noSlot_atomic :
  ∃ tr r, Exec (allocObject twoUntypeds .tcbObject ⟨55⟩) tr (.ret (r, ⟨55⟩))
    ∧ r.isValid = false ∧ ∀ e ∈ tr, creates e = false
  := by
  have hexec : Exec (allocObject twoUntypeds .tcbObject ⟨55⟩) []
      (.ret (unexpected .notEnoughMemory, ⟨55⟩)) := Exec.ret _
  exact ⟨_, _, hexec, rfl, ((allocObject_atomic_iff hexec).mpr (.inl rfl) rfl).1⟩

/-- Without any untyped the one slot of the region is used up for nothing. -/
theorem allocObject_oneSlot_not_atomic :
  ¬ ∀ tr r pool', Exec (allocObject oneSlot .tcbObject ⟨0⟩) tr (.ret (r, pool')) →
    r.isValid = false → (∀ e ∈ tr, creates e = false) ∧ pool' = ⟨0⟩
  := by
  intro h
  have hexec : Exec (allocObject oneSlot .tcbObject ⟨0⟩) []
      (.ret (unexpected .notEnoughMemory, ⟨6⟩)) := Exec.ret _
  obtain ⟨-, hpool⟩ := h _ _ _ hexec rfl
  cases hpool

/-- So many calls of `allocObject` one after the other that all have failed, and the pool then. -/
inductive Failures (info : BootInfo) (pool : InitialUntypedPool) :
    ℕ → InitialUntypedPool → Prop where
  | nil : Failures info pool 0 pool
  | call {pool' pool'' : InitialUntypedPool} {k : ℕ} {type : ObjectType}
      {tr : List (Event KernelSig)} {r : Expected ℕ Error} :
      Failures info pool k pool' →
      Exec (allocObject info type pool') tr (.ret (r, pool'')) → r.isValid = false →
      Failures info pool (k + 1) pool''

theorem slot?_eq_none :
  pool.slot? info = none ↔ pool.emptySlotPos ≠ 0 ∧ info.empty.stop < pool.emptySlotPos
  := by
  unfold slot?
  split_ifs <;> simp_all

/-- Failed calls use up the slots, one each, until there is none. -/
theorem Failures.position (h : Failures info pool k pool') (hpos : pool.emptySlotPos ≠ 0)
    (hle : pool.emptySlotPos ≤ info.empty.stop + 1) (hstop : info.empty.stop + 1 < 2 ^ 64) :
  pool'.emptySlotPos = min (pool.emptySlotPos + k) (info.empty.stop + 1)
  := by
  induction h with
  | nil => omega
  | call _ hexec _ ih =>
      rcases allocObject_inv hexec with ⟨hslot, -, -, rfl⟩ | ⟨s, hslot, -, rfl, -⟩
      · have hbehind := slot?_eq_none.mp hslot
        omega
      · rcases slot?_eq_some.mp hslot with ⟨hzero, -⟩ | ⟨-, hslot, rfl⟩
        · omega
        · rw [after, Word.add_of_lt (by omega)]
          dsimp only
          omega

/-- So any number of calls that is great enough exhausts the pool. -/
theorem Failures.exhausted (h : Failures info pool k pool') (hpos : pool.emptySlotPos ≠ 0)
    (hle : pool.emptySlotPos ≤ info.empty.stop + 1) (hstop : info.empty.stop + 1 < 2 ^ 64)
    (hk : info.empty.stop < pool.emptySlotPos + k) :
  pool'.slot? info = none
  := by
  rw [slot?_eq_none, h.position hpos hle hstop]
  omega

/-! ### Finding memory -/

section

variable {σ : Type} {retype : σ → ℕ → ObjectType → ℕ → Option σ} {K K' : σ}
  {o : Option (Expected ℕ Error × InitialUntypedPool)}

/-- The untyped is one that `allocObject` may use, and the kernel accepts the retype. -/
def Accepts (retype : σ → ℕ → ObjectType → ℕ → Option σ) (K : σ) (info : BootInfo)
    (type : ObjectType) (slot untyped : ℕ) : Prop :=
  info.Usable untyped ∧ (retype K untyped type slot).isSome

/-- The first untyped that accepts is the one the object has been made from, and there have been no
more retypes that have succeeded. -/
structure MadeFromFirst (retype : σ → ℕ → ObjectType → ℕ → Option σ) (K : σ) (info : BootInfo)
    (type : ObjectType) (slot : ℕ) (tr : List (Event KernelSig)) (K' : σ) (untyped : ℕ) : Prop where
  accepts : Accepts retype K info type slot untyped
  first : ∀ v < untyped, ¬ Accepts retype K info type slot v
  state : retype K untyped type slot = some K'
  once : tr.filter creates = [⟨.untypedRetype untyped type slot, Error.noError⟩]

/-- What the loop of `allocObject` does from an untyped on: it returns the slot from the first
untyped that accepts, or falls through when none does. -/
theorem retypeLoop_finds (hfirst : info.untyped.start ≤ untyped)
    (hend : untyped + left = info.untyped.stop)
    (hbefore : ∀ v < untyped, ¬ Accepts retype K info type s v) :
  (retypeLoop info type s left untyped).wpIn (retypeKernel retype) K fun tr o K' =>
    (∀ e ∈ tr, ∃ u x, e = ⟨.untypedRetype u type s, x⟩ ∧ info.Usable u)
      ∧ (o = some (some (success s)) ∧ (∃ u, MadeFromFirst retype K info type s tr K' u)
        ∨ o = some none ∧ (∀ v, ¬ Accepts retype K info type s v) ∧ K' = K)
  := by
  induction left generalizing untyped with
  | zero =>
      refine ⟨List.forall_mem_nil _, .inr ⟨rfl, ?_, rfl⟩⟩
      intro v hv
      have hlt := hv.1.1.2
      exact hbefore v (by omega) hv
  | succ left ih =>
      rw [retypeLoop]
      split
      · rename_i hdevice
        have hnot : ¬ Accepts retype K info type s untyped := by
          intro haccepts
          rw [haccepts.1.2] at hdevice
          cases hdevice
        apply ih (by omega) (by omega) (Nat.forall_lt_succ_right.mpr ⟨hbefore, hnot⟩)
      · rename_i hdevice
        have husable : info.Usable untyped := ⟨⟨hfirst, by omega⟩, by simpa using hdevice⟩
        rw [untypedRetype_bind, wpIn_call]
        intro x K₁ hanswer
        simp only [retypeKernel] at hanswer
        cases hretype : retype K untyped type s with
        | some K₂ =>
            rw [hretype] at hanswer
            obtain ⟨rfl, rfl⟩ := hanswer
            rw [if_pos rfl]
            refine ⟨?_, .inl ⟨rfl, untyped, ⟨husable, by rw [hretype]; rfl⟩, hbefore, hretype, rfl⟩⟩
            exact List.forall_mem_singleton.mpr ⟨untyped, _, rfl, husable⟩
        | none =>
            have hnot : ¬ Accepts retype K info type s untyped := by
              intro haccepts
              have hsome := haccepts.2
              rw [hretype] at hsome
              cases hsome
            have hbefore' := Nat.forall_lt_succ_right.mpr ⟨hbefore, hnot⟩
            rw [hretype] at hanswer
            obtain ⟨herror, rfl⟩ := hanswer
            rw [if_neg herror]
            have hcreates : creates ⟨.untypedRetype untyped type s, x⟩ = false :=
              decide_eq_false herror
            apply wpIn_mono (ih (by omega) (by omega) hbefore')
            rintro tr o K' ⟨htr, hret⟩
            refine ⟨List.forall_mem_cons.mpr ⟨⟨untyped, x, rfl, husable⟩, htr⟩, ?_⟩
            rcases hret with ⟨ho, u, hmade⟩ | hnone
            · refine .inl ⟨ho, u, hmade.accepts, hmade.first, hmade.state, ?_⟩
              rw [List.filter_cons_of_neg (by rw [hcreates]; exact Bool.false_ne_true), hmade.once]
            · exact .inr hnone

/-- With a slot `allocObject` finds memory whenever there is some: it succeeds exactly if some
untyped of the list that is no device memory accepts the retype. Then there has been one retype that
has succeeded, into the slot that is returned, from the first untyped that accepts. No retype is
made of device memory. -/
theorem allocObject_finds (hslot : pool.slot? info = some s)
    (h : Runs (retypeKernel retype) K (allocObject info type pool) tr o K') :
  ∃ r, o = some (r, after s)
    ∧ (r.isValid ↔ ∃ u, Accepts retype K info type s u)
    ∧ (r.isValid → r.value = s ∧ ∃ u, MadeFromFirst retype K info type s tr K' u)
    ∧ ∀ e ∈ tr, ∃ u x, e = ⟨.untypedRetype u type s, x⟩ ∧ info.Usable u
  := by
  have hwp : (allocObject info type pool).wpIn (retypeKernel retype) K fun tr o K' =>
      ∃ r, o = some (r, after s)
        ∧ (r.isValid ↔ ∃ u, Accepts retype K info type s u)
        ∧ (r.isValid → r.value = s ∧ ∃ u, MadeFromFirst retype K info type s tr K' u)
        ∧ ∀ e ∈ tr, ∃ u x, e = ⟨.untypedRetype u type s, x⟩ ∧ info.Usable u := by
    have hend := Nat.add_sub_cancel' info.untyped.start_le
    have hbefore : ∀ v < info.untyped.start, ¬ Accepts retype K info type s v :=
      fun v hv haccepts => Nat.not_lt.mpr haccepts.1.1.1 hv
    unfold allocObject
    rw [getFreeSlot_some hslot]
    dsimp only [success]
    rw [if_pos rfl]
    apply wpIn_bind
    apply wpIn_mono (retypeLoop_finds (Nat.le_refl _) hend hbefore)
    rintro tr o K' ⟨htr, ⟨rfl, u, hmade⟩ | ⟨rfl, hnone, rfl⟩⟩
    · rw [← List.append_nil tr] at hmade htr
      exact ⟨success s, rfl, iff_of_true rfl ⟨u, hmade.accepts⟩, fun _ => ⟨rfl, u, hmade⟩, htr⟩
    · rw [← List.append_nil tr] at htr
      exact ⟨unexpected .notEnoughMemory, rfl, iff_of_false nofun fun ⟨u, hu⟩ => hnone u hu, nofun,
        htr⟩
  exact wpIn_iff.mp hwp tr o K' h

/-- A kernel that accepts every retype makes the TCB from the untyped that is no device memory. -/
theorem allocObject_twoUntypeds_finds :
  ∃ tr o K', Runs (retypeKernel fun _ _ _ _ => some ()) ()
      (allocObject twoUntypeds .tcbObject ⟨0⟩) tr o K'
    ∧ ∃ r, o = some (r, after 50)
      ∧ (r.isValid ↔ ∃ u, Accepts (fun _ _ _ _ => some ()) () twoUntypeds .tcbObject 50 u)
      ∧ (r.isValid → r.value = 50 ∧ ∃ u,
          MadeFromFirst (fun _ _ _ _ => some ()) () twoUntypeds .tcbObject 50 tr K' u)
      ∧ ∀ e ∈ tr, ∃ u x, e = ⟨.untypedRetype u .tcbObject 50, x⟩ ∧ twoUntypeds.Usable u
  := by
  obtain ⟨tr, o, K', hruns⟩ := exists_runs (exists_retypeKernel fun _ _ _ _ => some ())
    (allocObject twoUntypeds .tcbObject ⟨0⟩) ()
  exact ⟨tr, o, K', hruns, allocObject_finds rfl hruns⟩

end

end InitialUntypedPool
