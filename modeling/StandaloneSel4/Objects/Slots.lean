import StandaloneSel4.Objects.Pool

/-!
# Slots are handed out once

A run of the pool is any sequence of calls of `getFreeSlot`, `allocObject`, `releaseSlot`
and `releaseObject`, under any answers of the kernel. While every call that takes a slot
finds one left in the region, the slots of a run lie in the region and differ from call to
call.
-/

open SeL4 Prog

namespace InitialUntypedPool

/-- A call of the pool. -/
inductive Op where
  | getFreeSlot
  | allocObject (type : ObjectType)
  | releaseSlot (pos : ℕ)
  | releaseObject (obj : ℕ)

/-- The call takes a slot. -/
def Op.Takes : Op → Prop
  | .getFreeSlot | .allocObject _ => True
  | .releaseSlot _ | .releaseObject _ => False

/-- What is returned as a success. -/
def handed (r : Expected ℕ Error) : Option ℕ :=
  if r.isValid then some r.value else none

/-- The program of a call. It returns the slot that is returned as a success. -/
def Op.prog (info : BootInfo) : Op → InitialUntypedPool → Kernel (Option ℕ × InitialUntypedPool)
  | .getFreeSlot, pool =>
      let (r, pool) := InitialUntypedPool.getFreeSlot info pool
      return (handed r, pool)
  | .allocObject type, pool => do
      let (r, pool) ← InitialUntypedPool.allocObject info type pool
      return (handed r, pool)
  | .releaseSlot pos, pool => return (none, InitialUntypedPool.releaseSlot pos pool)
  | .releaseObject obj, pool => return (none, InitialUntypedPool.releaseObject obj pool)

/-- A call that was made: its system calls and the slot it returned as a success. -/
structure Made where
  trace : List (Event KernelSig)
  returned : Option ℕ

/-- The slots that a call returned as a success or made retypes into. -/
def Made.slots (c : Made) : List ℕ :=
  c.returned.toList ++ c.trace.filterMap retypeSlot

/-- The pool and the calls, the last one first, after a run of calls that meet the
condition `C`. -/
inductive Run (info : BootInfo) (C : Op → InitialUntypedPool → Prop) :
    InitialUntypedPool → List Made → Prop where
  | nil : Run info C ⟨0⟩ []
  | call {pool pool' : InitialUntypedPool} {l : List Made} {op : Op}
      {tr : List (Event KernelSig)} {returned : Option ℕ} :
      Run info C pool l → C op pool →
      Exec (op.prog info pool) tr (.ret (returned, pool')) →
      Run info C pool' (⟨tr, returned⟩ :: l)

variable {info : BootInfo} {pool pool' : InitialUntypedPool} {op : Op}
  {tr : List (Event KernelSig)} {returned : Option ℕ}

/-- A call changes nothing and uses no slot, or it takes the next slot and uses no
other. -/
theorem Op.exec (h : Exec (op.prog info pool) tr (.ret (returned, pool'))) :
  (pool' = pool ∧ (⟨tr, returned⟩ : Made).slots = [])
    ∨ ∃ s, op.Takes ∧ pool.slot? info = some s ∧ pool' = after s
        ∧ ∀ x ∈ (⟨tr, returned⟩ : Made).slots, x = s
  := by
  cases op with
  | getFreeSlot =>
      simp only [Op.prog, pure_def] at h
      obtain ⟨rfl, heq⟩ := h.ret_inv
      obtain ⟨rfl, rfl⟩ : returned = handed (InitialUntypedPool.getFreeSlot info pool).1
          ∧ pool' = (InitialUntypedPool.getFreeSlot info pool).2 := by
        simpa using heq
      cases hs : pool.slot? info with
      | none =>
          left
          rw [getFreeSlot_none hs]
          exact ⟨rfl, rfl⟩
      | some s =>
          right
          rw [getFreeSlot_some hs]
          exact ⟨s, trivial, rfl, rfl, by simp [Made.slots, handed, success]⟩
  | allocObject type =>
      obtain ⟨tr₁, ⟨r, pool₁⟩, tr₂, h₁, h₂, rfl⟩ := Exec.bind_ret h
      obtain ⟨rfl, heq⟩ := h₂.ret_inv
      obtain ⟨rfl, rfl⟩ : returned = handed r ∧ pool' = pool₁ := by
        simpa using heq
      rw [List.append_nil]
      rcases allocObject_inv h₁ with ⟨-, rfl, rfl, rfl⟩ | ⟨s, hs, htr, rfl, hr⟩
      · exact .inl ⟨rfl, rfl⟩
      · right
        use s, trivial, hs, rfl
        intro x hx
        rcases List.mem_append.mp hx with hx | hx
        · rcases hr with rfl | rfl
          · simpa [handed, success] using hx
          · simp [handed, unexpected] at hx
        · obtain ⟨e, he, hex⟩ := List.mem_filterMap.mp hx
          rw [htr e he] at hex
          exact (Option.some.inj hex).symm
  | releaseSlot pos =>
      obtain ⟨rfl, heq⟩ := h.ret_inv
      obtain ⟨rfl, rfl⟩ : returned = none ∧ pool' = pool := by
        simpa [InitialUntypedPool.releaseSlot] using heq
      exact .inl ⟨rfl, rfl⟩
  | releaseObject obj =>
      obtain ⟨rfl, heq⟩ := h.ret_inv
      obtain ⟨rfl, rfl⟩ : returned = none ∧ pool' = pool := by
        simpa [InitialUntypedPool.releaseObject] using heq
      exact .inl ⟨rfl, rfl⟩

/-- The region has a slot left. -/
def SlotLeft (info : BootInfo) (pool : InitialUntypedPool) : Prop :=
  if pool.emptySlotPos = 0 then info.empty.start < info.empty.stop
  else pool.emptySlotPos ≠ info.empty.stop

/-- The position of the pool is behind all slots of the calls made, and not behind the
region. -/
structure Behind (info : BootInfo) (pool : InitialUntypedPool) (l : List Made) : Prop where
  pos : pool.emptySlotPos = 0 ∨
    info.empty.start < pool.emptySlotPos ∧ pool.emptySlotPos ≤ info.empty.stop
  slots : ∀ c ∈ l, ∀ s ∈ c.slots, info.empty.start ≤ s ∧ s < pool.emptySlotPos
  distinct : l.Pairwise (fun c d => ∀ s ∈ c.slots, s ∉ d.slots)

/-- The next slot is in the region and behind those of the calls made. -/
theorem Behind.slot {l : List Made} (h : Behind info pool l) {s : ℕ}
    (hleft : SlotLeft info pool) (hs : pool.slot? info = some s) :
  info.empty.Contains s ∧ pool.emptySlotPos ≤ s
  := by
  have hpos := h.pos
  unfold SlotLeft at hleft
  unfold SlotRegion.Contains
  rcases slot?_eq_some.mp hs with ⟨hzero, rfl⟩ | ⟨hne, hle, rfl⟩
  · rw [if_pos hzero] at hleft
    omega
  · rw [if_neg hne] at hleft
    omega

/-- A call that finds a slot left keeps the position behind the slots. -/
theorem Behind.call {l : List Made} (h : Behind info pool l)
    (hleft : op.Takes → SlotLeft info pool)
    (hexec : Exec (op.prog info pool) tr (.ret (returned, pool'))) :
  Behind info pool' (⟨tr, returned⟩ :: l)
  := by
  rcases Op.exec hexec with ⟨rfl, hnone⟩ | ⟨s, htakes, hs, rfl, hslots⟩
  · constructor
    · exact h.pos
    · intro c hc
      rcases List.mem_cons.mp hc with rfl | hc
      · simp [hnone]
      · apply h.slots c hc
    · apply List.Pairwise.cons _ h.distinct
      simp [hnone]
  · obtain ⟨⟨hlo, hhi⟩, hbehind⟩ := h.slot (hleft htakes) hs
    have hstop := info.empty.stop_lt
    have hafter : (after s).emptySlotPos = s + 1 := Word.add_of_lt (by omega)
    constructor
    · rw [hafter]
      omega
    · intro c hc x hx
      rw [hafter]
      rcases List.mem_cons.mp hc with rfl | hc
      · obtain rfl := hslots x hx
        omega
      · have hx := h.slots c hc x hx
        omega
    · apply List.Pairwise.cons _ h.distinct
      intro c hc x hx hxc
      obtain rfl := hslots x hx
      have hx := h.slots c hc x hxc
      omega

theorem Run.behind {l : List Made}
    (hrun : Run info (fun op pool => op.Takes → SlotLeft info pool) pool l) :
  Behind info pool l
  := by
  induction hrun with
  | nil => exact ⟨.inl rfl, by simp, List.Pairwise.nil⟩
  | call _ hleft hexec ih => apply ih.call hleft hexec

/-- In a run in which every call that takes a slot finds one left, every slot that is
returned as a success or retyped into lies in the region, and no slot is used by two
calls. -/
theorem Run.slots_once {l : List Made}
    (hrun : Run info (fun op pool => op.Takes → SlotLeft info pool) pool l) :
  (∀ c ∈ l, ∀ s ∈ c.slots, info.empty.Contains s)
    ∧ l.Pairwise (fun c d => ∀ s ∈ c.slots, s ∉ d.slots)
  := by
  obtain ⟨hpos, hslots, hdistinct⟩ := hrun.behind
  constructor
  · intro c hc s hs
    have hs := hslots c hc s hs
    constructor <;> omega
  · exact hdistinct

/-- A call of `getFreeSlot` goes on with a run that has a next slot. -/
theorem Run.getFreeSlot {C : Op → InitialUntypedPool → Prop} {l : List Made}
    (hrun : Run info C pool l) (hC : C .getFreeSlot pool) {s : ℕ}
    (hs : pool.slot? info = some s) :
  Run info C (after s) (⟨[], some s⟩ :: l)
  := by
  apply Run.call hrun hC
  have hprog : Op.prog info .getFreeSlot pool = .ret (some s, after s) := by
    simp only [Op.prog, getFreeSlot_some hs]
    rfl
  rw [hprog]
  exact Exec.ret _

/-- A region with one slot, the fifth. -/
def oneSlot : BootInfo where
  empty := ⟨5, 6, by decide, by decide⟩
  untyped := ⟨0, 0, by decide, by decide⟩
  untypedList _ := ⟨false⟩

/-- A region with two slots, the fifth and the sixth, and an untyped. -/
def twoSlots : BootInfo where
  empty := ⟨5, 7, by decide, by decide⟩
  untyped := ⟨20, 21, by decide, by decide⟩
  untypedList _ := ⟨false⟩

/-- Both are handed out, the second one with a TCB in it. -/
def twoMade : List Made :=
  [⟨[⟨.untypedRetype 20 .tcbObject 6, .noError⟩], some 6⟩, ⟨[], some 5⟩]

theorem Run.twoSlots_once :
  Run twoSlots (fun op pool => op.Takes → SlotLeft twoSlots pool) (after 6) twoMade
    ∧ (∀ c ∈ twoMade, ∀ s ∈ c.slots, twoSlots.empty.Contains s)
    ∧ twoMade.Pairwise (fun c d => ∀ s ∈ c.slots, s ∉ d.slots)
  := by
  have hone : Run twoSlots (fun op pool => op.Takes → SlotLeft twoSlots pool) (after 5)
      [⟨[], some 5⟩] := by
    apply Run.nil.getFreeSlot
    · intro _
      have hlt : 5 < 7 := by decide
      exact hlt
    · rfl
  have hexec : Exec (Op.prog twoSlots (.allocObject .tcbObject) (after 5))
      [⟨.untypedRetype 20 .tcbObject 6, .noError⟩] (.ret (some 6, after 6)) :=
    Exec.call (S := KernelSig) (.untypedRetype 20 .tcbObject 6) _ Error.noError (Exec.ret _)
  have hne : 6 ≠ 7 := by decide
  have htwo := hone.call (fun _ => hne) hexec
  exact ⟨htwo, Run.slots_once htwo⟩

/-- When the one slot of the region has been handed out, the next call hands out the slot
behind the region. -/
theorem Run.oneSlot_end :
  ¬ ∀ (info : BootInfo) pool l, 0 < info.empty.start → Run info (fun _ _ => True) pool l →
      (∀ c ∈ l, ∀ s ∈ c.slots, info.empty.Contains s)
        ∧ l.Pairwise (fun c d => ∀ s ∈ c.slots, s ∉ d.slots)
  := by
  intro hall
  have hone : Run oneSlot (fun _ _ => True) (after 5) [⟨[], some 5⟩] :=
    Run.nil.getFreeSlot trivial rfl
  have htwo : Run oneSlot (fun _ _ => True) (after 6) [⟨[], some 6⟩, ⟨[], some 5⟩] :=
    hone.getFreeSlot trivial rfl
  obtain ⟨hin, -⟩ := hall oneSlot _ _ (by decide) htwo
  obtain ⟨-, hlt⟩ := hin ⟨[], some 6⟩ List.mem_cons_self 6 (by simp [Made.slots])
  exact absurd hlt (by decide)

end InitialUntypedPool
