import StandaloneSel4.Objects.Pool

/-!
# The page table

`PageTable::mapPage` makes a frame and asks the kernel to map it; when the kernel misses a
page table, it makes one, has it mapped and asks again. It returns a success whenever it
returns. What it returns is true exactly when the kernel accepts the last of these
requests.
-/

open SeL4 Prog

/-- `PageTable`, with the pool it refers to. -/
structure PageTable where
  untypedPool : InitialUntypedPool
  mappedPages : ℕ
  deriving DecidableEq

namespace PageTable

/-- The function `getLevel` in `mapPage`. -/
def getLevel : LookupLevel → Kernel ℕ
  | .noPT => return 0
  | .noPD => return 1
  | .noPDPT => return 2
  | .other _ => .fail

/-- `mapPage`. The `Expected` of the new page table is passed on as a `bool`. -/
def mapPage (info : BootInfo) (vaddr : ℕ) (rights : CapRights) (pt : PageTable) :
    Kernel (Expected ℕ Error × PageTable) := do
  let (frameOrErr, pool) ← InitialUntypedPool.allocObject info .x86_4K pt.untypedPool
  if frameOrErr.isValid then
    let frame := frameOrErr.value
    let error ← x86PageMap frame vaddr rights
    if error = .failedLookup then
      let lookup ← mappingFailedLookupLevel
      let level ← getLevel lookup
      if level = 0 then
        let (newPageTable, pool) ← InitialUntypedPool.allocObject info .x86PageTableObject pool
        let error ← x86PageTableMap newPageTable.isValid.toNat vaddr
        if error = .noError then
          let _ ← x86PageMap frame vaddr rights
          return (success frame, ⟨pool, Word.add pt.mappedPages 1⟩)
        else .fail
      else .fail
    else return (success frame, ⟨pool, Word.add pt.mappedPages 1⟩)
  else .fail

/-- `unmapPage`. -/
def unmapPage (pageCap : ℕ) (pt : PageTable) : Kernel (Error × PageTable) := do
  let err ← x86PageUnmap pageCap
  if err = .noError then
    return (err, { pt with mappedPages := Word.sub pt.mappedPages 1 })
  else
    return (err, pt)

/-- `getMappedPagesCount`. -/
def getMappedPagesCount (pt : PageTable) : ℕ :=
  pt.mappedPages

/-! ### What one call does -/

/-- The system calls of a `mapPage` that has returned the frame `s`, with the answer to the
last request to map it. -/
inductive Maps (s vaddr : ℕ) (rights : CapRights) : List (Event KernelSig) → Error → Prop where
  /-- The first request was answered otherwise than by `seL4_FailedLookup`. -/
  | once {tr : List (Event KernelSig)} {e : Error} :
      (∀ a ∈ tr, (InitialUntypedPool.retypeSlot a).isSome) → e ≠ .failedLookup →
      Maps s vaddr rights (tr ++ [⟨.x86PageMap s vaddr rights, e⟩]) e
  /-- A page table was missing, and was accepted. -/
  | again {tr tr' : List (Event KernelSig)} {e : Error} (pageTable : ℕ) :
      (∀ a ∈ tr, (InitialUntypedPool.retypeSlot a).isSome) →
      (∀ a ∈ tr', (InitialUntypedPool.retypeSlot a).isSome) →
      Maps s vaddr rights
        (tr ++ ⟨.x86PageMap s vaddr rights, .failedLookup⟩ :: ⟨.mappingFailedLookupLevel, .noPT⟩
          :: (tr' ++ [⟨.x86PageTableMap pageTable vaddr, .noError⟩,
            ⟨.x86PageMap s vaddr rights, e⟩])) e

/-- A pool hands out slots from a position on: the next one, or that and the one after. -/
def Advances (info : BootInfo) (s : ℕ) (pool : InitialUntypedPool) : Prop :=
  pool = .after s
    ∨ ∃ s', (InitialUntypedPool.after s).slot? info = some s' ∧ pool = .after s'

variable {info : BootInfo} {vaddr : ℕ} {rights : CapRights} {pt pt' : PageTable}
  {tr : List (Event KernelSig)} {r : Expected ℕ Error}

theorem isSome_of_forall {s : ℕ} (h : ∀ e ∈ tr, InitialUntypedPool.retypeSlot e = some s) :
  ∀ e ∈ tr, (InitialUntypedPool.retypeSlot e).isSome
  := by
  intro e he
  rw [h e he]
  rfl

/-- What a `mapPage` that has returned did. -/
theorem mapPage_inv (h : Exec (mapPage info vaddr rights pt) tr (.ret (r, pt'))) :
  ∃ s e, pt.untypedPool.slot? info = some s ∧ r = success s ∧ Maps s vaddr rights tr e
    ∧ pt'.mappedPages = Word.add pt.mappedPages 1 ∧ Advances info s pt'.untypedPool
  := by
  unfold mapPage at h
  obtain ⟨tr₁, ⟨frameOrErr, pool⟩, tr₂, h₁, h, rfl⟩ := Exec.bind_ret h
  rcases InitialUntypedPool.allocObject_inv h₁ with
    ⟨-, -, rfl, -⟩ | ⟨s, hs, htr₁, rfl, rfl | rfl⟩
  · cases h
  · dsimp only [success] at h
    rw [if_pos rfl, x86PageMap_bind] at h
    obtain ⟨e, tr₂, rfl, h₂⟩ := h.call_inv
    split at h₂
    · rename_i he
      obtain rfl := he
      rw [mappingFailedLookupLevel_bind] at h₂
      obtain ⟨lookup, tr₃, rfl, h₃⟩ := h₂.call_inv
      cases lookup with
      | noPT =>
          change Exec (InitialUntypedPool.allocObject info .x86PageTableObject _ >>= _) tr₃ _ at h₃
          obtain ⟨tr₄, ⟨newPageTable, pool⟩, tr₅, hpt, h₄, rfl⟩ := Exec.bind_ret h₃
          dsimp only at h₄
          rw [x86PageTableMap_bind] at h₄
          obtain ⟨e', tr₆, rfl, h₅⟩ := h₄.call_inv
          split at h₅
          · rename_i he'
            obtain rfl := he'
            rw [x86PageMap_bind] at h₅
            obtain ⟨e, tr₇, rfl, h₆⟩ := h₅.call_inv
            obtain ⟨rfl, heq⟩ := h₆.ret_inv
            obtain ⟨rfl, rfl⟩ : r = success s ∧ pt' = ⟨pool, Word.add pt.mappedPages 1⟩ := by
              simpa [success] using heq
            use s, e, hs, rfl
            rcases InitialUntypedPool.allocObject_inv hpt with
              ⟨-, rfl, -, rfl⟩ | ⟨s', hs', htr₄, rfl, -⟩
            · exact ⟨.again _ (isSome_of_forall htr₁) (List.forall_mem_nil _), rfl, .inl rfl⟩
            · exact ⟨.again _ (isSome_of_forall htr₁) (isSome_of_forall htr₄), rfl,
                .inr ⟨s', hs', rfl⟩⟩
          · cases h₅
      | noPD => cases h₃
      | noPDPT => cases h₃
      | other level => cases h₃
    · rename_i he
      obtain ⟨rfl, heq⟩ := h₂.ret_inv
      obtain ⟨rfl, rfl⟩ : r = success s ∧ pt' = ⟨.after s, Word.add pt.mappedPages 1⟩ := by
        simpa [success] using heq
      exact ⟨s, e, hs, rfl, .once (isSome_of_forall htr₁) he, rfl, .inl rfl⟩
  · cases h

/-! ### What mapPage returns is true -/

/-- The answer to a request to map a page. -/
def pageMapAnswer : Event KernelSig → Option Error
  | ⟨.x86PageMap _ _ _, e⟩ => some e
  | _ => none

/-- The answer to a request to map the frame `frame` at `vaddr`. -/
def answerFor (frame vaddr : ℕ) : Event KernelSig → Option Error
  | ⟨.x86PageMap f v _, e⟩ => if f = frame ∧ v = vaddr then some e else none
  | _ => none

/-- The answer to the last request to map the frame `frame` at `vaddr`. -/
def lastPageMap (frame vaddr : ℕ) (tr : List (Event KernelSig)) : Option Error :=
  (tr.filterMap (answerFor frame vaddr)).getLast?

/-- The kernel accepts the request to map a page: at once, or when it is repeated after the
missing page table has been added. -/
def Accepts (tr : List (Event KernelSig)) : Prop :=
  tr.filterMap pageMapAnswer = [.noError] ∨ tr.filterMap pageMapAnswer = [.failedLookup, .noError]

/-- A retype is no request to map a page. -/
theorem filterMap_retypes {α : Type} {f : Event KernelSig → Option α}
    (hf : ∀ e, (InitialUntypedPool.retypeSlot e).isSome → f e = none)
    (h : ∀ e ∈ tr, (InitialUntypedPool.retypeSlot e).isSome) :
  tr.filterMap f = []
  := by
  rw [List.filterMap_eq_nil_iff]
  intro e he
  apply hf e (h e he)

theorem pageMapAnswer_retype (e : Event KernelSig)
    (h : (InitialUntypedPool.retypeSlot e).isSome) :
  pageMapAnswer e = none
  := by
  obtain ⟨_, _, _, _, rfl⟩ := InitialUntypedPool.exists_retype h
  rfl

theorem answerFor_retype (frame vaddr : ℕ) (e : Event KernelSig)
    (h : (InitialUntypedPool.retypeSlot e).isSome) :
  answerFor frame vaddr e = none
  := by
  obtain ⟨_, _, _, _, rfl⟩ := InitialUntypedPool.exists_retype h
  rfl

/-- What is so of the requests of a `mapPage` only: that of the one, or of both. -/
theorem Maps.filterMap {α : Type} {f : Event KernelSig → Option α} {s : ℕ} {e : Error}
    (hretype : ∀ a, (InitialUntypedPool.retypeSlot a).isSome → f a = none)
    (hlevel : f ⟨.mappingFailedLookupLevel, .noPT⟩ = none)
    (htable : ∀ p, f ⟨.x86PageTableMap p vaddr, .noError⟩ = none)
    (h : Maps s vaddr rights tr e) :
  (tr.filterMap f = (f ⟨.x86PageMap s vaddr rights, e⟩).toList ∧ e ≠ .failedLookup)
    ∨ tr.filterMap f = (f ⟨.x86PageMap s vaddr rights, .failedLookup⟩).toList
        ++ (f ⟨.x86PageMap s vaddr rights, e⟩).toList
  := by
  have hone : ∀ a, [a].filterMap f = (f a).toList := by
    intro a
    cases hfa : f a <;> simp [hfa]
  cases h with
  | once htr he =>
      left
      rw [List.filterMap_append, filterMap_retypes hretype htr, List.nil_append, hone]
      exact ⟨rfl, he⟩
  | again pageTable htr htr' =>
      right
      rw [List.filterMap_append, filterMap_retypes hretype htr, List.nil_append,
        ← List.singleton_append, List.filterMap_append, hone, List.filterMap_cons_none hlevel,
        List.filterMap_append, filterMap_retypes hretype htr', List.nil_append,
        List.filterMap_cons_none (htable pageTable), hone]

/-- The last answer of a `mapPage` is the one to its last request. -/
theorem Maps.last {s : ℕ} {e : Error} (h : Maps s vaddr rights tr e) :
  lastPageMap s vaddr tr = some e
  := by
  unfold lastPageMap
  rcases h.filterMap (answerFor_retype s vaddr) rfl (fun _ => rfl) with ⟨heq, -⟩ | heq
  · rw [heq]
    simp [answerFor]
  · rw [heq]
    simp [answerFor]

/-- A `mapPage` has been accepted when its last request has. -/
theorem Maps.accepts_iff {s : ℕ} {e : Error} (h : Maps s vaddr rights tr e) :
  Accepts tr ↔ e = .noError
  := by
  unfold Accepts
  rcases h.filterMap pageMapAnswer_retype rfl (fun _ => rfl) with ⟨heq, he⟩ | heq
  · rw [heq]
    simp [pageMapAnswer]
  · rw [heq]
    simp [pageMapAnswer]

/-- When `mapPage` returns, what it returns is true exactly when the kernel has accepted
the mapping: the last request to map the frame it returns at the address was answered by
`seL4_NoError`. -/
theorem mapPage_true_iff (h : Exec (mapPage info vaddr rights pt) tr (.ret (r, pt'))) :
  (r.isValid → lastPageMap r.value vaddr tr = some .noError) ↔ Accepts tr
  := by
  obtain ⟨s, e, -, rfl, hmaps, -⟩ := mapPage_inv h
  rw [hmaps.accepts_iff]
  constructor
  · intro htrue
    have hlast := htrue rfl
    rw [show (success s).value = s from rfl, hmaps.last] at hlast
    exact Option.some.inj hlast
  · rintro rfl _
    exact hmaps.last

/-- A boot info with four slots, from the fifth on, and one untyped, the third. -/
def fourSlots : BootInfo where
  empty := ⟨5, 9, by decide, by decide⟩
  untyped := ⟨3, 4, by decide, by decide⟩
  untypedList _ := ⟨false⟩

/-- A first page is mapped with the frame in the first slot, the kernel answering the
request to map it by `e`. -/
theorem mapPage_fourSlots {e : Error} (he : e ≠ .failedLookup) (vaddr : ℕ) :
  Exec (mapPage fourSlots vaddr .readWrite ⟨⟨0⟩, 0⟩)
    [⟨.untypedRetype 3 .x86_4K 5, .noError⟩, ⟨.x86PageMap 5 vaddr .readWrite, e⟩]
    (.ret (success 5, ⟨.after 5, 1⟩))
  := by
  apply Exec.call (S := KernelSig) (.untypedRetype 3 .x86_4K 5)
  apply Exec.call (S := KernelSig) (.x86PageMap 5 vaddr .readWrite)
  change Exec (S := KernelSig) (if e = .failedLookup then _ else _) _ _
  rw [if_neg he]
  exact Exec.ret _

/-- A page that is mapped at once is mapped. -/
theorem mapPage_fourSlots_true :
  lastPageMap 5 4096
      [⟨.untypedRetype 3 .x86_4K 5, .noError⟩, ⟨.x86PageMap 5 4096 .readWrite, .noError⟩]
    = some .noError
  := (mapPage_true_iff (mapPage_fourSlots (by decide) 4096)).mpr (.inl rfl) rfl

/-- When the kernel answers that the address is in use, `mapPage` returns a success. -/
theorem mapPage_fourSlots_false :
  ¬ ∀ info vaddr rights pt tr r pt', Exec (mapPage info vaddr rights pt) tr (.ret (r, pt')) →
      r.isValid → lastPageMap r.value vaddr tr = some .noError
  := by
  intro hall
  have hlast := hall _ _ _ _ _ _ _ (mapPage_fourSlots (e := .deleteFirst) (by decide) 4096) rfl
  exact absurd hlast (by decide)

end PageTable
