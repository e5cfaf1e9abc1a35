import StandaloneSel4.Objects.PageTable
import Mathlib.Algebra.Group.Nat.Defs
import Mathlib.Data.Finset.Card
import Mathlib.Data.Finset.Range

/-!
# The count of mapped pages

The frames that are mapped are those for which the kernel has accepted a request to map
them and none to unmap them since. The count of the page table is their number as long as
every `mapPage` is accepted and every `unmapPage` is for a frame that is mapped. It is too
large after a `mapPage` that was refused, and too small, down to wrapping around, after an
`unmapPage` that is repeated.
-/

open SeL4 Prog

namespace PageTable

/-- The frames that are mapped after a system call: the kernel maps and unmaps a frame
when it answers so by `seL4_NoError`. -/
def mappedStep (M : Finset ℕ) : Event KernelSig → Finset ℕ
  | ⟨.x86PageMap frame _ _, e⟩ => if e = .noError then insert frame M else M
  | ⟨.x86PageUnmap frame, e⟩ => if e = .noError then M.erase frame else M
  | _ => M

/-- The frames that are mapped after some system calls. -/
def mappedAfter (M : Finset ℕ) (tr : List (Event KernelSig)) : Finset ℕ :=
  tr.foldl mappedStep M

/-- A call of the page table, as it is about to be made or was made: the condition on a
`mapPage` is one on the kernel's answers, that on an `unmapPage` one on its argument. -/
structure Condition where
  mapPage : List (Event KernelSig) → Prop
  unmapPage : Finset ℕ → ℕ → Prop

/-- The page table, the frames that are mapped and the frames returned, after a run of
`mapPage` and of `unmapPage` for frames returned, whose calls meet the condition. The
kernel answers a request to unmap a frame that is not mapped by `seL4_NoError`. -/
inductive Run (info : BootInfo) (C : Condition) : PageTable → Finset ℕ → List ℕ → Prop where
  | init (pool : InitialUntypedPool) : Run info C ⟨pool, 0⟩ ∅ []
  | mapPage {pt pt' : PageTable} {M : Finset ℕ} {frames : List ℕ} {vaddr : ℕ}
      {rights : CapRights} {tr : List (Event KernelSig)} {r : Expected ℕ Error} :
      Run info C pt M frames →
      Exec (PageTable.mapPage info vaddr rights pt) tr (.ret (r, pt')) → C.mapPage tr →
      Run info C pt' (mappedAfter M tr) (r.value :: frames)
  | unmapPage {pt pt' : PageTable} {M : Finset ℕ} {frames : List ℕ} {frame : ℕ}
      {tr : List (Event KernelSig)} {err : Error} :
      Run info C pt M frames → frame ∈ frames →
      Exec (PageTable.unmapPage frame pt) tr (.ret (err, pt')) →
      (frame ∉ M → err = .noError) → C.unmapPage M frame →
      Run info C pt' (mappedAfter M tr) frames

/-- Every `mapPage` is accepted by the kernel, and every `unmapPage` is for a frame that is
mapped. -/
def inStep : Condition where
  mapPage := Accepts
  unmapPage M frame := frame ∈ M

variable {info : BootInfo} {pt pt' : PageTable} {M : Finset ℕ} {tr : List (Event KernelSig)}

/-- Retypes map no frame. -/
theorem mappedAfter_retypes (h : ∀ e ∈ tr, (InitialUntypedPool.retypeSlot e).isSome) :
  mappedAfter M tr = M
  := by
  unfold mappedAfter
  induction tr with
  | nil => rfl
  | cons e tr ih =>
      have hstep : mappedStep M e = M := by
        obtain ⟨_, _, _, _, rfl⟩ := InitialUntypedPool.exists_retype (h e List.mem_cons_self)
        rfl
      rw [List.foldl_cons, hstep]
      apply ih
      intro a ha
      apply h a (List.mem_cons_of_mem e ha)

theorem mappedAfter_cons (M : Finset ℕ) (e : Event KernelSig) (tr : List (Event KernelSig)) :
  mappedAfter M (e :: tr) = mappedAfter (mappedStep M e) tr
  := rfl

theorem mappedAfter_append (M : Finset ℕ) (tr tr' : List (Event KernelSig)) :
  mappedAfter M (tr ++ tr') = mappedAfter (mappedAfter M tr) tr'
  := List.foldl_append

/-- A `mapPage` whose last request is accepted maps its frame and no other. -/
theorem Maps.mappedAfter {s vaddr : ℕ} {rights : CapRights}
    (h : Maps s vaddr rights tr .noError) :
  PageTable.mappedAfter M tr = insert s M
  := by
  generalize he : Error.noError = e at h
  cases h with
  | once htr _ =>
      subst he
      rw [mappedAfter_append, mappedAfter_retypes htr]
      rfl
  | again pageTable htr htr' =>
      subst he
      rw [mappedAfter_append, mappedAfter_retypes htr, mappedAfter_cons, mappedAfter_cons,
        mappedAfter_append]
      have hskip : mappedStep (mappedStep M ⟨.x86PageMap s vaddr rights, .failedLookup⟩)
          ⟨.mappingFailedLookupLevel, .noPT⟩ = M := rfl
      rw [hskip, mappedAfter_retypes htr']
      rfl

/-- What an `unmapPage` that has returned did. -/
theorem unmapPage_inv {frame : ℕ} {err : Error}
    (h : Exec (unmapPage frame pt) tr (.ret (err, pt'))) :
  tr = [⟨.x86PageUnmap frame, err⟩]
    ∧ pt' = if err = .noError then { pt with mappedPages := Word.sub pt.mappedPages 1 } else pt
  := by
  unfold unmapPage at h
  rw [x86PageUnmap_bind] at h
  obtain ⟨e, tr', rfl, h₂⟩ := h.call_inv
  split at h₂
  · rename_i he
    obtain ⟨rfl, heq⟩ := h₂.ret_inv
    obtain ⟨rfl, rfl⟩ : err = e ∧ pt' = { pt with mappedPages := Word.sub pt.mappedPages 1 } := by
      simpa using heq
    rw [if_pos he]
    exact ⟨rfl, rfl⟩
  · rename_i he
    obtain ⟨rfl, heq⟩ := h₂.ret_inv
    obtain ⟨rfl, rfl⟩ : err = e ∧ pt' = pt := by
      simpa using heq
    rw [if_neg he]
    exact ⟨rfl, rfl⟩

/-- The count is the number of the frames that are mapped, and the position of the pool is
behind them. -/
structure Counts (pt : PageTable) (M : Finset ℕ) : Prop where
  count : pt.mappedPages = M.card
  small : M.card < 2 ^ 64
  behind : ∀ s ∈ M, s < pt.untypedPool.emptySlotPos

/-- The position of the pool is behind the next slot once that has been handed out. -/
theorem Advances.lt {s : ℕ} {pool : InitialUntypedPool} (hstop : info.empty.stop < 2 ^ 64 - 1)
    (hs : s ≤ info.empty.stop) (h : Advances info s pool) :
  s < pool.emptySlotPos
  := by
  have hafter : (InitialUntypedPool.after s).emptySlotPos = s + 1 := Word.add_of_lt (by omega)
  rcases h with rfl | ⟨s', hs', rfl⟩
  · omega
  · rcases InitialUntypedPool.slot?_eq_some.mp hs' with ⟨hzero, -⟩ | ⟨-, hle, rfl⟩
    · omega
    · rw [hafter] at hle ⊢
      have hafter' : (InitialUntypedPool.after (s + 1)).emptySlotPos = s + 1 + 1 :=
        Word.add_of_lt (by omega)
      omega

/-- The next slot is not behind the region's end, and is that of no frame that is
mapped. -/
theorem Counts.slot (h : Counts pt M) {s : ℕ} (hs : pt.untypedPool.slot? info = some s) :
  s ≤ info.empty.stop ∧ ∀ f ∈ M, f < s
  := by
  rcases InitialUntypedPool.slot?_eq_some.mp hs with ⟨hzero, rfl⟩ | ⟨-, hle, rfl⟩
  · use info.empty.start_le
    intro f hf
    have hf := h.behind f hf
    omega
  · exact ⟨hle, h.behind⟩

/-- A `mapPage` that is accepted keeps the count. -/
theorem Counts.mapPage (h : Counts pt M) (hstop : info.empty.stop < 2 ^ 64 - 1) {vaddr : ℕ}
    {rights : CapRights} {r : Expected ℕ Error}
    (hexec : Exec (mapPage info vaddr rights pt) tr (.ret (r, pt'))) (haccepts : Accepts tr) :
  Counts pt' (mappedAfter M tr)
  := by
  obtain ⟨s, e, hs, rfl, hmaps, hcount, hpool⟩ := mapPage_inv hexec
  obtain rfl := hmaps.accepts_iff.mp haccepts
  obtain ⟨hle, hbelow⟩ := h.slot hs
  have hlt := hpool.lt hstop hle
  have hnot : s ∉ M := by
    intro hin
    have hin := hbelow s hin
    omega
  have hcard : M.card ≤ s := by
    have hsub : M ⊆ Finset.range s := by
      intro f hf
      rw [Finset.mem_range]
      apply hbelow f hf
    have hle := Finset.card_le_card hsub
    rwa [Finset.card_range] at hle
  rw [hmaps.mappedAfter]
  constructor
  · rw [hcount, h.count, Word.add_of_lt (by omega), Finset.card_insert_of_notMem hnot]
  · rw [Finset.card_insert_of_notMem hnot]
    omega
  · intro f hf
    rcases Finset.mem_insert.mp hf with rfl | hf
    · exact hlt
    · have hf := hbelow f hf
      omega

/-- An `unmapPage` of a frame that is mapped keeps the count. -/
theorem Counts.unmapPage (h : Counts pt M) {frame : ℕ} {err : Error} (hframe : frame ∈ M)
    (hexec : Exec (unmapPage frame pt) tr (.ret (err, pt'))) :
  Counts pt' (mappedAfter M tr)
  := by
  obtain ⟨rfl, rfl⟩ := unmapPage_inv hexec
  have hpos : 0 < M.card := Finset.card_pos.mpr ⟨frame, hframe⟩
  simp only [mappedAfter, List.foldl_cons, List.foldl_nil, mappedStep]
  split
  · constructor
    · simp only [h.count]
      rw [Word.sub_of_le h.small hpos, Finset.card_erase_of_mem hframe]
    · have hsmall := h.small
      rw [Finset.card_erase_of_mem hframe]
      omega
    · intro s hs
      apply h.behind s (Finset.mem_of_mem_erase hs)
  · exact h

/-- In a run in which every `mapPage` is accepted and every `unmapPage` is for a frame that
is mapped, the count is the number of the frames that are mapped. -/
theorem Run.count {frames : List ℕ} (hstop : info.empty.stop < 2 ^ 64 - 1)
    (hrun : Run info inStep pt M frames) :
  getMappedPagesCount pt = M.card
  := by
  have hcounts : Counts pt M := by
    induction hrun with
    | init pool => exact ⟨rfl, by decide, by simp⟩
    | mapPage _ hexec haccepts ih => apply ih.mapPage hstop hexec haccepts
    | unmapPage _ _ hexec _ hframe ih => apply ih.unmapPage hframe hexec
  exact hcounts.count

/-- A run that maps a page. -/
theorem Run.fourSlots_map {C : Condition}
    (hC : C.mapPage [⟨.untypedRetype 3 .x86_4K 5, .noError⟩,
      ⟨.x86PageMap 5 4096 .readWrite, .noError⟩]) :
  Run fourSlots C ⟨.after 5, 1⟩ {5} [5]
  := (Run.init ⟨0⟩).mapPage (mapPage_fourSlots (by decide) 4096) hC

/-- The kernel unmaps the fifth frame. -/
theorem unmapPage_five (pool : InitialUntypedPool) (n : ℕ) :
  Exec (PageTable.unmapPage 5 ⟨pool, n⟩) [⟨.x86PageUnmap 5, .noError⟩]
    (.ret (.noError, ⟨pool, Word.sub n 1⟩))
  := Exec.call (S := KernelSig) (.x86PageUnmap 5) _ _ (Exec.ret _)

/-- Two pages are mapped, and the first one is unmapped. -/
theorem Run.fourSlots_count :
  ∃ pt M, Run fourSlots inStep pt M [6, 5] ∧ M = {6} ∧ getMappedPagesCount pt = M.card
  := by
  have hone := Run.fourSlots_map (C := inStep) (.inl rfl)
  have hexec : Exec (PageTable.mapPage fourSlots 8192 .readWrite ⟨.after 5, 1⟩)
      [⟨.untypedRetype 3 .x86_4K 6, .noError⟩, ⟨.x86PageMap 6 8192 .readWrite, .noError⟩]
      (.ret (success 6, ⟨.after 6, 2⟩)) := by
    apply Exec.call (S := KernelSig) (.untypedRetype 3 .x86_4K 6)
    apply Exec.call (S := KernelSig) (.x86PageMap 6 8192 .readWrite)
    exact Exec.ret _
  have htwo := hone.mapPage hexec (.inl rfl)
  have hrun := htwo.unmapPage (by decide) (unmapPage_five (.after 6) 2) (fun _ => rfl)
    (show 5 ∈ _ by decide)
  exact ⟨_, _, hrun, by decide, Run.count (by decide) hrun⟩

/-- When the frame of the one page that is mapped is unmapped twice, the count wraps
around. -/
theorem Run.fourSlots_wrap :
  ¬ ∀ (info : BootInfo) pt M frames, info.empty.stop < 2 ^ 64 - 1 →
      Run info ⟨fun _ => True, fun _ _ => True⟩ pt M frames → getMappedPagesCount pt = M.card
  := by
  intro hall
  have hone := Run.fourSlots_map (C := ⟨fun _ => True, fun _ _ => True⟩) trivial
  have htwo := (hone.unmapPage (by simp) (unmapPage_five _ 1) (fun _ => rfl) trivial).unmapPage
    (by simp) (unmapPage_five _ _) (fun _ => rfl) trivial
  have hcount := hall _ _ _ _ (by decide) htwo
  exact absurd hcount (by decide)

end PageTable
