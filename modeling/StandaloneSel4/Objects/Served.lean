import StandaloneSel4.Lib.Handler
import StandaloneSel4.Objects.Cleanup
import StandaloneSel4.Objects.PageTable

/-!
# The object factory on the pool and the page table

The calls of the object factory to the pool and to the page table are answered by these; its
calls to the heap and to the kernel are passed on. What was shown of `createThread` under all
answers is so of it then. As `mapPage` returns no error, none of the exits of `createThread`
for the failure of a mapping is ever taken.
-/

open SeL4 Prog

namespace ObjectFactory

variable {EntryPoint : Type}

/-- What the root server calls: the kernel for the pool and the page table, and what the object
factory calls on its own. -/
abbrev ServerSig : Signature :=
  KernelSig.sum FactorySig

/-- The pool and the page table answer the calls that are theirs; the others are passed on. -/
def serve (info : BootInfo) : Handler FactorySig ServerSig PageTable
  | .allocObject type, pt => do
      let (r, pool) ← inl (InitialUntypedPool.allocObject info type pt.untypedPool)
      return (r, { pt with untypedPool := pool })
  | .releaseObject obj, pt =>
      return ((), { pt with untypedPool := InitialUntypedPool.releaseObject obj pt.untypedPool })
  | .getFreeSlot, pt =>
      let (r, pool) := InitialUntypedPool.getFreeSlot info pt.untypedPool
      return (r, { pt with untypedPool := pool })
  | .releaseSlot pos, pt =>
      return ((), { pt with untypedPool := InitialUntypedPool.releaseSlot pos pt.untypedPool })
  | .mapPage vaddr rights, pt => inl (PageTable.mapPage info vaddr rights pt)
  | .unmapPage pageCap, pt => inl (PageTable.unmapPage pageCap pt)
  | c, pt => .call (.inr c) fun x => .ret (x, pt)

variable {info : BootInfo} {tcbBadge apiEndpoint addr addr' : ℕ} {entryPoint : EntryPoint}
  {pt pt' : PageTable} {tr : List (Event ServerSig)}
  {r : Expected (Option (SharedThread EntryPoint)) Error}

/-- What a `createThread` on the pool and the page table that has returned has done. -/
theorem createThread_served
    (h : Exec ((createThread tcbBadge entryPoint apiEndpoint addr).carryOut (serve info) pt) tr
      (.ret ((r, addr'), pt'))) :
  ∃ calls, Attempt tcbBadge entryPoint apiEndpoint addr calls (.ret (r, addr'))
    ∧ Replies (serve info) pt calls tr pt'
  := by
  obtain ⟨calls, hexec, hreplies⟩ := h.carryOut_inv
  exact ⟨calls, createThread_inv hexec nofun, hreplies⟩

/-- The page table never says that a mapping has failed. -/
theorem serve_mapPage {vaddr : ℕ} {rights : CapRights} {c : FactoryCall}
    {x : FactorySig.Answer c} (h : Exec (serve info c pt) tr (.ret (x, pt')))
    (hc : c = .mapPage vaddr rights) :
  failure ⟨c, x⟩ = none
  := by
  subst hc
  obtain ⟨tr', h', -⟩ := Exec.inl_inv h
  obtain ⟨s, e, -, rfl, -⟩ := PageTable.mapPage_inv h'
  rfl

/-- On the pool and the page table, no exit of `createThread` for the failure of a mapping is
taken. -/
theorem createThread_served_firstFailure {calls : List FactoryEvent}
    (hreplies : Replies (serve info) pt calls tr pt') (vaddr : ℕ) (rights : CapRights) :
  firstFailure calls ≠ some (.mapPage vaddr rights)
  := by
  intro hfirst
  obtain ⟨e, he, hcall⟩ := Option.map_eq_some_iff.mp hfirst
  have hnone := hreplies.forall
    (Q := fun e : FactoryEvent => e.call = .mapPage vaddr rights → failure e = none)
    fun _ _ _ _ _ => serve_mapPage
  have hsome := List.find?_some he
  rw [hnone e (List.mem_of_find?_eq_some he) hcall] at hsome
  cases hsome

end ObjectFactory
