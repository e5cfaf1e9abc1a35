import StandaloneSel4.Objects.Factory

/-!
# What createThread gives back

An exit of `createThread` gives back what the steps before it have acquired, in that order,
all but the `Thread` object. So an error leaves nothing behind exactly when it is the first
step that has failed, the one for the TCB.
-/

open SeL4 Prog

namespace ObjectFactory

variable {EntryPoint : Type} {tcbBadge apiEndpoint addr : ℕ} {entryPoint : EntryPoint}
  {before undo rest tr : List FactoryEvent} {s e : FactoryEvent} {err : Error}
  {o : Outcome (Expected (Option (SharedThread EntryPoint)) Error × ℕ)}

/-- What a call gives back. -/
def releasedBy : FactoryCall → Option Resource
  | .releaseObject obj => some (.object obj)
  | .releaseSlot pos => some (.slot pos)
  | .unmapPage pageCap => some (.page pageCap)
  | .deleteThread ptr => some (.thread ptr)
  | _ => none

/-- What some calls have given back. -/
def released (tr : List FactoryEvent) : List Resource :=
  (tr.map Event.call).filterMap releasedBy

/-- Everything that has been acquired has been given back, each exactly once. -/
def Clean (tr : List FactoryEvent) : Prop :=
  (tr.filterMap acquired).Perm (released tr)

instance (tr : List FactoryEvent) : Decidable (Clean tr) :=
  inferInstanceAs (Decidable (List.Perm _ _))

/-- The first call that has failed. -/
def firstFailure (tr : List FactoryEvent) : Option FactoryCall :=
  (tr.find? fun e => (failure e).isSome).map Event.call

/-! ### The steps and the exits -/

theorem released_append (tr tr' : List FactoryEvent) :
  released (tr ++ tr') = released tr ++ released tr'
  := by
  simp [released]

/-- The steps give nothing back. -/
theorem Answers.releasedBy_steps (a : Answers) :
  ∀ e ∈ a.steps tcbBadge apiEndpoint addr, releasedBy e.call = none
  := by
  simp [Answers.steps, releasedBy]

/-- No step has failed when all have succeeded. -/
theorem Answers.failure_steps (a : Answers) :
  ∀ e ∈ a.steps tcbBadge apiEndpoint addr, failure e = none
  := by
  simp [Answers.steps, failure, Expected.failure, a.tcb.property, a.ptr.property,
    a.stack.property, a.tls.property, a.ipc.property, a.slot.property]

/-- What has failed has acquired nothing. -/
theorem acquired_of_failure (h : failure e = some err) :
  acquired e = none
  := by
  obtain ⟨call, x⟩ := e
  cases call with
  | allocObject type => simp [acquired, Expected.not_isValid h]
  | getFreeSlot => simp [acquired, Expected.not_isValid h]
  | mapPage vaddr rights => simp [acquired, Expected.not_isValid h]
  | newThread =>
      by_cases hx : x = 0
      · simp [acquired, hx]
      · simp [failure, hx] at h
  | _ => rfl

/-- The call that gives a resource back gives back that resource. -/
theorem Resource.releasedBy_giveBack {x : Resource} {c : FactoryCall}
    (h : x.giveBack = some c) :
  releasedBy c = some x
  := by
  cases x with
  | thread ptr => cases h
  | object obj => cases h; rfl
  | page pageCap => cases h; rfl
  | slot pos => cases h; rfl

/-- What is given back by the calls for some resources: all of them that there is a call
for. -/
theorem filterMap_giveBack (l : List Resource) :
  (l.filterMap Resource.giveBack).filterMap releasedBy = l.filter fun x => x.giveBack.isSome
  := by
  induction l with
  | nil => rfl
  | cons x l ih =>
      cases hx : x.giveBack with
      | none => rw [List.filterMap_cons_none hx, List.filter_cons_of_neg (by simp [hx]), ih]
      | some c =>
          rw [List.filterMap_cons_some hx, List.filter_cons_of_pos (by simp [hx]),
            List.filterMap_cons_some (Resource.releasedBy_giveBack hx), ih]

/-- Giving back acquires nothing. -/
theorem acquired_undo (h : undo.map Event.call = undoing before) :
  undo.filterMap acquired = []
  := by
  rw [List.filterMap_eq_nil_iff]
  apply eq_none_of_undoing (fun _ _ => rfl) (fun _ _ => rfl) (fun _ _ => rfl) h

/-- What an attempt that gave up has acquired, it has acquired in the steps that
succeeded. -/
theorem acquired_gaveUp (hfailure : failure e = some err)
    (hundo : undo.map Event.call = undoing before) :
  (before ++ e :: undo).filterMap acquired = before.filterMap acquired
  := by
  rw [List.filterMap_append, List.filterMap_cons_none (acquired_of_failure hfailure),
    acquired_undo hundo, List.append_nil]

/-- What an attempt that gave up has given back, it has given back after the failure. -/
theorem released_gaveUp {a : Answers}
    (hsteps : a.steps tcbBadge apiEndpoint addr = before ++ s :: rest) (hcall : e.call = s.call)
    (hundo : undo.map Event.call = undoing before) :
  released (before ++ e :: undo) = (undoing before).filterMap releasedBy
  := by
  have hnone : ∀ x ∈ before ++ s :: rest, releasedBy x.call = none := by
    rw [← hsteps]
    apply a.releasedBy_steps
  have hbefore : released before = [] := by
    apply List.filterMap_eq_nil_iff.mpr
    intro c hc
    obtain ⟨b, hb, rfl⟩ := List.mem_map.mp hc
    apply hnone b (List.mem_append_left _ hb)
  have hs : releasedBy e.call = none := by
    rw [hcall]
    apply hnone s (List.mem_append_right _ List.mem_cons_self)
  rw [released_append, hbefore, List.nil_append, released, List.map_cons,
    List.filterMap_cons_none hs, hundo]

/-- No step is the first that has failed when all have succeeded. -/
theorem Answers.firstFailure_steps (a : Answers) :
  firstFailure (a.steps tcbBadge apiEndpoint addr) = none
  := by
  rw [firstFailure, Option.map_eq_none_iff, List.find?_eq_none]
  intro e he
  rw [a.failure_steps e he]
  nofun

/-- The first call that has failed is that of the step that has failed. -/
theorem firstFailure_gaveUp {a : Answers}
    (hsteps : a.steps tcbBadge apiEndpoint addr = before ++ s :: rest)
    (hfailure : failure e = some err) :
  firstFailure (before ++ e :: undo) = some e.call
  := by
  have hbefore : before.find? (fun e => (failure e).isSome) = none := by
    rw [List.find?_eq_none]
    intro b hb
    rw [a.failure_steps b (by rw [hsteps]; exact List.mem_append_left _ hb)]
    simp
  unfold firstFailure
  rw [List.find?_append, hbefore, List.find?_cons_of_pos (by simp [hfailure])]
  rfl

/-- The steps start with those for the TCB and for the `Thread` object. -/
theorem Answers.steps_start {a : Answers}
    (hsteps : a.steps tcbBadge apiEndpoint addr = before ++ s :: rest) :
  (before = [] ∧ s.call = .allocObject .tcbObject)
    ∨ s.call = .newThread
    ∨ ((∃ ptr, .thread ptr ∈ before.filterMap acquired) ∧ s.call ≠ .allocObject .tcbObject)
  := by
  rcases before with _ | ⟨b, _ | ⟨b', before⟩⟩
  · obtain ⟨rfl, -⟩ := List.cons.inj hsteps
    exact .inl ⟨rfl, rfl⟩
  · obtain ⟨rfl, hsteps₁⟩ := List.cons.inj hsteps
    obtain ⟨rfl, -⟩ := List.cons.inj hsteps₁
    exact .inr (.inl rfl)
  · obtain ⟨rfl, hsteps₁⟩ := List.cons.inj hsteps
    obtain ⟨rfl, hsteps₂⟩ := List.cons.inj hsteps₁
    right; right
    have hlater : ∀ x ∈ before ++ s :: rest, x.call ≠ .allocObject .tcbObject := by
      rw [← List.append_eq, ← hsteps₂]
      simp
    use ⟨a.ptr.val, by simp [acquired, a.tcb.property, a.ptr.property]⟩
    apply hlater s (List.mem_append_right _ List.mem_cons_self)

/-- An attempt that gave up has given back everything it has acquired if and only if it was
the TCB that it did not get. -/
theorem clean_gaveUp {a : Answers}
    (hsteps : a.steps tcbBadge apiEndpoint addr = before ++ s :: rest) (hcall : e.call = s.call)
    (hfailure : failure e = some err) (hstops : ¬ Stops e.call)
    (hundo : undo.map Event.call = undoing before) :
  Clean (before ++ e :: undo) ↔ e.call = .allocObject .tcbObject
  := by
  rw [Clean, acquired_gaveUp hfailure hundo, released_gaveUp hsteps hcall hundo, undoing,
    filterMap_giveBack]
  rcases Answers.steps_start hsteps with ⟨rfl, hs⟩ | hs | ⟨⟨ptr, hptr⟩, htcb⟩
  · simp [hcall, hs]
  · exact absurd (.inl (hcall.trans hs)) hstops
  · rw [hcall]
    constructor
    · intro hperm
      have hkept := (List.mem_filter.mp (hperm.subset hptr)).2
      cases hkept
    · intro h
      exact absurd h htcb

/-! ### Errors -/

/-- After an error everything that was acquired has been given back, in the order in which it was
acquired, but not the `Thread` object. -/
theorem createThread_givesBack {addr' : ℕ} {r : Expected (Option (SharedThread EntryPoint)) Error}
    (h : Exec (createThread tcbBadge entryPoint apiEndpoint addr) tr (.ret (r, addr')))
    (hr : ¬ r.isValid) :
  released tr = (tr.filterMap acquired).filter fun x => x.giveBack.isSome
  := by
  cases createThread_inv h nofun with
  | made a => exact absurd rfl hr
  | gaveUp a hsteps hcall hfailure _ hundo =>
      rw [acquired_gaveUp hfailure hundo, released_gaveUp hsteps hcall hundo, undoing,
        filterMap_giveBack]

/-- A `createThread` that has ended meets its duty after an error, to have given back exactly
once everything it has acquired, if and only if the first step that has failed, if any, is
the one for the TCB, or one that stops the server. -/
theorem createThread_clean_iff
    (h : Exec (createThread tcbBadge entryPoint apiEndpoint addr) tr o) (ho : o ≠ .running) :
  (∀ r addr', o = .ret (r, addr') → ¬ r.isValid → Clean tr)
    ↔ ∀ c, firstFailure tr = some c → c = .allocObject .tcbObject ∨ Stops c
  := by
  cases createThread_inv h ho with
  | made a =>
      constructor
      · intro _ c hc
        rw [a.firstFailure_steps] at hc
        cases hc
      · rintro - r addr' heq hr
        cases heq
        exact absurd rfl hr
  | gaveUp a hsteps hcall hfailure hstops hundo =>
      have hclean := clean_gaveUp hsteps hcall hfailure hstops hundo
      rw [firstFailure_gaveUp hsteps hfailure]
      constructor
      · intro hduty c hc
        obtain rfl := Option.some.inj hc
        exact .inl (hclean.mp (hduty _ _ rfl nofun))
      · intro hfirst r addr' _ _
        apply hclean.mpr
        apply (hfirst _ rfl).resolve_right hstops
  | stopped a hsteps hcall hfailure hstops =>
      obtain ⟨err, herr⟩ := Option.isSome_iff_exists.mp hfailure
      rw [firstFailure_gaveUp hsteps herr]
      constructor
      · intro _ c hc
        obtain rfl := Option.some.inj hc
        exact .inr hstops
      · rintro - r addr' heq
        cases heq

/-- When there is no TCB there is nothing to give back. -/
theorem createThread_noTcb_clean :
  Clean [⟨.allocObject .tcbObject, unexpected .notEnoughMemory⟩]
  := by
  have hexec : Exec (createThread 1 () 2 4096)
      [⟨.allocObject .tcbObject, unexpected .notEnoughMemory⟩]
      (.ret (unexpected .notEnoughMemory, 4096)) :=
    exec_observe (refusing (· = .allocObject .tcbObject)) [] _
  apply (createThread_clean_iff hexec nofun).mpr _ _ _ rfl nofun
  intro c hc
  exact .inl (Option.some.inj hc).symm

/-- When `seL4_TCB_SetSpace` fails, the `Thread` object is left behind. -/
theorem createThread_leak :
  ¬ ∀ tcbBadge apiEndpoint addr tr r addr',
      Exec (createThread tcbBadge () apiEndpoint addr) tr (.ret (r, addr')) →
      ¬ r.isValid → Clean tr
  := by
  intro hall
  have hexec : Exec (createThread 1 () 2 4096)
      [⟨.allocObject .tcbObject, success 20⟩, ⟨.newThread, (0x8000001020 : ℕ)⟩,
        ⟨.tcbSetSpace 20, Error.invalidCapability⟩, ⟨.releaseObject 20, ()⟩]
      (.ret (unexpected .invalidCapability, 4096)) :=
    exec_observe (refusing (· = .tcbSetSpace 20)) [] _
  have hclean := hall _ _ _ _ _ _ hexec nofun
  exact absurd hclean (by decide)

end ObjectFactory
