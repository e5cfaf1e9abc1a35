import StandaloneSel4.Objects.ThreadPages
import Mathlib.Data.List.Nodup

/-!
# The thread table

The root server numbers the threads it makes by a counter that moves on at every attempt,
and adds those it has made to its table. The badge that a `createThread` mints onto the API
endpoint is the number of its thread, and it is minted by the last step, so that the badges
minted are those of the threads in the table, in ascending order.
-/

open SeL4 Prog

/-- `ThreadTable`. -/
structure ThreadTable (EntryPoint : Type) where
  threads : List (SharedThread EntryPoint)

/-- The fields of `RootServer` that `createThread` uses, and the field
`currentVirtualAddress` of its object factory. -/
structure RootServer (EntryPoint : Type) where
  threads : ThreadTable EntryPoint
  apiEndpoint : ℕ
  tcbBadgeCounter : ℕ
  currentVirtualAddress : ℕ

variable {EntryPoint : Type}

namespace ThreadTable

/-- `add`. -/
def add (t : SharedThread EntryPoint) (table : ThreadTable EntryPoint) : ThreadTable EntryPoint :=
  ⟨table.threads ++ [t]⟩

/-- `get`. -/
def get (badge : ℕ) (table : ThreadTable EntryPoint) : Option (SharedThread EntryPoint) :=
  table.threads.find? fun t => t.thread.badge = badge

/-- The badges of the threads in the table. -/
def badges (table : ThreadTable EntryPoint) : List ℕ :=
  table.threads.map fun t => t.thread.badge

@[simp]
theorem badges_add (t : SharedThread EntryPoint) (table : ThreadTable EntryPoint) :
  (table.add t).badges = table.badges ++ [t.thread.badge]
  := by
  simp [add, badges]

/-- A thread found has the badge looked for. -/
theorem get_eq_none_iff {badge : ℕ} {table : ThreadTable EntryPoint} :
  table.get badge = none ↔ badge ∉ table.badges
  := by
  simp [get, badges]

/-- When no two threads have one badge, a badge of the table is that of one thread, which is the
one found by it. -/
theorem exists_get {badge : ℕ} {table : ThreadTable EntryPoint} (hnodup : table.badges.Nodup)
    (hbadge : badge ∈ table.badges) :
  ∃ t, table.get badge = some t ∧ t ∈ table.threads
    ∧ ∀ t' ∈ table.threads, t'.thread.badge = badge ↔ t' = t
  := by
  obtain ⟨t, ht, hget⟩ : ∃ t ∈ table.threads, table.get badge = some t := by
    cases hget : table.get badge with
    | none => exact absurd hbadge (get_eq_none_iff.mp hget)
    | some t => exact ⟨t, List.mem_of_find?_eq_some hget, rfl⟩
  have hkey : t.thread.badge = badge := by
    have hfound := List.find?_some hget
    simpa using hfound
  refine ⟨t, hget, ht, fun t' ht' => ?_⟩
  constructor
  · intro hkey'
    apply List.inj_on_of_nodup_map hnodup ht' ht
    apply hkey'.trans hkey.symm
  · rintro rfl
    apply hkey

end ThreadTable

namespace RootServer

open ObjectFactory

/-- The server when it has been constructed and has got its API endpoint. -/
def initial (apiEndpoint : ℕ) : RootServer EntryPoint where
  threads := ⟨[]⟩
  apiEndpoint := apiEndpoint
  tcbBadgeCounter := 1
  currentVirtualAddress := firstVirtualAddress

/-- `createThread`. -/
def createThread (entryPoint : EntryPoint) (server : RootServer EntryPoint) :
    Factory (Expected (Option (SharedThread EntryPoint)) Error × RootServer EntryPoint) := do
  let tcbBadge := server.tcbBadgeCounter
  let server := { server with tcbBadgeCounter := Word.add server.tcbBadgeCounter 1 }
  let (r, addr) ← ObjectFactory.createThread tcbBadge entryPoint server.apiEndpoint
    server.currentVirtualAddress
  let server := { server with currentVirtualAddress := addr }
  if r.isValid then
    match r.value with
    | some t => return (r, { server with threads := server.threads.add t })
    | none => .fail -- the badge that is printed is read from the null pointer
  else return (r, server)

/-- The badge of a capability to the endpoint that a call has minted. -/
def minted (apiEndpoint : ℕ) : FactoryEvent → Option ℕ
  | ⟨.cnodeMint _ endpoint _ badge, err⟩ =>
      if endpoint = apiEndpoint ∧ err = .noError then some badge else none
  | _ => none

/-! ### One call -/

section

variable {tcbBadge apiEndpoint addr : ℕ} {before undo rest : List FactoryEvent}
  {e s : FactoryEvent} {err : Error}

/-- The last of the steps mints the badge, and no other step mints one. -/
theorem minted_steps (a : Answers) (tcbBadge apiEndpoint addr : ℕ) :
  (a.steps tcbBadge apiEndpoint addr).filterMap (minted apiEndpoint) = [tcbBadge]
    ∧ (a.steps tcbBadge apiEndpoint addr).dropLast.filterMap (minted apiEndpoint) = []
  := by
  simp [Answers.steps, minted, List.filterMap_cons]

/-- Steps that another one follows mint nothing. -/
theorem minted_before (a : Answers) (h : a.steps tcbBadge apiEndpoint addr = before ++ s :: rest) :
  before.filterMap (minted apiEndpoint) = []
  := by
  have hnone := (minted_steps a tcbBadge apiEndpoint addr).2
  rw [h, List.dropLast_append_cons, List.filterMap_append, List.append_eq_nil_iff] at hnone
  apply hnone.1

/-- A call that has failed mints nothing. -/
theorem minted_of_failure (h : failure e = some err) :
  minted apiEndpoint e = none
  := by
  obtain ⟨call, x⟩ := e
  cases call with
  | cnodeMint slot endpoint rights badge =>
      simp only [ObjectFactory.failure] at h
      split at h
      · cases h
      · rename_i hx
        simp only [minted]
        rw [if_neg (fun hand => hx hand.2)]
  | _ => rfl

/-- Nothing is minted in giving back. -/
theorem minted_undo (h : undo.map Event.call = undoing before) :
  undo.filterMap (minted apiEndpoint) = []
  := List.filterMap_eq_nil_iff.mpr
    (eq_none_of_undoing (fun _ _ => rfl) (fun _ _ => rfl) (fun _ _ => rfl) h)

end

/-- What a `createThread` of the server that has ended has done. The counter has moved on in
any case. -/
inductive Called (server : RootServer EntryPoint) : List FactoryEvent →
    Outcome (Expected (Option (SharedThread EntryPoint)) Error × RootServer EntryPoint) → Prop where
  /-- It has minted its badge and added the thread. -/
  | added {tr : List FactoryEvent} {t : SharedThread EntryPoint} {addr : ℕ} :
      t.thread.badge = server.tcbBadgeCounter →
      tr.filterMap (minted server.apiEndpoint) = [server.tcbBadgeCounter] →
      Called server tr (.ret (success (some t),
        { server with
          threads := server.threads.add t
          tcbBadgeCounter := Word.add server.tcbBadgeCounter 1
          currentVirtualAddress := addr }))
  /-- It has returned an error and minted nothing. -/
  | refused {tr : List FactoryEvent} {err : Error} {addr : ℕ} :
      tr.filterMap (minted server.apiEndpoint) = [] →
      Called server tr (.ret (unexpected err,
        { server with
          tcbBadgeCounter := Word.add server.tcbBadgeCounter 1
          currentVirtualAddress := addr }))
  /-- It has stopped the server and minted nothing. -/
  | stopped {tr : List FactoryEvent} :
      tr.filterMap (minted server.apiEndpoint) = [] → Called server tr .fail

/-- What a `createThread` of the server that has ended has done. -/
theorem createThread_inv {entryPoint : EntryPoint} {server : RootServer EntryPoint}
    {tr : List FactoryEvent}
    {o : Outcome (Expected (Option (SharedThread EntryPoint)) Error × RootServer EntryPoint)}
    (h : Exec (server.createThread entryPoint) tr o) (ho : o ≠ .running) :
  Called server tr o
  := by
  have hwp : (server.createThread entryPoint).wp fun tr o => o = .running ∨ Called server tr o := by
    unfold createThread
    apply wp_bind
    apply wp_iff.mpr
    intro tr o hexec
    cases o with
    | running => exact .inl rfl
    | fail =>
        right
        cases ObjectFactory.createThread_inv hexec nofun with
        | stopped a hsteps _ hfailure _ =>
            obtain ⟨err, hfailure⟩ := Option.isSome_iff_exists.mp hfailure
            apply Called.stopped
            rw [List.filterMap_append, minted_before a hsteps, List.nil_append]
            simp [minted_of_failure hfailure]
    | ret r =>
        obtain ⟨r, addr⟩ := r
        cases ObjectFactory.createThread_inv hexec nofun with
        | made a =>
            apply wp_ret.mpr
            rw [List.append_nil]
            use .inr (Called.added rfl (minted_steps a _ _ _).1), .inl rfl
        | gaveUp a hsteps _ hfailure _ hundo =>
            apply wp_ret.mpr
            rw [List.append_nil]
            use .inr (Called.refused ?_), .inl rfl
            rw [List.filterMap_append, minted_before a hsteps, List.nil_append,
              List.filterMap_cons_none (minted_of_failure hfailure), minted_undo hundo]
  exact (wp_iff.mp hwp tr o h).resolve_left ho

/-! ### Runs -/

/-- The server after a run of `createThread`, each with any entry point and under any answers,
and the calls made by each. A run may go on where the server would have stopped. -/
inductive Run (apiEndpoint : ℕ) : RootServer EntryPoint → List (List FactoryEvent) → Prop where
  | start : Run apiEndpoint (initial apiEndpoint) []
  | createThread {server server' : RootServer EntryPoint} {l : List (List FactoryEvent)}
      {entryPoint : EntryPoint} {tr : List FactoryEvent}
      {r : Expected (Option (SharedThread EntryPoint)) Error} :
      Run apiEndpoint server l →
      Exec (server.createThread entryPoint) tr (.ret (r, server')) →
      Run apiEndpoint server' (l ++ [tr])
  | stopped {server : RootServer EntryPoint} {l : List (List FactoryEvent)}
      {entryPoint : EntryPoint} {tr : List FactoryEvent} {addr : ℕ} :
      Run apiEndpoint server l →
      Exec (server.createThread entryPoint) tr .fail →
      Run apiEndpoint
        { server with
          tcbBadgeCounter := Word.add server.tcbBadgeCounter 1
          currentVirtualAddress := addr }
        (l ++ [tr])

/-- The badges minted onto the endpoint in a run. -/
def mintedBadges (apiEndpoint : ℕ) (l : List (List FactoryEvent)) : List ℕ :=
  l.flatten.filterMap (minted apiEndpoint)

theorem mintedBadges_append (apiEndpoint : ℕ) (l : List (List FactoryEvent))
    (tr : List FactoryEvent) :
  mintedBadges apiEndpoint (l ++ [tr])
    = mintedBadges apiEndpoint l ++ tr.filterMap (minted apiEndpoint)
  := by
  simp [mintedBadges]

/-- What is so after every run in which the counter has not wrapped around: the badges of the
table are those that have been minted, and ascend from one to below the counter. -/
structure Numbered (apiEndpoint : ℕ) (server : RootServer EntryPoint)
    (l : List (List FactoryEvent)) : Prop where
  endpoint : server.apiEndpoint = apiEndpoint
  counter : server.tcbBadgeCounter = l.length + 1
  badges : server.threads.badges = mintedBadges apiEndpoint l
  ascending : server.threads.badges.Pairwise (· < ·)
  bounds : ∀ b ∈ server.threads.badges, 0 < b ∧ b < server.tcbBadgeCounter

variable {apiEndpoint : ℕ} {server : RootServer EntryPoint} {l : List (List FactoryEvent)}
  {tr : List FactoryEvent}

/-- The counter does not wrap around yet. -/
theorem Numbered.counter_add (h : Numbered apiEndpoint server l)
    (hlen : l.length + 1 < 2 ^ 64 - 1) :
  Word.add server.tcbBadgeCounter 1 = server.tcbBadgeCounter + 1
  := by
  rw [h.counter]
  apply Word.add_of_lt
  omega

/-- A call that adds no thread and mints nothing keeps the numbering. -/
theorem Numbered.refused (h : Numbered apiEndpoint server l) (hlen : l.length + 1 < 2 ^ 64 - 1)
    (hminted : tr.filterMap (minted server.apiEndpoint) = []) (addr : ℕ) :
  Numbered apiEndpoint
    { server with
      tcbBadgeCounter := Word.add server.tcbBadgeCounter 1
      currentVirtualAddress := addr }
    (l ++ [tr])
  := by
  have hcounter := h.counter_add hlen
  constructor
  · apply h.endpoint
  · rw [List.length_append, List.length_singleton, ← h.counter]
    apply hcounter
  · rw [mintedBadges_append, ← h.endpoint, hminted, List.append_nil, h.endpoint]
    apply h.badges
  · apply h.ascending
  · intro b hb
    obtain ⟨hpos, hlt⟩ := h.bounds b hb
    use hpos
    simp only [hcounter]
    omega

/-- A call that adds the thread whose badge it mints keeps the numbering. -/
theorem Numbered.added (h : Numbered apiEndpoint server l) (hlen : l.length + 1 < 2 ^ 64 - 1)
    {t : SharedThread EntryPoint} (ht : t.thread.badge = server.tcbBadgeCounter)
    (hminted : tr.filterMap (minted server.apiEndpoint) = [server.tcbBadgeCounter]) (addr : ℕ) :
  Numbered apiEndpoint
    { server with
      threads := server.threads.add t
      tcbBadgeCounter := Word.add server.tcbBadgeCounter 1
      currentVirtualAddress := addr }
    (l ++ [tr])
  := by
  have hcounter := h.counter_add hlen
  constructor
  · apply h.endpoint
  · rw [List.length_append, List.length_singleton, ← h.counter]
    apply hcounter
  · rw [mintedBadges_append, ← h.endpoint, hminted, h.endpoint, ← h.badges, ← ht]
    apply ThreadTable.badges_add
  · rw [ThreadTable.badges_add, List.pairwise_append]
    use h.ascending, List.pairwise_singleton _ _
    intro b hb c hc
    obtain rfl := List.mem_singleton.mp hc
    rw [ht]
    apply (h.bounds b hb).2
  · intro b hb
    rw [ThreadTable.badges_add, List.mem_append, List.mem_singleton, ht] at hb
    simp only [hcounter]
    rcases hb with hb | rfl
    · obtain ⟨hpos, hlt⟩ := h.bounds b hb
      omega
    · rw [h.counter]
      omega

/-- The numbering is kept along every run. -/
theorem Run.numbered (hrun : Run apiEndpoint server l) (hlen : l.length < 2 ^ 64 - 1) :
  Numbered apiEndpoint server l
  := by
  induction hrun with
  | start =>
      constructor
      · rfl
      · rfl
      · rfl
      · apply List.Pairwise.nil
      · nofun
  | createThread hrun hexec ih =>
      rw [List.length_append, List.length_singleton] at hlen
      have ih := ih (by omega)
      cases createThread_inv hexec nofun with
      | added ht hminted => apply ih.added hlen ht hminted
      | refused hminted => apply ih.refused hlen hminted
  | stopped hrun hexec ih =>
      rw [List.length_append, List.length_singleton] at hlen
      have ih := ih (by omega)
      cases createThread_inv hexec nofun with
      | stopped hminted => apply ih.refused hlen hminted

/-- After fewer than `2 ^ 64 - 1` calls, the badges in the table are different and not zero, a
badge that has been minted onto the endpoint is that of exactly one thread, which `get` finds
by it, and `get` finds nothing by any other word. -/
theorem Run.badges_identify (hrun : Run apiEndpoint server l) (hlen : l.length < 2 ^ 64 - 1) :
  server.threads.badges.Nodup ∧ (∀ b ∈ server.threads.badges, b ≠ 0)
    ∧ (∀ b ∈ mintedBadges apiEndpoint l, ∃ t, server.threads.get b = some t
        ∧ t ∈ server.threads.threads
        ∧ ∀ t' ∈ server.threads.threads, t'.thread.badge = b ↔ t' = t)
    ∧ ∀ b, b ∉ mintedBadges apiEndpoint l → server.threads.get b = none
  := by
  have h := hrun.numbered hlen
  have hnodup := h.ascending.imp (fun hlt => Nat.ne_of_lt hlt)
  rw [← h.badges]
  use hnodup
  and_intros
  · intro b hb
    have hpos := (h.bounds b hb).1
    omega
  · intro b hb
    apply ThreadTable.exists_get hnodup hb
  · intro b hb
    apply ThreadTable.get_eq_none_iff.mpr hb

/-- The server after one more `createThread`, whose steps are refused as told. -/
def after (P : FactoryCall → Bool) (server : RootServer Unit) : RootServer Unit :=
  match (observe (refusing P) [] (server.createThread ())).2 with
  | .ret (_, server') => server'
  | _ => server

/-- Of two threads, between which another one could not be made since `seL4_TCB_SetSpace` has
failed, the first is found by the badge one and the second by the badge three. -/
theorem Run.two_identified :
  ∃ server : RootServer Unit, (∃ t, server.threads.get 1 = some t) ∧ server.threads.get 2 = none
    ∧ (∃ t, server.threads.get 3 = some t) ∧ server.threads.get 4 = none
  := by
  let s₁ := after (fun _ => false) (initial 2)
  let s₂ := after (· = .tcbSetSpace 20) s₁
  let s₃ := after (fun _ => false) s₂
  have h₁ : Run 2 s₁ _ :=
    Run.start.createThread (exec_observe (refusing fun _ => false) [] ((initial 2).createThread ()))
  have h₂ : Run 2 s₂ _ :=
    h₁.createThread (exec_observe (refusing (· = .tcbSetSpace 20)) [] (s₁.createThread ()))
  have h₃ : Run 2 s₃ _ :=
    h₂.createThread (exec_observe (refusing fun _ => false) [] (s₂.createThread ()))
  obtain ⟨-, -, hsome, hnone⟩ := Run.badges_identify h₃ (by decide)
  obtain ⟨t, hget, -⟩ := hsome 1 (by decide)
  obtain ⟨t', hget', -⟩ := hsome 3 (by decide)
  exact ⟨s₃, ⟨t, hget⟩, hnone 2 (by decide), ⟨t', hget'⟩, hnone 4 (by decide)⟩

end RootServer
