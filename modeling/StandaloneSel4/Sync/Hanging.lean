import StandaloneSel4.Sync.Exclusion

/-!
# A thread that waits for itself

A thread that wants the lock while it holds it waits for itself. Where programs act on the shared
state only under the lock, all others wait with it: nobody ever gets the lock again, no program acts
on the shared state, and every operation that takes the lock stays where it is, also those that are
begun later.
-/

namespace Sync

open Prog

variable {S : Signature} {σ Ω ε ι α : Type}

/-- With the lock held `d` times, the program acts only while it holds the lock. -/
def Guarded : ℕ → Prog (LockSig S) α → Prop
  | _, .ret _ => True
  | _, .fail => True
  | d, .call .lock k => ∀ x, Guarded (d + 1) (k x)
  | d, .call .unlock k => ∀ x, Guarded (d - 1) (k x)
  | d, .call (.act _) k => 0 < d ∧ ∀ x, Guarded d (k x)

/-- A property of the programs of operations and of how often they hold the lock is kept from call
to call. -/
structure Along (P : Option Ω → ℕ → Prog (LockSig S) α → Prop) : Prop where
  lock : ∀ {o d k}, P o d (.call .lock k) → ∀ x, P o (d + 1) (k x)
  unlock : ∀ {o d k}, P o d (.call .unlock k) → ∀ x, P o (d - 1) (k x)
  act : ∀ {o d c k}, P o d (.call (.act c) k) → ∀ x, P o d (k x)

namespace Control

/-- What the program does after the call a thread is in has the property. -/
def Along (P : ℕ → Prog (LockSig S) α → Prop) (d : ℕ) : Control S α → Prop
  | .idle => True
  | .run p => P d p
  | .read k | .exchange _ k | .wait k | .blocked k => ∀ x, P (d + 1) (k x)
  | .signal k => ∀ x, P d (k x)

/-- On the way to get the lock. -/
def Wants : Control S α → Prop
  | .run (.call .lock _) | .read _ | .exchange _ _ | .wait _ | .blocked _ => True
  | _ => False

/-- In no operation, or at the end of one. -/
def Off : Control S α → Prop
  | .idle | .run (.ret _) => True
  | _ => False

end Control

namespace Thread

/-- The thread is where its program has the property. -/
def Along (P : Option Ω → ℕ → Prog (LockSig S) α → Prop) (t : Thread S Ω α) : Prop :=
  t.control.Along (P t.op) (t.acquired - t.released)

theorem Along.mono {P P' : Option Ω → ℕ → Prog (LockSig S) α → Prop} {t : Thread S Ω α}
    (h : t.Along P) (hP : ∀ {o d p}, P o d p → P' o d p) :
  t.Along P'
  := by
  revert h
  unfold Along Control.Along
  cases t.control with
  | idle => exact id
  | run p => exact hP
  | read k | exchange oldval k | wait k | blocked k | signal k => exact fun h x => hP (h x)

/-- The thread is on its way to get the lock. -/
def Wants (t : Thread S Ω α) : Prop :=
  t.control.Wants

/-- The thread is in no operation, or at the end of one. -/
def Off (t : Thread S Ω α) : Prop :=
  t.control.Off

/-- What becomes of a thread that does not get the lock: it goes on to where it still wants the lock
if it did before, or it is given an operation. -/
inductive Stays (sys : System S σ Ω ε α) (t : Thread S Ω α) : Thread S Ω α → Prop where
  | goto (c : Control S α) : (t.Wants → c.Wants) → Stays sys t (t.goto c)
  | start (op : Ω) : t.control = .idle →
      Stays sys t { t with control := .run (sys.prog op), op := some op }

theorem Stays.counts {sys : System S σ Ω ε α} {t t' : Thread S Ω α} (h : t.Stays sys t') :
  t'.acquired = t.acquired ∧ t'.released = t.released
  := by
  cases h with
  | goto c _ => exact ⟨rfl, rfl⟩
  | start op _ => exact ⟨rfl, rfl⟩

/-- It stays in the operation that it is in. -/
theorem Stays.wants {sys : System S σ Ω ε α} {t t' : Thread S Ω α} (h : t.Stays sys t')
    (hwants : t.Wants) :
  t'.Wants ∧ t'.op = t.op
  := by
  cases h with
  | goto c hc => exact ⟨hc hwants, rfl⟩
  | start op hidle =>
      rw [Wants, hidle] at hwants
      exact absurd hwants id

end Thread

variable {allow : Option Ω → (c : S.Call) → S.Answer c → Prop} {max fuel : ℕ}
  {s s' : State S σ Ω α ι} {i j : ι} {sys : System S σ Ω ε α} {m : Move Ω ε ι}
  {t : Thread S Ω α}

/-! ### From call to call -/

section

variable [DecidableEq ι] {P : Option Ω → ℕ → Prog (LockSig S) α → Prop}

theorem along_set (h : ∀ j, (s.thread j).Along P) (ht : t.Along P) :
  ∀ j, ((s.set i t).thread j).Along P
  := State.forall_set (P := fun _ t => t.Along P) ht fun j _ => h j

theorem stays_set (h : (s.thread i).Stays sys t) :
  ∀ j, (s.thread j).Stays sys ((s.set i t).thread j)
  := State.forall_set (P := fun j => (s.thread j).Stays sys) h
    fun j _ => .goto (s.thread j).control id

end

variable [Fintype ι]

/-- A thread that got the lock holds it once more. -/
theorem Inv.along_locked {P : Option Ω → ℕ → Prog (LockSig S) α → Prop} (h : Inv allow max s)
    {p : Prog (LockSig S) α}
    (hp : P (s.thread i).op ((s.thread i).acquired - (s.thread i).released + 1) p) :
  ((s.thread i).locked p).Along P
  := by
  obtain ⟨d, hd, -⟩ := h.ok i
  have hcount : (s.thread i).acquired + 1 - (s.thread i).released
      = (s.thread i).acquired - (s.thread i).released + 1 := by omega
  change P _ ((s.thread i).acquired + 1 - (s.thread i).released) p
  rwa [hcount]

/-- A property that is kept from call to call is kept by a step that does not act. -/
theorem Along.goes {P : Option Ω → ℕ → Prog (LockSig S) α → Prop} (hP : Along P)
    (hinv : Inv allow max s) (h : ∀ j, (s.thread j).Along P) {b : BinSem}
    (hgoes : (s.thread i).Goes s b t) :
  t.Along P
  := by
  have hi := h i
  rw [Thread.Along] at hi
  cases hgoes with
  | ret hc => exact trivial
  | lock hc =>
      rw [hc] at hi
      exact hP.lock hi
  | post hc _ =>
      rw [hc] at hi
      simp only [Thread.Along, Thread.goto]
      rw [← Nat.sub_sub]
      exact hP.unlock hi
  | unlock hc _ =>
      rw [hc] at hi
      simp only [Thread.Along, Thread.goto]
      rw [← Nat.sub_sub]
      exact hP.unlock hi 0
  | overflow hc _ =>
      rw [hc] at hi
      exact hinv.along_locked (hi (-1))
  | acquire hc _ | consume hc _ =>
      rw [hc] at hi
      exact hinv.along_locked (hi 0)
  | read hc | wait hc _ | retry hc | block hc _ =>
      rw [hc] at hi
      exact hi
  | remember hc _ =>
      rw [hc] at hi
      exact hi 0

/-- The thread wants the lock while it holds it. -/
structure Hangs (allow : Option Ω → (c : S.Call) → S.Answer c → Prop) (max : ℕ)
    (s : State S σ Ω α ι) (i : ι) : Prop where
  inv : Inv allow max s
  guarded : ∀ j, (s.thread j).Along fun _ => Guarded
  holds : (s.thread i).Holds
  wants : (s.thread i).Wants

/-- No signal is pending. -/
theorem Hangs.not_pending (h : Hangs allow max s i) :
  s.lock.pending = false
  := by
  have hdebt := h.inv.token_add_debt_le i
  have hdue := due_le s.lock.value
  have hself := Thread.Ok.token_pos h.holds
  unfold BinSem.debt at hdebt
  cases hp : s.lock.pending with
  | false => rfl
  | true =>
      rw [hp, Bool.toNat_true] at hdebt
      omega

variable [DecidableEq ι]

section

variable {P : Option Ω → ℕ → Prog (LockSig S) α → Prop}

/-- A property that the programs have at their beginning, and that is kept from call to call, they
have wherever the threads are. -/
theorem Along.next (hP : Along P) (hinv : Inv allow max s)
    (hstart : ∀ op, P (some op) 0 (sys.prog op)) (h : ∀ j, (s.thread j).Along P)
    (hnext : sys.next s m = some s') :
  ∀ j, (s'.thread j).Along P
  := by
  cases sys.step hnext with
  | @start i op hc =>
      apply along_set h
      rw [Thread.Along, hinv.idle hc, Nat.sub_self]
      exact hstart op
  | go hgoes => exact along_set h (hP.goes hinv h hgoes)
  | @act i _ _ _ x _ hc hact =>
      have hi := h i
      rw [Thread.Along, hc] at hi
      exact along_set h (hP.act hi x)
  | stay hc hact => exact h
  | spurious hc => exact along_set h (hP.goes hinv h (.retry hc))
  | @wake i j k k' hi hj =>
      have hsignal := h i
      have hblocked := h j
      rw [Thread.Along, hi] at hsignal
      rw [Thread.Along, hj] at hblocked
      exact along_set (along_set h (hsignal 0)) (hinv.along_locked (hblocked 0))
  | env => exact h

end

theorem along_guarded :
  Along (Ω := Ω) (S := S) (α := α) fun _ => Guarded
  where
  lock h := h
  unlock h := h
  act h := h.2

/-! ### Waiting for oneself -/

namespace Hangs

/-- The other threads have no token. -/
theorem token_of_ne (h : Hangs allow max s i) (hj : j ≠ i) :
  (s.thread j).token ≤ 0
  := by
  have hsub : ∑ k ∈ {i, j}, (s.thread k).token ≤ ∑ k, (s.thread k).token :=
    Finset.sum_le_sum_of_subset_of_nonneg (Finset.subset_univ _)
      (fun k _ _ => (h.inv.ok k).token_nonneg)
  have hle := h.inv.sum_token_le
  have hself := Thread.Ok.token_pos h.holds
  rw [Finset.sum_pair hj.symm] at hsub
  omega

/-- Every thread is on its way to get the lock, or in no operation. -/
theorem wants_or_off (h : Hangs allow max s i) (j : ι) :
  (s.thread j).Wants ∨ (s.thread j).Off
  := by
  by_cases hj : j = i
  · rw [hj]
    exact .inl h.wants
  have htoken := h.token_of_ne hj
  have hguarded := h.guarded j
  obtain ⟨d, hd, hok⟩ := h.inv.ok j
  have hcount : (s.thread j).acquired - (s.thread j).released = d := by omega
  rw [Thread.Along, hcount] at hguarded
  unfold Thread.Wants Thread.Off
  unfold Thread.token at htoken
  cases hc : (s.thread j).control with
  | idle => exact .inr trivial
  | run p =>
      rw [hc] at htoken hguarded hok
      obtain rfl : d = 0 := by
        simp only [Control.signalling] at htoken
        omega
      cases p with
      | ret a => exact .inr trivial
      | fail => exact absurd hok id
      | call c k =>
          cases c with
          | lock => exact .inl trivial
          | unlock => exact absurd hok.1 (Nat.lt_irrefl 0)
          | act c => exact absurd hguarded.1 (Nat.lt_irrefl 0)
  | read k | exchange oldval k | wait k | blocked k => exact .inl trivial
  | signal k =>
      rw [hc] at htoken
      simp only [Control.signalling] at htoken
      omega

/-- So no thread is about to signal. -/
theorem not_signal (h : Hangs allow max s i) (j : ι) (k : ℤ → Prog (LockSig S) α) :
  (s.thread j).control ≠ .signal k
  := by
  intro hc
  have hj := h.wants_or_off j
  rw [Thread.Wants, Thread.Off, hc] at hj
  exact hj.elim id id

/-- A step that does not act does not get the thread the lock. -/
theorem stays_goes (h : Hangs allow max s i) (hcard : Fintype.card ι < 2 ^ 31) {b : BinSem}
    (hgoes : (s.thread j).Goes s b t) :
  (s.thread j).Stays sys t
  := by
  cases hgoes with
  | ret hc =>
      apply Thread.Stays.goto
      rw [Thread.Wants, hc]
      exact id
  | lock hc => exact .goto _ fun _ => trivial
  | post hc _ | unlock hc _ =>
      have hj := h.wants_or_off j
      rw [Thread.Wants, Thread.Off, hc] at hj
      exact (hj.elim id id).elim
  | overflow hc hmin => exact absurd hmin (h.inv.value_ne_intMin hcard)
  | read hc => exact .goto _ fun _ => trivial
  | wait hc _ => exact .goto _ fun _ => trivial
  | acquire hc hfree => exact absurd (h.inv.value_le_of_holds h.holds) (not_le.mpr hfree)
  | retry hc => exact .goto _ fun _ => trivial
  | consume hc hpending => exact absurd hpending (Bool.eq_false_iff.mp h.not_pending)
  | block hc _ => exact .goto _ fun _ => trivial
  | remember hc _ => exact absurd hc (h.not_signal j _)

/-- No thread gets the lock, and no program acts on the shared state. -/
theorem stays (h : Hangs allow max s i) (hcard : Fintype.card ι < 2 ^ 31)
    (hnext : sys.next s m = some s') :
  (∀ j, (s.thread j).Stays sys (s'.thread j)) ∧ ((∀ e, m ≠ .env e) → s'.shared = s.shared)
  := by
  cases sys.step hnext with
  | start hc => exact ⟨stays_set (.start _ hc), fun _ => rfl⟩
  | go hgoes => exact ⟨stays_set (h.stays_goes hcard hgoes), fun _ => rfl⟩
  | @act j _ _ _ _ _ hc hact =>
      have hj := h.wants_or_off j
      rw [Thread.Wants, Thread.Off, hc] at hj
      exact (hj.elim id id).elim
  | stay hc hact => exact ⟨fun j => .goto (s.thread j).control id, fun _ => rfl⟩
  | spurious hc => exact ⟨stays_set (h.stays_goes hcard (.retry hc)), fun _ => rfl⟩
  | wake hi hj => exact absurd hi (h.not_signal _ _)
  | @env e => exact ⟨fun j => .goto (s.thread j).control id, fun hnot => absurd rfl (hnot e)⟩

/-- The thread goes on waiting for itself. -/
theorem next (h : Hangs allow max s i) (hcard : Fintype.card ι < 2 ^ 31)
    (hprog : ∀ op, Balanced (allow (some op)) max 0 (sys.prog op))
    (hguarded : ∀ op, Guarded 0 (sys.prog op)) (hmeets : Meets sys allow s m)
    (hnext : sys.next s m = some s') :
  Hangs allow max s' i
  := by
  have hi := (h.stays hcard hnext).1 i
  refine ⟨h.inv.next hcard hprog hmeets hnext,
    along_guarded.next h.inv hguarded h.guarded hnext, ?_, (hi.wants h.wants).1⟩
  rw [Thread.Holds, hi.counts.1, hi.counts.2]
  exact h.holds

/-- And so do all that want the lock, whatever happens. -/
theorem reaches {C : State S σ Ω α ι → Move Ω ε ι → Prop} (h : Hangs allow max s i)
    (hcard : Fintype.card ι < 2 ^ 31)
    (hprog : ∀ op, Balanced (allow (some op)) max 0 (sys.prog op))
    (hguarded : ∀ op, Guarded 0 (sys.prog op)) (hC : ∀ s m, C s m → Meets sys allow s m)
    (hreach : sys.Reaches C s s') :
  Hangs allow max s' i ∧ ∀ j, (s'.thread j).acquired = (s.thread j).acquired
    ∧ ((s.thread j).Wants → (s'.thread j).Wants ∧ (s'.thread j).op = (s.thread j).op)
  := by
  induction hreach with
  | refl => exact ⟨h, fun j => ⟨rfl, fun hj => ⟨hj, rfl⟩⟩⟩
  | step _ hm hnext ih =>
      obtain ⟨hhangs, hthreads⟩ := ih
      use hhangs.next hcard hprog hguarded (hC _ _ hm) hnext
      intro j
      obtain ⟨hacquired, hwants⟩ := hthreads j
      have hj := (hhangs.stays hcard hnext).1 j
      use hj.counts.1.trans hacquired
      intro hwanted
      obtain ⟨hwants, hop⟩ := hwants hwanted
      use (hj.wants hwants).1
      rw [(hj.wants hwants).2, hop]

end Hangs

end Sync
