import StandaloneSel4.Lib.Accesses
import StandaloneSel4.Sync.Hanging

/-!
# Actions that are made of accesses

An action on the shared state need not be one step. A splitting says which accesses each action
consists of. In the system that a splitting makes of another, a thread makes one access in a step,
and other threads, and what happens from outside, come in between. Where programs act under the
lock only, and what happens from outside commutes with the accesses of the thread that is at work,
the threads that work access by access follow threads that act at once: an action counts as done
when it returns.
-/

namespace Sync

open Prog

variable {S A : Signature} {σ Ω ε ε' ι α : Type}

/-- What an action consists of: accesses to the shared state, and its return. -/
inductive Part (S A : Signature) where
  | access (a : A.Call)
  | returned (c : S.Call) (x : S.Answer c)

/-- The signature of the parts. -/
abbrev PartSig (S A : Signature) : Signature where
  Call := Part S A
  Answer
    | .access a => A.Answer a
    | .returned _ _ => Unit

/-- The accesses of an action, its return, and the program behind it. -/
def parts (c : S.Call) (k : S.Answer c → Prog (LockSig (PartSig S A)) α) :
    Prog A (S.Answer c) → Prog (LockSig (PartSig S A)) α
  | .ret x => .call (.act (.returned c x)) fun _ => k x
  | .fail => .fail
  | .call a j => .call (.act (.access a)) fun y => parts c k (j y)

/-- The program with all its actions made of accesses. -/
def split (work : (c : S.Call) → Prog A (S.Answer c)) :
    Prog (LockSig S) α → Prog (LockSig (PartSig S A)) α
  | .ret a => .ret a
  | .fail => .fail
  | .call .lock k => .call .lock fun x => split work (k x)
  | .call .unlock k => .call .unlock fun x => split work (k x)
  | .call (.act c) k => parts c (fun x => split work (k x)) (work c)

namespace Control

/-- Likewise, where a thread is. -/
def split (work : (c : S.Call) → Prog A (S.Answer c)) :
    Control S α → Control (PartSig S A) α
  | .idle => .idle
  | .run p => .run (Sync.split work p)
  | .read k => .read fun x => Sync.split work (k x)
  | .exchange oldval k => .exchange oldval fun x => Sync.split work (k x)
  | .wait k => .wait fun x => Sync.split work (k x)
  | .blocked k => .blocked fun x => Sync.split work (k x)
  | .signal k => .signal fun x => Sync.split work (k x)

/-- About to act on the shared state. -/
def Acts : Control S α → Prop
  | .run (.call (.act _) _) => True
  | _ => False

instance (c : Control S α) : Decidable c.Acts :=
  match c with
  | .run (.call (.act _) _) => isTrue trivial
  | .run (.ret _) | .run .fail | .run (.call .lock _) | .run (.call .unlock _) => isFalse id
  | .idle | .read _ | .exchange _ _ | .wait _ | .blocked _ | .signal _ => isFalse id

theorem Acts.exists {c : Control S α} (h : c.Acts) :
  ∃ a k, c = .run (.call (.act a) k)
  := by
  cases c with
  | run p =>
      cases p with
      | call a k =>
          cases a with
          | act a => exact ⟨a, k, rfl⟩
          | lock | unlock => exact absurd h id
      | ret a | fail => exact absurd h id
  | idle | read k | exchange v k | wait k | blocked k | signal k => exact absurd h id

end Control

/-- How many rounds the loops of its operation may go. -/
def Thread.rounds (t : Thread S (Ω × ℕ) α) : ℕ :=
  t.op.elim 0 Prod.snd

/-- A thread that acts under the lock only holds it when it is about to act. -/
theorem Thread.Along.holds {t : Thread S Ω α} (h : t.Along fun _ => Guarded)
    (hacts : t.control.Acts) :
  t.Holds
  := by
  obtain ⟨a, k, hk⟩ := hacts.exists
  rw [Thread.Along, hk] at h
  exact Nat.lt_of_sub_pos h.1

/-- So one thread at most is about to act. -/
theorem Inv.acts_unique [Fintype ι] [DecidableEq ι]
    {allow : Option Ω → (c : S.Call) → S.Answer c → Prop} {max : ℕ} {s : State S σ Ω α ι}
    (h : Inv allow max s) (halong : ∀ i, (s.thread i).Along fun _ => Guarded) {i j : ι}
    (hi : (s.thread i).control.Acts) (hj : (s.thread j).control.Acts) :
  i = j
  := h.exclusion ((halong i).holds hi) ((halong j).holds hj)

/-- The accesses that the actions on a shared state consist of, their loops going `n` rounds at
most. One after the other, they do what the action does. -/
structure Splitting (S A : Signature) (σ : Type) where
  acts : Actions S σ
  access : Access A σ
  work : ℕ → (c : S.Call) → Prog A (S.Answer c)
  adequate : ∀ n c s, through access (work n c) s = acts c s n

namespace Splitting

variable (X : Splitting S A σ)

/-- The system of threads that act access by access. An operation is given with the number of
rounds that its loops may go. -/
def system (prog : Ω → Prog (LockSig S) α) (env : ε → σ → σ) :
    System (PartSig S A) σ (Ω × ℕ) ε α where
  prog op := split (X.work op.2) (prog op.1)
  acts
    | .access a, s, _ => some (X.access a s)
    | .returned _ _, s, _ => some ((), s)
  env := env

/-- Where a thread is that acts access by access, when one that acts at once is at the same place
or, with what is left of the action, has still to act. -/
inductive Place (n : ℕ) (D : A.Call → Prop) (s t : σ) :
    Control (PartSig S A) α → Control S α → Prop where
  | same {c : Control S α} : ¬ c.Acts → Place n D s t (c.split (X.work n)) c
  | within {c : S.Call} {k : S.Answer c → Prog (LockSig S) α} {p : Prog A (S.Answer c)} :
      through X.access p s = X.acts c t n → Within X.access D p s →
      Place n D s t (.run (parts c (fun x => split (X.work n) (k x)) p)) (.run (.call (.act c) k))

/-- Threads that act access by access follow threads that act at once. `D i` are the accesses that
the thread `i` may make. -/
structure Follows (D : ι → A.Call → Prop) (f : State (PartSig S A) σ (Ω × ℕ) α ι)
    (c : State S σ Ω α ι) : Prop where
  lock : f.lock = c.lock
  acquired : ∀ i, (f.thread i).acquired = (c.thread i).acquired
  released : ∀ i, (f.thread i).released = (c.thread i).released
  place : ∀ i, X.Place (f.thread i).rounds (D i) f.shared c.shared (f.thread i).control
    (c.thread i).control
  still : (∀ i, ¬ (c.thread i).control.Acts) → f.shared = c.shared

/-- One thread at most is about to act, and its action consists of accesses that it may make. -/
structure Ready (D : ι → A.Call → Prop) (c : State S σ Ω α ι) : Prop where
  one : ∀ i j, (c.thread i).control.Acts → (c.thread j).control.Acts → i = j
  within : ∀ i a k, (c.thread i).control = .run (.call (.act a) k) →
    ∀ n, Within X.access (D i) (X.work n a) c.shared

variable {X} {D D' : ι → A.Call → Prop} {f f' : State (PartSig S A) σ (Ω × ℕ) α ι}
  {c c' : State S σ Ω α ι} {i j : ι}

theorem Place.acts {n : ℕ} {d : A.Call → Prop} {s t : σ} {x : Control (PartSig S A) α}
    {y : Control S α} (h : X.Place n d s t x y) (hx : x.Acts) :
  y.Acts
  := by
  cases h with
  | same hn =>
      cases y with
      | run p =>
          cases p with
          | call a k =>
              cases a with
              | act a => exact trivial
              | lock | unlock => exact absurd hx id
          | ret a | fail => exact absurd hx id
      | idle | read k | exchange v k | wait k | blocked k | signal k => exact absurd hx id
  | within hp hd => trivial

/-- A thread that is not about to act may make any accesses, on any state. -/
theorem Place.of_not_acts {n : ℕ} {d d' : A.Call → Prop} {s s' t t' : σ}
    {x : Control (PartSig S A) α} {y : Control S α} (h : X.Place n d s t x y) (hy : ¬ y.Acts) :
  X.Place n d' s' t' x y
  := by
  cases h with
  | same hn => exact .same hn
  | within hp hd => exact absurd trivial hy

theorem Place.mono {n : ℕ} {d d' : A.Call → Prop} {s t : σ} {x : Control (PartSig S A) α}
    {y : Control S α} (h : X.Place n d s t x y) (hd : ∀ a, d a → d' a) :
  X.Place n d' s t x y
  := by
  cases h with
  | same hn => exact .same hn
  | within hp hwithin => exact .within hp (hwithin.mono hd)

theorem Place.eq_split {n : ℕ} {d : A.Call → Prop} {s t : σ} {x : Control (PartSig S A) α}
    {y : Control S α} (h : X.Place n d s t x y) (hy : ¬ y.Acts) :
  x = y.split (X.work n)
  := by
  cases h with
  | same hn => rfl
  | within hp hd => exact absurd trivial hy

theorem Place.not_acts {n : ℕ} {d : A.Call → Prop} {s t : σ} {x : Control (PartSig S A) α}
    {y : Control S α} (h : X.Place n d s t x y) (hx : ∀ p, x ≠ .run p) :
  ¬ y.Acts
  := by
  cases h with
  | same hn => exact hn
  | within hp hd => exact absurd rfl (hx _)

/-- A thread holds the lock when the one that it follows does. -/
theorem Follows.holds_iff (h : X.Follows D f c) (i : ι) :
  (f.thread i).Holds ↔ (c.thread i).Holds
  := by
  rw [Thread.Holds, Thread.Holds, h.acquired, h.released]

/-- A thread is in `seL4_Wait` when the one that it follows is. -/
theorem Follows.blocked_iff (h : X.Follows D f c) (i : ι) :
  (f.thread i).Blocked ↔ (c.thread i).Blocked
  := by
  have hplace := h.place i
  unfold Thread.Blocked
  generalize (f.thread i).control = x, (c.thread i).control = y at hplace ⊢
  cases hplace with
  | same hn =>
      cases y with
      | idle | run p | read k | exchange v k | wait k | blocked k | signal k => exact Iff.rfl
  | within hp hd =>
      rename_i p
      cases p with
      | ret x | fail | call a j => exact Iff.rfl

/-! ### Steps -/

section

variable [DecidableEq ι]

/-- One thread at most is about to act also before a thread that is not becomes another. -/
theorem Ready.of_set {t : Thread S Ω α} (h : X.Ready D (c.set j t))
    (hj : ¬ (c.thread j).control.Acts) :
  X.Ready D c
  := by
  have hthread : ∀ i, (c.thread i).control.Acts → (c.set j t).thread i = c.thread i := by
    intro i hi
    apply State.set_thread_of_ne
    rintro rfl
    exact hj hi
  constructor
  · intro i i' hi hi'
    apply h.one i i'
    · rwa [hthread i hi]
    · rwa [hthread i' hi']
  · intro i a k hk
    apply h.within i a k
    rwa [hthread i (by rw [hk]; trivial)]

/-- Both threads go on to the same place, the shared states and the lock changing as they may. -/
theorem Follows.put (h : X.Follows D f c) {s u : σ} {l l' : BinSem} (hl : l = l')
    {t : Thread (PartSig S A) (Ω × ℕ) α} {t' : Thread S Ω α}
    (hcontrol : t.control = t'.control.split (X.work t.rounds))
    (hacquired : t.acquired = t'.acquired) (hreleased : t.released = t'.released)
    (hplace : ∀ j ≠ i, X.Place (f.thread j).rounds (D' j) s u (f.thread j).control
      (c.thread j).control)
    (hstill : (∀ j ≠ i, ¬ (c.thread j).control.Acts) → s = u)
    (hready : X.Ready D' (State.set ⟨u, l', c.thread⟩ i t')) :
  X.Follows D' (State.set ⟨s, l, f.thread⟩ i t) (State.set ⟨u, l', c.thread⟩ i t')
  := by
  have hself : (State.set ⟨u, l', c.thread⟩ i t').thread i = t' := State.set_thread ..
  have hother : ∀ j ≠ i, (State.set ⟨u, l', c.thread⟩ i t').thread j = c.thread j :=
    fun j hj => State.set_thread_of_ne _ hj _
  refine ⟨hl, ?_, ?_, ?_, ?_⟩
  · intro j
    by_cases hj : j = i
    · rw [hj, State.set_thread, hself, hacquired]
    · rw [State.set_thread_of_ne _ hj, hother j hj]
      exact h.acquired j
  · intro j
    by_cases hj : j = i
    · rw [hj, State.set_thread, hself, hreleased]
    · rw [State.set_thread_of_ne _ hj, hother j hj]
      exact h.released j
  · intro j
    by_cases hj : j = i
    · subst hj
      rw [State.set_thread, hself, hcontrol]
      by_cases hacts : t'.control.Acts
      · -- nobody else is about to act, so the shared states are the same
        obtain rfl : s = u := by
          apply hstill
          intro j' hj' hacts'
          apply hj'
          apply hready.one
          · rwa [hother j' hj']
          · rwa [hself]
        obtain ⟨a, k, hk⟩ := hacts.exists
        rw [hk]
        exact .within (X.adequate _ a s) (hready.within j a k (by rw [hself, hk]) _)
      · exact .same hacts
    · rw [State.set_thread_of_ne _ hj, hother j hj]
      exact hplace j hj
  · intro hno
    apply hstill
    intro j hj hacts
    apply hno j
    rwa [hother j hj]

/-- A thread that is not about to act goes on, and so does the one that it follows. -/
theorem Follows.set (h : X.Follows D f c) (hi : ¬ (c.thread i).control.Acts) {l l' : BinSem}
    (hl : l = l') {t : Thread (PartSig S A) (Ω × ℕ) α} {t' : Thread S Ω α}
    (hcontrol : t.control = t'.control.split (X.work t.rounds))
    (hacquired : t.acquired = t'.acquired) (hreleased : t.released = t'.released)
    (hD : ∀ j a, (c.thread j).control.Acts → D j a → D' j a)
    (hready : X.Ready D' (State.set ⟨c.shared, l', c.thread⟩ i t')) :
  X.Follows D' (State.set ⟨f.shared, l, f.thread⟩ i t) (State.set ⟨c.shared, l', c.thread⟩ i t')
  := by
  refine h.put hl hcontrol hacquired hreleased ?_ ?_ hready
  · intro j hj
    by_cases hacts : (c.thread j).control.Acts
    · exact (h.place j).mono fun a => hD j a hacts
    · exact (h.place j).of_not_acts hacts
  · intro hno
    apply h.still
    intro j
    by_cases hj : j = i
    · rwa [hj]
    · exact hno j hj

variable [Fintype ι] {prog : Ω → Prog (LockSig S) α} {env : ε → σ → σ} {fuel : ℕ}
  (sys : System S σ Ω ε' α)

/-- Threads can be given an operation together. -/
theorem Follows.start (h : X.Follows D f c) (hsys : sys.prog = prog) {op : Ω} {n : ℕ}
    (hnext : (X.system prog env).next f (.start i (op, n)) = some f') :
  f'.shared = f.shared ∧ ∃ c', sys.next c (.start i op) = some c'
    ∧ ∀ D', (∀ j a, (c.thread j).control.Acts → D j a → D' j a) → X.Ready D' c' →
      X.Follows D' f' c'
  := by
  subst hsys
  simp only [System.next] at hnext ⊢
  split at hnext
  · rename_i hidle
    obtain rfl := Option.some.inj hnext
    have hi := (h.place i).not_acts (by simp [hidle])
    have hsplit := (h.place i).eq_split hi
    rw [hidle] at hsplit
    cases hc : (c.thread i).control with
    | idle =>
        exact ⟨rfl, _, rfl, fun D' hD hready =>
          h.set hi h.lock rfl (h.acquired i) (h.released i) hD hready⟩
    | run p | read k | exchange v k | wait k | blocked k | signal k =>
        rw [hc] at hsplit
        cases hsplit
  · cases hnext

/-- A thread that does not act makes the step of the one that it follows. -/
theorem Follows.goes (h : X.Follows D f c) (hi : ¬ (c.thread i).control.Acts)
    (hgo : (X.system prog env).go i fuel f = some f') :
  f'.shared = f.shared ∧ ∃ c', sys.go i fuel c = some c' ∧ c'.shared = c.shared
    ∧ ∀ D', (∀ j a, (c.thread j).control.Acts → D j a → D' j a) → X.Ready D' c' →
      X.Follows D' f' c'
  := by
  have hsplit := (h.place i).eq_split hi
  have hlock := h.lock
  have hacquired := h.acquired i
  have hreleased := h.released i
  simp only [System.go, hsplit] at hgo ⊢
  cases hc : (c.thread i).control with
  | idle | blocked k =>
      rw [hc] at hgo
      cases hgo
  | run p =>
      rw [hc] at hgo
      cases p with
      | ret a =>
          obtain rfl := Option.some.inj hgo
          exact ⟨rfl, _, rfl, rfl, fun D' hD hready =>
            h.set hi hlock rfl hacquired hreleased hD hready⟩
      | fail => cases hgo
      | call a k =>
          cases a with
          | act a =>
              rw [hc] at hi
              exact absurd trivial hi
          | lock =>
              obtain rfl := Option.some.inj hgo
              exact ⟨rfl, _, rfl, rfl, fun D' hD hready =>
                h.set hi hlock rfl hacquired hreleased hD hready⟩
          | unlock =>
              obtain rfl := Option.some.inj hgo
              refine ⟨rfl, _, rfl, rfl, fun D' hD hready => ?_⟩
              refine h.set hi (congrArg _ hlock) ?_ hacquired (congrArg (· + 1) hreleased) hD hready
              simp only [Thread.goto, hlock]
              split <;> rfl
  | read k =>
      rw [hc] at hgo
      obtain rfl := Option.some.inj hgo
      refine ⟨rfl, _, rfl, rfl, fun D' hD hready => ?_⟩
      refine h.set hi hlock ?_ ?_ ?_ hD hready
      · rw [hlock]
        split <;> rfl
      · rw [hlock]
        split
        · exact congrArg (· + 1) hacquired
        · exact hacquired
      · rw [hlock]
        split <;> exact hreleased
  | exchange oldval k =>
      rw [hc] at hgo
      dsimp only [Control.split] at hgo ⊢
      rw [hlock] at hgo
      split at hgo
      · rename_i hold
        obtain rfl := Option.some.inj hgo
        rw [if_pos hold]
        refine ⟨rfl, _, rfl, rfl, fun D' hD hready => ?_⟩
        refine h.set hi rfl ?_ ?_ ?_ hD hready
        · split <;> rfl
        · split
          · exact hacquired
          · exact congrArg (· + 1) hacquired
        · split <;> exact hreleased
      · rename_i hold
        obtain rfl := Option.some.inj hgo
        rw [if_neg hold]
        exact ⟨rfl, _, rfl, rfl, fun D' hD hready =>
          h.set hi hlock rfl hacquired hreleased hD hready⟩
  | wait k =>
      rw [hc] at hgo
      dsimp only [Control.split] at hgo ⊢
      rw [hlock] at hgo
      split at hgo
      · rename_i hpending
        obtain rfl := Option.some.inj hgo
        rw [if_pos hpending]
        exact ⟨rfl, _, rfl, rfl, fun D' hD hready =>
          h.set hi rfl rfl (congrArg (· + 1) hacquired) hreleased hD hready⟩
      · rename_i hpending
        obtain rfl := Option.some.inj hgo
        rw [if_neg hpending]
        exact ⟨rfl, _, rfl, rfl, fun D' hD hready =>
          h.set hi hlock rfl hacquired hreleased hD hready⟩
  | signal k =>
      rw [hc] at hgo
      dsimp only [Control.split] at hgo ⊢
      split at hgo
      · cases hgo
      · rename_i hnobody
        obtain rfl := Option.some.inj hgo
        rw [if_neg (by simpa only [h.blocked_iff] using hnobody), hlock]
        exact ⟨rfl, _, rfl, rfl, fun D' hD hready =>
          h.set hi rfl rfl hacquired hreleased hD hready⟩

/-- The exchange of both threads fails for no reason. -/
theorem Follows.spurious (h : X.Follows D f c)
    (hnext : (X.system prog env).next f (.spurious i) = some f') :
  f'.shared = f.shared ∧ ∃ c', sys.next c (.spurious i) = some c' ∧ c'.shared = c.shared
    ∧ ∀ D', (∀ j a, (c.thread j).control.Acts → D j a → D' j a) → X.Ready D' c' →
      X.Follows D' f' c'
  := by
  simp only [System.next] at hnext ⊢
  split at hnext
  · rename_i oldval k hexchange
    obtain rfl := Option.some.inj hnext
    have hi := (h.place i).not_acts (by simp [hexchange])
    have hsplit := (h.place i).eq_split hi
    rw [hexchange] at hsplit
    cases hc : (c.thread i).control with
    | exchange v k' =>
        rw [hc] at hsplit
        obtain ⟨rfl, rfl⟩ := Control.exchange.inj hsplit
        exact ⟨rfl, _, rfl, rfl, fun D' hD hready =>
          h.set hi h.lock rfl (h.acquired i) (h.released i) hD hready⟩
    | idle | run p | read k' | wait k' | blocked k' | signal k' =>
        rw [hc] at hsplit
        cases hsplit
  · cases hnext

/-- The signal of a thread wakes the same thread as that of the one that it follows. -/
theorem Follows.wake (h : X.Follows D f c)
    (hnext : (X.system prog env).next f (.wake i j) = some f') :
  f'.shared = f.shared ∧ ∃ c', sys.next c (.wake i j) = some c' ∧ c'.shared = c.shared
    ∧ ∀ D', (∀ l a, (c.thread l).control.Acts → D l a → D' l a) → X.Ready D' c' →
      X.Follows D' f' c'
  := by
  simp only [System.next] at hnext ⊢
  split at hnext
  · rename_i k k' hsignal hblocked
    obtain rfl := Option.some.inj hnext
    have hi := (h.place i).not_acts (by simp [hsignal])
    have hj := (h.place j).not_acts (by simp [hblocked])
    have hsplit := (h.place i).eq_split hi
    have hsplit' := (h.place j).eq_split hj
    rw [hsignal] at hsplit
    rw [hblocked] at hsplit'
    obtain ⟨l, hl, rfl⟩ : ∃ l, (c.thread i).control = .signal l
        ∧ k = fun x => split (X.work (f.thread i).rounds) (l x) := by
      cases hc : (c.thread i).control with
      | signal l =>
          rw [hc] at hsplit
          exact ⟨l, rfl, Control.signal.inj hsplit⟩
      | idle | run p | read l | exchange v l | wait l | blocked l =>
          rw [hc] at hsplit
          cases hsplit
    obtain ⟨l', hl', rfl⟩ : ∃ l, (c.thread j).control = .blocked l
        ∧ k' = fun x => split (X.work (f.thread j).rounds) (l x) := by
      cases hc : (c.thread j).control with
      | blocked l =>
          rw [hc] at hsplit'
          exact ⟨l, rfl, Control.blocked.inj hsplit'⟩
      | idle | run p | read l | exchange v l | wait l | signal l =>
          rw [hc] at hsplit'
          cases hsplit'
    rw [hl, hl']
    refine ⟨rfl, _, rfl, rfl, fun D' hD hready => ?_⟩
    have hne : j ≠ i := by
      rintro rfl
      rw [hl] at hl'
      cases hl'
    have hj' : (c.set i ((c.thread i).goto (.run (l 0)))).thread j = c.thread j :=
      State.set_thread_of_ne _ hne _
    have hnot : ¬ ((c.set i ((c.thread i).goto (.run (l 0)))).thread j).control.Acts := by
      rwa [hj']
    have hmiddle : X.Follows D'
        (f.set i ((f.thread i).goto (.run (split (X.work (f.thread i).rounds) (l 0)))))
        (c.set i ((c.thread i).goto (.run (l 0)))) :=
      h.set hi h.lock rfl (h.acquired i) (h.released i) hD (hready.of_set hnot)
    refine hmiddle.set hnot h.lock rfl ?_ ?_ (fun _ _ _ ha => ha) hready
    · exact congrArg (· + 1) (h.acquired j)
    · exact h.released j
  · cases hnext

/-- What a step of a thread can be when it acts. The one that it follows does nothing while the
thread makes its accesses, and acts when the thread returns from them. -/
inductive Acted (X : Splitting S A σ) (sys : System S σ Ω ε' α) (D : ι → A.Call → Prop)
    (f : State (PartSig S A) σ (Ω × ℕ) α ι) (c : State S σ Ω α ι) (i : ι)
    (f' : State (PartSig S A) σ (Ω × ℕ) α ι) : Prop where
  | access {a : A.Call} {k : A.Answer a → Prog (LockSig (PartSig S A)) α} :
      (f.thread i).control = .run (.call (.act (.access a)) k) → D i a →
      f'.shared = (X.access a f.shared).2 → X.Follows D f' c → Acted X sys D f c i f'
  | returned {n : ℕ} {a : S.Call} {x : S.Answer a} {k : Unit → Prog (LockSig (PartSig S A)) α}
      {l : S.Answer a → Prog (LockSig S) α} {c' : State S σ Ω α ι} :
      (f.thread i).control = .run (.call (.act (.returned a x)) k) →
      (c.thread i).control = .run (.call (.act a) l) →
      X.acts a c.shared n = some (x, f.shared) → f'.shared = f.shared →
      sys.go i n c = some c' → c'.shared = f.shared →
      (∀ D', X.Ready D' c' → X.Follows D' f' c') → Acted X sys D f c i f'

/-- A thread that acts makes an access, or returns and has acted like the one that it follows. -/
theorem Follows.acted (h : X.Follows D f c) (hready : X.Ready D c) (hsys : sys.acts = X.acts)
    (hi : (c.thread i).control.Acts) (hgo : (X.system prog env).go i fuel f = some f') :
  X.Acted sys D f c i f'
  := by
  obtain ⟨a, k, hk⟩ := hi.exists
  have hplace := h.place i
  have hothers : ∀ j ≠ i, ¬ (c.thread j).control.Acts :=
    fun j hj hacts => hj (hready.one j i hacts hi)
  rw [hk] at hplace
  generalize hx : (f.thread i).control = x at hplace
  cases hplace with
  | same hn => exact absurd trivial hn
  | @within _ _ p hp hd =>
      simp only [System.go, hx] at hgo
      cases p with
      | fail => cases hgo
      | call b j =>
          obtain rfl := Option.some.inj hgo
          obtain ⟨hb, hrest⟩ := (within_call ..).mp hd
          refine .access hx hb rfl ⟨h.lock, ?_, ?_, ?_, fun hno => absurd hi (hno i)⟩
          · exact State.forall_set (P := fun j t => t.acquired = (c.thread j).acquired)
              (h.acquired i) fun j _ => h.acquired j
          · exact State.forall_set (P := fun j t => t.released = (c.thread j).released)
              (h.released i) fun j _ => h.released j
          · apply State.forall_set (P := fun j t => X.Place t.rounds (D j) _ _ t.control
              (c.thread j).control)
            · rw [hk]
              exact .within hp hrest
            · intro j hj
              exact (h.place j).of_not_acts (hothers j hj)
      | ret y =>
          obtain rfl := Option.some.inj hgo
          have hstep : sys.go i (f.thread i).rounds c
              = some (State.set ⟨f.shared, c.lock, c.thread⟩ i
                ((c.thread i).goto (.run (k y)))) := by
            simp only [System.go, hk, System.call, hsys, ← hp, through_ret]
          refine .returned hx hk hp.symm rfl hstep rfl ?_
          intro D' hready'
          refine h.put h.lock rfl (h.acquired i) (h.released i) ?_ (fun _ => rfl) hready'
          intro j hj
          exact (h.place j).of_not_acts (hothers j hj)

end

/-- What happens from outside happens to both shared states, if it commutes with the accesses of
the thread that is at work. -/
theorem Follows.outside (h : X.Follows D f c) (hready : X.Ready D c) {e : σ → σ}
    (he : ∀ i a, (c.thread i).control.Acts → D i a → Commutes X.access e a) :
  X.Follows D { f with shared := e f.shared } { c with shared := e c.shared }
  := by
  refine ⟨h.lock, h.acquired, h.released, ?_, fun hno => congrArg e (h.still hno)⟩
  intro i
  have hplace := h.place i
  by_cases hi : (c.thread i).control.Acts
  · obtain ⟨a, k, hk⟩ := hi.exists
    have hcommutes := fun b => he i b hi
    dsimp only
    rw [hk] at hplace ⊢
    generalize (f.thread i).control = x at hplace ⊢
    cases hplace with
    | same hn => exact absurd trivial hn
    | @within _ _ p hp hd =>
        apply Place.within
        · have hwhole := hready.within i a k hk (f.thread i).rounds
          rw [hd.through_commutes hcommutes, hp, ← X.adequate, ← X.adequate,
            hwhole.through_commutes hcommutes]
        · exact hd.commutes hcommutes
  · exact hplace.of_not_acts hi

end Splitting

end Sync
