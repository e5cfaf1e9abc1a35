import StandaloneSel4.Lib.Prog

/-!
# Surroundings that keep a state

Surroundings that keep a state do not answer a call anyhow: a world says which answers a call may
get in a state, and what the state is then. `Runs W s p tr o s'` holds when `p`, begun in the
state `s` of the world, goes through the calls and answers in `tr` and ends with the result `o` in
the state `s'`. `wpIn W p s Q` is the weakest condition under which all these runs satisfy `Q`.
-/

/-- Surroundings with a state in `σ`: the answers to a call in a state, each with the state after
it. -/
abbrev World (S : Signature) (σ : Type) : Type :=
  σ → (c : S.Call) → S.Answer c → σ → Prop

/-- The world with only those answers that make such events. -/
def World.restrict {S : Signature} {σ : Type} (W : World S σ) (P : Prog.Event S → Prop) :
    World S σ :=
  fun s c x s' => W s c x s' ∧ P ⟨c, x⟩

namespace Prog

variable {S : Signature} {σ α β : Type} {W : World S σ}

/-- The runs that have ended. There is no result when an assertion has failed. -/
inductive Runs (W : World S σ) : σ → Prog S α → List (Event S) → Option α → σ → Prop where
  | ret (s : σ) (a : α) : Runs W s (.ret a) [] (some a) s
  | fail (s : σ) : Runs W s .fail [] none s
  | call {s s' s'' : σ} {c : S.Call} {k : S.Answer c → Prog S α} {x : S.Answer c}
      {tr : List (Event S)} {o : Option α} :
      W s c x s' → Runs W s' (k x) tr o s'' → Runs W s (.call c k) (⟨c, x⟩ :: tr) o s''

/-- All runs that have ended satisfy `Q`. -/
def wpIn (W : World S σ) : Prog S α → σ → (List (Event S) → Option α → σ → Prop) → Prop
  | .ret a, s, Q => Q [] (some a) s
  | .fail, s, Q => Q [] none s
  | .call c k, s, Q => ∀ x s', W s c x s' → (k x).wpIn W s' fun tr o s'' => Q (⟨c, x⟩ :: tr) o s''

variable {s s' : σ} {Q Q' : List (Event S) → Option α → σ → Prop}

@[simp]
theorem wpIn_ret {a : α} :
  (.ret a : Prog S α).wpIn W s Q ↔ Q [] (some a) s
  := Iff.rfl

@[simp]
theorem wpIn_fail :
  (.fail : Prog S α).wpIn W s Q ↔ Q [] none s
  := Iff.rfl

@[simp]
theorem wpIn_call {c : S.Call} {k : S.Answer c → Prog S α} :
  (.call c k : Prog S α).wpIn W s Q
    ↔ ∀ x s', W s c x s' → (k x).wpIn W s' fun tr o s'' => Q (⟨c, x⟩ :: tr) o s''
  := Iff.rfl

/-- The weakest condition is met exactly when every run satisfies the postcondition. -/
theorem wpIn_iff {p : Prog S α} :
  p.wpIn W s Q ↔ ∀ tr o s', Runs W s p tr o s' → Q tr o s'
  := by
  constructor
  · intro h tr o s' hruns
    induction hruns generalizing Q with
    | ret s a => apply h
    | fail s => apply h
    | call hanswer _ ih => apply ih (h _ _ hanswer)
  · intro h
    induction p generalizing s Q with
    | ret a => apply h _ _ _ (Runs.ret s a)
    | fail => apply h _ _ _ (Runs.fail s)
    | call c k ih =>
        intro x s' hanswer
        apply ih
        intro tr o s'' hruns
        apply h _ _ _ (Runs.call hanswer hruns)

/-- A weaker postcondition is met under the same condition. -/
theorem wpIn_mono {p : Prog S α} (h : p.wpIn W s Q) (hQ : ∀ tr o s', Q tr o s' → Q' tr o s') :
  p.wpIn W s Q'
  := by
  rw [wpIn_iff] at h ⊢
  intro tr o s' hruns
  apply hQ
  apply h tr o s' hruns

/-- Two postconditions are met together. -/
theorem wpIn_and {p : Prog S α} (h : p.wpIn W s Q) (h' : p.wpIn W s Q') :
  p.wpIn W s fun tr o s' => Q tr o s' ∧ Q' tr o s'
  := by
  rw [wpIn_iff] at h h' ⊢
  intro tr o s' hruns
  exact ⟨h tr o s' hruns, h' tr o s' hruns⟩

/-- The condition for a program and then another is that for the first to end where the second
meets its own. -/
theorem wpIn_bind {p : Prog S α} {f : α → Prog S β} {Q : List (Event S) → Option β → σ → Prop}
    (h : p.wpIn W s (fun tr o s' =>
      match o with
      | some a => (f a).wpIn W s' (fun tr' o' s'' => Q (tr ++ tr') o' s'')
      | none => Q tr none s')) :
  (p >>= f).wpIn W s Q
  := by
  induction p generalizing s Q with
  | ret a => apply h
  | fail => apply h
  | call c k ih =>
      intro x s' hanswer
      apply ih x
      apply h x s' hanswer

/-- A run of a program is followed by one of another from its result. -/
theorem Runs.bind {p : Prog S α} {f : α → Prog S β} {tr tr' : List (Event S)} {a : α}
    {o : Option β} {s'' : σ} (h : Runs W s p tr (some a) s') (h' : Runs W s' (f a) tr' o s'') :
  Runs W s (p >>= f) (tr ++ tr') o s''
  := by
  generalize hr : some a = r at h
  induction h with
  | ret s b =>
      obtain rfl := Option.some.inj hr
      exact h'
  | fail s => cases hr
  | call hanswer _ ih => exact Runs.call hanswer (ih h' hr)

/-- In a world that answers every call in such states by one that leads to such a state again, every
program has a run from there. -/
theorem exists_runs_of {I : σ → Prop} (hW : ∀ s c, I s → ∃ x s', W s c x s' ∧ I s') (p : Prog S α)
    (hs : I s) :
  ∃ tr o s', Runs W s p tr o s'
  := by
  induction p generalizing s with
  | ret a => exact ⟨_, _, _, Runs.ret s a⟩
  | fail => exact ⟨_, _, _, Runs.fail s⟩
  | call c k ih =>
      obtain ⟨x, s', hanswer, hs'⟩ := hW s c hs
      obtain ⟨tr, o, s'', hruns⟩ := ih x hs'
      exact ⟨_, _, _, Runs.call hanswer hruns⟩

/-- In a world that answers every call, every program has a run. -/
theorem exists_runs (hW : ∀ s c, ∃ x s', W s c x s') (p : Prog S α) (s : σ) :
  ∃ tr o s', Runs W s p tr o s'
  := by
  refine exists_runs_of (I := fun _ => True) (fun s c _ => ?_) p trivial
  obtain ⟨x, s', hanswer⟩ := hW s c
  exact ⟨x, s', hanswer, trivial⟩

/-! ### Restricted worlds -/

/-- The runs in a restricted world are those that make such events only. -/
theorem runs_restrict_iff {P : Event S → Prop} {p : Prog S α} {tr : List (Event S)}
    {o : Option α} :
  Runs (W.restrict P) s p tr o s' ↔ Runs W s p tr o s' ∧ ∀ e ∈ tr, P e
  := by
  constructor
  · intro hruns
    induction hruns with
    | ret s a => exact ⟨Runs.ret s a, nofun⟩
    | fail s => exact ⟨Runs.fail s, nofun⟩
    | call hanswer _ ih =>
        exact ⟨Runs.call hanswer.1 ih.1, List.forall_mem_cons.mpr ⟨hanswer.2, ih.2⟩⟩
  · rintro ⟨hruns, hP⟩
    induction hruns with
    | ret s a => apply Runs.ret
    | fail s => apply Runs.fail
    | call hanswer _ ih =>
        obtain ⟨he, hP⟩ := List.forall_mem_cons.mp hP
        apply Runs.call ⟨hanswer, he⟩ (ih hP)

/-- What holds when a run makes such events only holds of every run in the restricted world. -/
theorem wpIn_restrict {P : Event S → Prop} {p : Prog S α}
    (h : p.wpIn W s fun tr o s' => (∀ e ∈ tr, P e) → Q tr o s') :
  p.wpIn (W.restrict P) s Q
  := by
  apply wpIn_iff.mpr
  intro tr o s' hruns
  obtain ⟨hruns, hP⟩ := runs_restrict_iff.mp hruns
  apply wpIn_iff.mp h _ _ _ hruns hP

/-- In a world in which no call changes the state, no run does. -/
theorem Runs.eq_of_same (hW : ∀ s c x s', W s c x s' → s' = s) {p : Prog S α}
    {tr : List (Event S)} {o : Option α} (h : Runs W s p tr o s') :
  s' = s
  := by
  induction h with
  | ret s a => rfl
  | fail s => rfl
  | call hanswer _ ih => rw [ih, hW _ _ _ _ hanswer]

end Prog
