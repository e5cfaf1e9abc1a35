import StandaloneSel4.Console.ThreadCommands

/-!
# Where commands cut

The verbs check the length of the line before they cut it. The sub-commands of `thread` do not: a
sub-command with nothing behind it, or `del` with a single character, is cut behind its end.
-/

open Prog SeL4 Syscall

namespace Shell

open CString (ascii ne_zero_of_not_mem)

/-- A call of `substr` cuts within the text, or right behind it. -/
def Within : Event CommandSig → Prop
  | ⟨.inr (.inr (.substr pos size)), _⟩ => pos ≤ size
  | _ => True

/-- All cuts of a program are so. -/
def CutsWithin {α : Type} (p : Command α) : Prop :=
  p.wp fun tr _ => ∀ e ∈ tr, Within e

/-- The arguments are a sub-command with nothing behind it, or `del` and one character. -/
def CutsPastArgs (args : List UInt8) : Prop :=
  args = ascii "suspend" ∨ args = ascii "resume" ∨ args = ascii "prio" ∨ args = ascii "del"
    ∨ ∃ y, args = ascii "del" ++ [y]

/-- The line is `thread`, any character, and such arguments. -/
def CutsPast (line : List UInt8) : Prop :=
  ∃ x args, line = ascii "thread" ++ x :: args ∧ CutsPastArgs args

variable {α β : Type} {p : Command α} {f : α → Command β} {ctx : Context} {cmd args : BasicString}
  {text pre : List UInt8} {pos n : ℕ}

/-! ### Rules -/

theorem CutsWithin.ret (a : α) :
  CutsWithin (.ret a)
  := ⟨nofun, nofun⟩

theorem CutsWithin.fail :
  CutsWithin (.fail : Command α)
  := ⟨nofun, nofun⟩

/-- A call that is no cut, or one within. -/
theorem CutsWithin.call {c : CommandSig.Call} {k : CommandSig.Answer c → Command α}
    (hc : ∀ x, Within ⟨c, x⟩) (hk : ∀ x, CutsWithin (k x)) :
  CutsWithin (.call c k)
  := by
  refine ⟨nofun, fun x => ?_⟩
  apply wp_mono (hk x)
  intro tr o htr
  apply List.forall_mem_cons.mpr ⟨hc x, htr⟩

theorem CutsWithin.of_call {c : CommandSig.Call} {k : CommandSig.Answer c → Command α}
    (h : CutsWithin (.call c k)) (x : CommandSig.Answer c) :
  Within ⟨c, x⟩ ∧ CutsWithin (k x)
  := by
  constructor
  · have hexec : Exec (.call c k) [⟨c, x⟩] .running := Exec.call c k x (Exec.stop _)
    exact wp_iff.mp h _ _ hexec _ List.mem_cons_self
  · apply wp_mono (h.2 x)
    intro tr o htr
    exact (List.forall_mem_cons.mp htr).2

theorem CutsWithin.bind (hp : CutsWithin p) (hf : ∀ a, CutsWithin (f a)) :
  CutsWithin (p >>= f)
  := by
  apply wp_bind
  apply wp_mono hp
  intro tr o htr
  cases o with
  | ret a =>
      apply wp_mono (hf a)
      intro tr' o' htr'
      apply List.forall_mem_append.mpr ⟨htr, htr'⟩
  | fail => exact htr
  | running => exact htr

/-- The first of two programs cuts within if both do. -/
theorem CutsWithin.of_bind (h : CutsWithin (p >>= f)) :
  CutsWithin p
  := by
  induction p with
  | ret a => apply CutsWithin.ret
  | fail => apply CutsWithin.fail
  | call c k ih =>
      apply CutsWithin.call
      · intro x
        exact (CutsWithin.of_call h x).1
      · intro x
        apply ih x (CutsWithin.of_call h x).2

/-- The console cuts nothing by itself. -/
theorem CutsWithin.console (p : Console α) :
  CutsWithin (console p)
  := by
  induction p with
  | ret a => apply CutsWithin.ret
  | fail => apply CutsWithin.fail
  | call c k ih => apply CutsWithin.call (c := .inl c) (fun _ => trivial) ih

/-- Nor does a client. -/
theorem CutsWithin.client (p : Client α) :
  CutsWithin (client p)
  := by
  induction p with
  | ret a => apply CutsWithin.ret
  | fail => apply CutsWithin.fail
  | call c k ih => apply CutsWithin.call (c := .inr (.inl c)) (fun _ => trivial) ih

theorem CutsWithin.defined (a : Option α) :
  CutsWithin (defined a)
  := by
  cases a with
  | none => apply CutsWithin.fail
  | some a => apply CutsWithin.ret

/-- After a test both branches must cut within. -/
theorem CutsWithin.branch {t : Option Bool} {p q : Command α} (hp : t = some true → CutsWithin p)
    (hq : CutsWithin q) :
  CutsWithin (Shell.defined t >>= fun b => if b = true then p else q)
  := by
  cases t with
  | none => apply CutsWithin.fail
  | some b =>
      cases b with
      | true => apply hp rfl
      | false => exact hq

/-- After a test for a prefix the first branch is for texts that have it. -/
theorem CutsWithin.prefixed (lit : String) {p q : Command α} (h : cmd.Holds text)
    (hlit : 0 ∉ ascii lit) (hp : (ascii lit).isPrefixOf text = true → CutsWithin p)
    (hq : CutsWithin q) :
  CutsWithin (startsWith cmd lit >>= fun b => if b = true then p else q)
  := by
  apply CutsWithin.branch _ hq
  intro hsome
  apply hp
  rw [h.startsWith (ne_zero_of_not_mem hlit)] at hsome
  exact Option.some.inj hsome

theorem CutsWithin.cut {s : BasicString} (h : pos ≤ s.size) :
  CutsWithin (cut s pos)
  := CutsWithin.call (fun _ => h) fun _ => CutsWithin.console _

/-- A program that begins with a cut cuts within only if that one does. -/
theorem CutsWithin.le_size {s : BasicString} {f : BasicString → Command α}
    (h : CutsWithin (Shell.cut s pos >>= f)) :
  pos ≤ s.size
  := (CutsWithin.of_call (CutsWithin.of_bind h) ()).1

/-- A cut behind the end of the text is not within. -/
theorem not_within_cut {s : BasicString} {f : BasicString → Command α} (h : s.Holds text)
    (hlt : text.length < pos) :
  ¬ CutsWithin (cut s pos >>= f)
  := by
  intro hwithin
  have hle := hwithin.le_size
  rw [h.size] at hle
  omega

/-! ### Sub-commands -/

theorem cmdThreadList_within (ctx : Context) :
  CutsWithin ctx.cmdThreadList
  := by
  apply CutsWithin.bind (CutsWithin.client _)
  intro r
  apply CutsWithin.ret

theorem cmdThreadOp_within (ctx : Context) (op : ThreadRequest.ThreadOp) (h : pos ≤ args.size) :
  CutsWithin (ctx.cmdThreadOp op pos args)
  := by
  apply CutsWithin.bind (CutsWithin.cut h)
  intro argStr
  apply CutsWithin.bind (CutsWithin.defined _)
  intro badge
  apply CutsWithin.bind (CutsWithin.client _)
  intro r
  apply CutsWithin.bind (CutsWithin.console _)
  intro _
  apply CutsWithin.ret

theorem cmdThreadPrio_within (ctx : Context) (h : 5 ≤ args.size) :
  CutsWithin (ctx.cmdThreadPrio args)
  := by
  apply CutsWithin.bind (CutsWithin.cut h)
  intro argStr
  apply CutsWithin.bind (CutsWithin.defined _)
  intro badge
  cases badge.endPtr with
  | none =>
      apply CutsWithin.bind (CutsWithin.console _)
      intro _
      apply CutsWithin.ret
  | some outArg =>
      apply CutsWithin.bind (CutsWithin.defined _)
      intro prio
      apply CutsWithin.bind (CutsWithin.client _)
      intro r
      apply CutsWithin.bind (CutsWithin.console _)
      intro _
      apply CutsWithin.ret

/-- A text with a prefix is at least that long, and longer unless it is the prefix. -/
theorem lt_size_of_isPrefixOf (h : args.Holds text) (hpre : pre.isPrefixOf text = true)
    (hne : text ≠ pre) :
  pre.length < args.size
  := by
  obtain ⟨rest, rfl⟩ := List.isPrefixOf_iff_prefix.mp hpre
  rw [h.size, List.length_append]
  cases rest with
  | nil => exact absurd (List.append_nil pre) hne
  | cons y rest => apply Nat.lt_add_of_pos_right (Nat.succ_pos _)

/-- It is longer by two unless there is at most one character behind the prefix. -/
theorem succ_lt_size_of_isPrefixOf (h : args.Holds text) (hpre : pre.isPrefixOf text = true)
    (hne : text ≠ pre) (hne' : ¬ ∃ y, text = pre ++ [y]) :
  pre.length + 1 < args.size
  := by
  obtain ⟨rest, rfl⟩ := List.isPrefixOf_iff_prefix.mp hpre
  rw [h.size, List.length_append]
  match rest with
  | [] => exact absurd (List.append_nil pre) hne
  | [y] => exact absurd ⟨y, rfl⟩ hne'
  | y :: z :: rest => apply Nat.add_lt_add_left (Nat.succ_lt_succ (Nat.succ_pos _))

/-- Other arguments are cut within. -/
theorem cmdThread_within (ctx : Context) (h : args.Holds text) (hnot : ¬ CutsPastArgs text) :
  CutsWithin (ctx.cmdThread args)
  := by
  simp only [CutsPastArgs, not_or] at hnot
  obtain ⟨hsuspend, hresume, hprio, hdel, hdel'⟩ := hnot
  apply CutsWithin.branch (fun _ => cmdThreadList_within ctx)
  apply CutsWithin.prefixed "suspend" h (by decide)
  · intro hpre
    apply cmdThreadOp_within ctx .suspend
    apply lt_size_of_isPrefixOf h hpre hsuspend
  apply CutsWithin.prefixed "resume" h (by decide)
  · intro hpre
    apply cmdThreadOp_within ctx .resume
    apply lt_size_of_isPrefixOf h hpre hresume
  apply CutsWithin.prefixed "del" h (by decide)
  · intro hpre
    apply cmdThreadOp_within ctx .stopAndDelete
    apply succ_lt_size_of_isPrefixOf h hpre hdel hdel'
  apply CutsWithin.prefixed "prio" h (by decide)
  · intro hpre
    apply cmdThreadPrio_within
    apply lt_size_of_isPrefixOf h hpre hprio
  apply CutsWithin.ret

/-- These arguments are cut behind their end. -/
theorem cmdThread_past (ctx : Context) (h : args.Holds text) (hpast : CutsPastArgs text) :
  ¬ CutsWithin (ctx.cmdThread args)
  := by
  rcases hpast with rfl | rfl | rfl | rfl | ⟨y, rfl⟩
  · rw [cmdThread_suspend ctx [] h]
    apply not_within_cut h (by decide)
  · rw [cmdThread_resume ctx [] h]
    apply not_within_cut h (by decide)
  · rw [cmdThread_prio ctx [] h]
    apply not_within_cut h (by decide)
  · rw [cmdThread_del ctx [] h]
    apply not_within_cut h (by decide)
  · rw [cmdThread_del ctx [y] h]
    apply not_within_cut h (Nat.lt_succ_self 4)

/-! ### Lines -/

/-- The verbs with one operand are refused when the line is too short to be cut. -/
theorem withOperand_within {minSize : ℕ} {body : ℤ → Command ℤ} (ctx : Context)
    (hpos : pos ≤ minSize) (hbody : ∀ n, CutsWithin (body n)) (cmd : BasicString) :
  CutsWithin (ctx.withOperand minSize pos body cmd)
  := by
  unfold Context.withOperand
  split
  · apply CutsWithin.ret
  · apply CutsWithin.bind (CutsWithin.cut (by omega))
    intro args
    apply CutsWithin.bind (CutsWithin.defined _)
    intro operand
    apply CutsWithin.bind
    · unfold Context.unlessZero
      split
      · apply hbody
      · apply CutsWithin.ret
    · intro r
      apply CutsWithin.bind (CutsWithin.console _)
      intro _
      apply CutsWithin.ret

theorem cmdDebug_within (ctx : Context) (op : DebugRequest.Operation) :
  CutsWithin (ctx.cmdDebug op)
  := by
  apply CutsWithin.bind (CutsWithin.client _)
  intro r
  apply CutsWithin.ret

theorem cmdKmalloc_within (ctx : Context) (n : ℤ) :
  CutsWithin (ctx.cmdKmalloc n)
  := by
  apply CutsWithin.bind (CutsWithin.client _)
  intro r
  apply CutsWithin.ret

theorem cmdTouch_within (n : ℤ) :
  CutsWithin (Context.cmdTouch n)
  := CutsWithin.call (c := .inr (.inr (.touch _))) (fun _ => trivial) fun _ => CutsWithin.ret _

theorem cmdKfree_within (ctx : Context) (n : ℤ) :
  CutsWithin (ctx.cmdKfree n)
  := by
  apply CutsWithin.bind (CutsWithin.client _)
  intro r
  split
  · apply CutsWithin.ret
  · apply CutsWithin.ret

theorem cmdMmap_within (ctx : Context) (n : ℤ) :
  CutsWithin (ctx.cmdMmap n)
  := by
  apply CutsWithin.bind (CutsWithin.client _)
  intro r
  split
  · apply CutsWithin.ret
  · apply CutsWithin.ret

/-- The line `thread`, a character and some arguments is cut within exactly if the arguments are. -/
theorem thread_within_iff {x : UInt8} {rest : List UInt8} (ctx : Context)
    (h : cmd.Holds (ascii "thread" ++ x :: rest)) (hrest : rest ≠ []) :
  CutsWithin (ctx.processNewCommand cmd) ↔ ¬ CutsPastArgs rest
  := by
  have hpos : 1 ≤ rest.length := List.length_pos_iff.mpr hrest
  have hlen : (ascii "thread" ++ x :: rest).length = 7 + rest.length := by
    rw [List.length_append, List.length_cons, Nat.add_comm rest.length, ← Nat.add_assoc]
    rfl
  rw [processNewCommand_thread ctx _ h (Nat.succ_le_succ hpos), cut_bind h (by omega)]
  constructor
  · intro hwithin hpast
    have hargs := h.made (show (64 : ℕ) ≠ 0 by decide) 7
    apply cmdThread_past ctx hargs hpast
    have hcut := (CutsWithin.of_call hwithin ()).2
    have hcmdThread := (CutsWithin.of_call hcut (64 : ℕ)).2
    apply CutsWithin.of_bind hcmdThread
  · intro hnot
    apply CutsWithin.call (fun _ => show 7 ≤ _ by omega)
    intro _
    apply CutsWithin.call (c := .inl (.kmalloc _)) (fun _ => trivial)
    intro (newS : ℕ)
    apply CutsWithin.bind
    · by_cases hnew : newS = 0
      · rw [hnew, BasicString.made, if_pos rfl, cmdThread_null]
        apply CutsWithin.fail
      · apply cmdThread_within ctx (h.made hnew 7) hnot
    · intro r
      apply CutsWithin.bind (CutsWithin.console _)
      intro _
      apply CutsWithin.ret

/-- A line that does not begin with `thread` is cut within. -/
theorem other_within (ctx : Context) (h : cmd.Holds text)
    (hnot : (ascii "thread").isPrefixOf text = false) :
  CutsWithin (ctx.processNewCommand cmd)
  := by
  apply CutsWithin.branch (fun _ => cmdDebug_within ctx _)
  rw [startsWith_skip "thread" h (by decide) hnot]
  apply CutsWithin.branch (fun _ => CutsWithin.ret _)
  apply CutsWithin.branch (fun _ => withOperand_within ctx (by decide) (cmdKmalloc_within ctx) _)
  apply CutsWithin.branch (fun _ => withOperand_within ctx (by decide) cmdTouch_within _)
  apply CutsWithin.branch (fun _ => withOperand_within ctx (by decide) (cmdKfree_within ctx) _)
  apply CutsWithin.branch (fun _ => cmdDebug_within ctx _)
  apply CutsWithin.branch (fun _ => CutsWithin.ret _)
  apply CutsWithin.branch (fun _ => CutsWithin.ret _)
  apply CutsWithin.branch (fun _ => withOperand_within ctx (by decide) (cmdMmap_within ctx) _)
  apply CutsWithin.ret

/-- `thread` with at most one character behind it is refused. -/
theorem short_within {rest : List UInt8} (ctx : Context) (h : cmd.Holds (ascii "thread" ++ rest))
    (hrest : rest.length < 2) :
  CutsWithin (ctx.processNewCommand cmd)
  := by
  have hsize : cmd.size < 8 := by
    have hthread : (ascii "thread").length = 6 := rfl
    rw [h.size, List.length_append, hthread]
    omega
  rw [Context.processNewCommand, isText_skip "sched" h (by decide) rfl,
    startsWith_take "thread" h (by decide) rfl, if_pos hsize]
  apply CutsWithin.ret

theorem cutsPast_iff {x : UInt8} {rest : List UInt8} :
  CutsPast (ascii "thread" ++ x :: rest) ↔ CutsPastArgs rest
  := by
  constructor
  · rintro ⟨y, args, heq, hpast⟩
    obtain ⟨-, rfl⟩ := List.cons.inj (List.append_cancel_left heq)
    exact hpast
  · intro hpast
    exact ⟨x, rest, rfl, hpast⟩

/-- There are arguments in such a line. -/
theorem CutsPastArgs.ne_nil (h : CutsPastArgs text) :
  text ≠ []
  := by
  rcases h with rfl | rfl | rfl | rfl | ⟨y, rfl⟩ <;> nofun

/-- Every cut that handling a line makes is within the text exactly if the line is not `thread`, any
character, and a sub-command with nothing behind it or `del` and one character. -/
theorem cuts_within_iff (h : cmd.Holds text) :
  (∀ tr o, Exec (ctx.processNewCommand cmd) tr o → ∀ e ∈ tr, Within e) ↔ ¬ CutsPast text
  := by
  rw [← wp_iff (Q := fun tr _ => ∀ e ∈ tr, Within e)]
  by_cases hthread : (ascii "thread").isPrefixOf text = true
  · obtain ⟨rest, rfl⟩ := List.isPrefixOf_iff_prefix.mp hthread
    match rest, h with
    | [], h =>
        apply iff_of_true (short_within ctx h Nat.two_pos)
        rintro ⟨x, args, heq, -⟩
        cases List.append_cancel_left heq
    | [x], h =>
        apply iff_of_true (short_within ctx h (Nat.lt_succ_self 1))
        rw [cutsPast_iff]
        intro hpast
        exact hpast.ne_nil rfl
    | x :: y :: rest, h =>
        rw [cutsPast_iff]
        apply thread_within_iff ctx h (List.cons_ne_nil _ _)
  · apply iff_of_true (other_within ctx h (Bool.eq_false_iff.mpr hthread))
    rintro ⟨x, args, rfl, -⟩
    exact hthread (List.isPrefixOf_iff_prefix.mpr (List.prefix_append _ _))

/-- `thread del 12` is cut within. -/
theorem cuts_within_del :
  ∃ cmd, BasicString.Holds cmd (ascii "thread del 12")
    ∧ ∀ tr o, Exec (Context.initial.processNewCommand cmd) tr o → ∀ e ∈ tr, Within e
  := by
  have hholds : (⟨64, ascii "thread del 12" ++ [0], 13⟩ : BasicString).Holds
      (ascii "thread del 12") := ⟨rfl, rfl, ne_zero_of_not_mem (by decide), by decide⟩
  refine ⟨_, hholds, (cuts_within_iff hholds).mpr ?_⟩
  rw [show ascii "thread del 12" = ascii "thread" ++ 0x20 :: ascii "del 12" from rfl, cutsPast_iff]
  rintro (heq | heq | heq | heq | ⟨y, heq⟩)
  · exact absurd heq (by decide)
  · exact absurd heq (by decide)
  · exact absurd heq (by decide)
  · exact absurd heq (by decide)
  · exact absurd (show 6 = 4 from congrArg List.length heq) (by decide)

/-- `thread del` is cut behind its end. -/
theorem cuts_past_del :
  ∃ cmd tr o, BasicString.Holds cmd (ascii "thread del")
    ∧ Exec (Context.initial.processNewCommand cmd) tr o ∧ ∃ e ∈ tr, ¬ Within e
  := by
  have hholds : (⟨64, ascii "thread del" ++ [0], 10⟩ : BasicString).Holds
      (ascii "thread del") := ⟨rfl, rfl, ne_zero_of_not_mem (by decide), by decide⟩
  have hexec := exec_observe granting []
    (Context.initial.processNewCommand ⟨64, ascii "thread del" ++ [0], 10⟩)
  refine ⟨_, _, _, hholds, hexec, ⟨.inr (.inr (.substr 5 3)), ()⟩, ?_, show ¬ 5 ≤ 3 by decide⟩
  exact List.mem_cons_of_mem _ (List.mem_cons_of_mem _ List.mem_cons_self)

end Shell
