import StandaloneSel4.Console.Scanning
import StandaloneSel4.Console.ThreadCommands

/-!
# Missing operands

`prio` takes an operand to be missing when `strtol` leaves the end pointer as it was, which it does
only for the empty text. So it refuses nothing but a text of one character, which it cuts off; any
longer text sets a priority, and where there is no number it is zero. A number that is not a `long`
is not converted at all.
-/

open Prog SeL4 Syscall

namespace Shell

open CString (ascii ne_zero_of_not_mem)

/-- A decimal integer: digits, and perhaps a sign before them. -/
def IsInteger (l : List UInt8) : Prop :=
  ∃ sign ds, l = sign ++ ds ∧ sign ∈ [[], ascii "-", ascii "+"] ∧ ds ≠ []
    ∧ ∀ c ∈ ds, CString.IsDigit 10 c

/-- The text contains two decimal integers separated by blanks. -/
def TwoIntegers (text : List UInt8) : Prop :=
  ∃ before badge blanks priority after,
    text = before ++ (badge ++ (blanks ++ (priority ++ after)))
      ∧ IsInteger badge ∧ IsInteger priority ∧ blanks ≠ [] ∧ ∀ c ∈ blanks, CString.isspace c

variable {ctx : Context} {cmd args : BasicString} {text : List UInt8}
  {tr : List (Event CommandSig)} {o : Outcome ℤ} {i : ℕ}

theorem object_drop (ctx : Context) (h : args.Holds text) (hi : i ≤ text.length) :
  (ctx.object args).drop (i + 1) = text.drop i ++ 0 :: []
  := by
  rw [Context.object, h.bytes, List.drop_succ_cons, List.drop_append_of_le_length hi]

/-- From any position in the text of a string, or at its end, a number is converted that is a
`long`. Unless it is the end, the end pointer points behind what is read. -/
theorem exists_strtol (ctx : Context) (h : args.Holds text) (hi : i ≤ text.length)
    (hfits : CString.Fits 10 (text.drop i)) :
  ∃ r, ctx.strtol args (i + 1) = .ret r ∧ r.value = CString.signedValue 10 (text.drop i)
    ∧ r.endPtr = if text.drop i = [] then none
        else some (i + CString.readLength 10 (text.drop i) + 1)
  := by
  obtain ⟨r, hr, hvalue, hend⟩ := CString.exists_strtol_ten (Nat.succ_pos i)
    (fun c hc => h.ne_zero c (List.mem_of_mem_drop hc)) (object_drop ctx h hi) hfits
  refine ⟨r, ?_, hvalue, ?_⟩
  · rw [Context.strtol, hr]
    rfl
  · rw [hend, Nat.add_right_comm]

/-- Any other number is not. -/
theorem strtol_eq_fail (ctx : Context) (h : args.Holds text) (hi : i ≤ text.length)
    (hfits : ¬ CString.Fits 10 (text.drop i)) :
  ctx.strtol args (i + 1) = .fail
  := by
  rw [Context.strtol, CString.strtol_ten_eq_none (Nat.succ_pos i)
    (fun c hc => h.ne_zero c (List.mem_of_mem_drop hc)) (object_drop ctx h hi) hfits]
  rfl

/-! ### Programs that send something -/

/-- The program does not return without having sent something. -/
def Sends {α : Type} (p : Command α) : Prop :=
  p.wp fun tr o => ∀ a, o = .ret a → syscalls tr ≠ []

theorem Sends.fail {α : Type} :
  Sends (.fail : Command α)
  := ⟨nofun, nofun⟩

theorem Sends.call {α : Type} {c : CommandSig.Call} {k : CommandSig.Answer c → Command α}
    (hk : ∀ x, Sends (k x)) :
  Sends (.call c k)
  := by
  refine ⟨nofun, fun x => ?_⟩
  apply wp_mono (hk x)
  intro tr o ho a ha hnil
  rw [← List.singleton_append, syscalls_append] at hnil
  exact ho a ha (List.append_eq_nil_iff.mp hnil).2

/-- A call to the root server is something that is sent. -/
theorem Sends.request {γ : Type} (type : ReturnType γ) (endpoint : ℕ) (id : ID) (b : BaseRequest)
    (mrs : Registers) :
  Sends (client (performBase type endpoint id b mrs))
  := by
  rw [performBase_eq]
  split
  · refine ⟨nofun, fun x => wp_iff.mpr ?_⟩
    rintro tr o - a - hnil
    cases hnil
  · refine ⟨nofun, fun x => wp_iff.mpr ?_⟩
    rintro tr o - a - hnil
    cases hnil

theorem Sends.bind {α β : Type} {p : Command α} {f : α → Command β} (hp : Sends p) :
  Sends (p >>= f)
  := by
  apply wp_bind
  apply wp_mono hp
  intro tr o ho
  cases o with
  | ret a =>
      apply wp_iff.mpr
      intro tr' o' _ b _ hnil
      rw [syscalls_append] at hnil
      exact ho a rfl (List.append_eq_nil_iff.mp hnil).1
  | fail => exact nofun
  | running => exact nofun

theorem Sends.cut {α : Type} {s : BasicString} {f : BasicString → Command α} {pos : ℕ}
    (h : s.Holds text) (hpos : pos ≤ text.length)
    (hf : ∀ part, part.Holds (text.drop pos) → Sends (f part))
    (hnull : ∀ size, f ⟨0, [], size⟩ = .fail) :
  Sends (cut s pos >>= f)
  := by
  rw [cut_bind h hpos]
  apply Sends.call
  intro _
  apply Sends.call (c := .inl (.kmalloc _))
  intro (newS : ℕ)
  by_cases hnew : newS = 0
  · rw [hnew, BasicString.made, if_pos rfl, hnull]
    apply Sends.fail
  · exact hf _ (h.made hnew pos)

/-! ### `prio` -/

/-- With nothing behind the blank the operand is missed. -/
theorem cmdThreadPrio_missing {x : UInt8} (ctx : Context) (h : args.Holds (ascii "prio" ++ [x])) :
  Does (ctx.cmdThreadPrio args) (· = []) (· = -1)
  := by
  rw [Context.cmdThreadPrio]
  apply Does.cut h (Nat.le_refl 5)
  · intro part hpart
    obtain ⟨r, hr, -, hend⟩ := exists_strtol ctx hpart (Nat.zero_le _)
      (CString.fits_of_taken rfl)
    rw [hr, ret_bind, hend.trans (if_pos rfl)]
    apply Returns.does
    · apply Returns.delete
      exact Returns.ret (P := (· = -1)) rfl
    · rfl
  · intro size
    rw [strtol_null]
    rfl

/-- Anything else is taken for a badge and a priority, if they can be converted. -/
theorem cmdThreadPrio_sends {x y : UInt8} {rest : List UInt8} (ctx : Context)
    (h : args.Holds (ascii "prio" ++ x :: y :: rest)) :
  Sends (ctx.cmdThreadPrio args)
  := by
  rw [Context.cmdThreadPrio]
  apply Sends.cut h (Nat.le_add_left 5 _)
  · intro part hholds
    have hpart : part.Holds (y :: rest) := hholds
    by_cases hbadge : CString.Fits 10 (y :: rest)
    · obtain ⟨r, hr, -, hend⟩ := exists_strtol ctx hpart (Nat.zero_le _) hbadge
      have hsome : r.endPtr = some (0 + CString.readLength 10 (y :: rest) + 1) :=
        hend.trans (if_neg (List.cons_ne_nil y rest))
      rw [hr, ret_bind, hsome]
      dsimp only
      rw [Nat.zero_add]
      by_cases hpriority :
          CString.Fits 10 ((y :: rest).drop (CString.readLength 10 (y :: rest)))
      · obtain ⟨r', hr', -⟩ :=
          exists_strtol ctx hpart CString.readLength_le_length hpriority
        rw [hr', ret_bind]
        apply Sends.bind (Sends.request _ _ _ _ _)
      · rw [strtol_eq_fail ctx hpart CString.readLength_le_length hpriority, fail_bind]
        apply Sends.fail
    · rw [strtol_eq_fail ctx hpart (Nat.zero_le _) hbadge, fail_bind]
      apply Sends.fail
  · intro size
    rw [strtol_null]
    rfl

/-- So is it in a line. -/
theorem prio_sends {x y : UInt8} {rest : List UInt8} (ctx : Context)
    (h : cmd.Holds (ascii "thread prio" ++ x :: y :: rest)) :
  Sends (ctx.processNewCommand cmd)
  := by
  rw [processNewCommand_thread ctx (ascii " prio" ++ x :: y :: rest) h (Nat.le_add_left 2 _)]
  apply Sends.cut h (Nat.le_add_left 7 _)
  · intro args hargs
    rw [cmdThread_prio ctx _ hargs]
    apply Sends.bind (cmdThreadPrio_sends ctx hargs)
  · intro size
    rw [cmdThread_null]
    rfl

/-- The program does not return. -/
def Fails {α : Type} (p : Command α) : Prop :=
  p.wp fun _ o => o ≠ .running → o = .fail

theorem Fails.fail {α : Type} :
  Fails (.fail : Command α)
  := ⟨fun _ => rfl, fun h => absurd rfl h⟩

theorem Fails.call {α : Type} {c : CommandSig.Call} {k : CommandSig.Answer c → Command α}
    (hk : ∀ x, Fails (k x)) :
  Fails (.call c k)
  := ⟨fun h => absurd rfl h, hk⟩

theorem Fails.bind {α β : Type} {p : Command α} {f : α → Command β} (hp : Fails p) :
  Fails (p >>= f)
  := by
  apply wp_bind
  apply wp_mono hp
  intro tr o ho
  cases o with
  | ret a => cases ho nofun
  | fail => exact fun _ => rfl
  | running => exact fun h => absurd rfl h

/-- With nothing at all behind it `prio` reads past the block of its arguments. -/
theorem prio_alone_fails (ctx : Context) (h : cmd.Holds (ascii "thread prio")) :
  Fails (ctx.processNewCommand cmd)
  := by
  rw [processNewCommand_thread ctx (ascii " prio") h (by decide), cut_bind h (by decide)]
  apply Fails.call
  intro _
  apply Fails.call (c := .inl (.kmalloc _))
  intro (newS : ℕ)
  apply Fails.bind
  by_cases hnew : newS = 0
  · rw [hnew, BasicString.made, if_pos rfl, cmdThread_null]
    apply Fails.fail
  · have hargs : BasicString.Holds _ (ascii "prio" ++ []) := h.made hnew 7
    rw [cmdThread_prio ctx _ hargs, Context.cmdThreadPrio, cut_bind_past hargs (by decide)]
    apply Fails.call
    intro _
    apply Fails.fail

/-- In an execution that has ended `prio` has sent nothing and refused exactly if there is one
character behind it, and every request for memory was granted. -/
theorem prio_missing_iff (h : cmd.Holds (ascii "thread prio" ++ text))
    (hexec : Exec (ctx.processNewCommand cmd) tr o) (hend : o ≠ .running) :
  syscalls tr = [] ∧ o = .ret (-1) ↔ text.length = 1 ∧ ∀ e ∈ tr, Granted e
  := by
  match text, h with
  | [], h =>
      have hfail := wp_iff.mp (prio_alone_fails ctx h) tr o hexec hend
      rw [hfail]
      apply iff_of_false
      · rintro ⟨-, hret⟩
        cases hret
      · rintro ⟨hlen, -⟩
        cases hlen
  | [x], h =>
      have hdoes : Does (ctx.processNewCommand cmd) (· = []) (· = -1) := by
        apply processNewCommand_does ctx (ascii "prio" ++ [x]) h nofun
        intro args hargs
        rw [cmdThread_prio ctx _ hargs]
        apply cmdThreadPrio_missing ctx hargs
      rcases wp_iff.mp hdoes tr o hexec hend with
        ⟨hgranted, hcalls, a, rfl, rfl⟩ | ⟨⟨e, he, hnot⟩, -, rfl⟩
      · exact iff_of_true ⟨hcalls, rfl⟩ ⟨rfl, hgranted⟩
      · apply iff_of_false
        · rintro ⟨-, hret⟩
          cases hret
        · rintro ⟨-, hgranted⟩
          exact hnot (hgranted e he)
  | x :: y :: rest, h =>
      apply iff_of_false
      · rintro ⟨hcalls, rfl⟩
        exact wp_iff.mp (prio_sends ctx h) tr _ hexec _ rfl hcalls
      · rintro ⟨hlen, -⟩
        cases hlen

/-- In an execution that has ended `prio` has refused a text without two integers, and sent nothing,
exactly if the text has two, or is a single character and every request for memory was granted. -/
theorem prio_refused_iff (h : cmd.Holds (ascii "thread prio" ++ text))
    (hexec : Exec (ctx.processNewCommand cmd) tr o) (hend : o ≠ .running) :
  (¬ TwoIntegers text → syscalls tr = [] ∧ o = .ret (-1))
    ↔ TwoIntegers text ∨ (text.length = 1 ∧ ∀ e ∈ tr, Granted e)
  := by
  rw [prio_missing_iff h hexec hend, or_iff_not_imp_left]

theorem IsInteger.ne_nil {l : List UInt8} (h : IsInteger l) :
  l ≠ []
  := by
  obtain ⟨sign, ds, rfl, -, hne, -⟩ := h
  apply List.append_ne_nil_of_right_ne_nil _ hne

/-- Two integers and a blank are at least three characters. -/
theorem TwoIntegers.length_le (h : TwoIntegers text) :
  3 ≤ text.length
  := by
  obtain ⟨before, badge, blanks, priority, after, rfl, hbadge, hpriority, hblanks, -⟩ := h
  have h₁ := List.length_pos_iff.mpr hbadge.ne_nil
  have h₂ := List.length_pos_iff.mpr hpriority.ne_nil
  have h₃ := List.length_pos_iff.mpr hblanks
  simp only [List.length_append]
  omega

/-- `thread prio` with a blank behind it is refused. -/
theorem prio_refused_blank :
  ∃ cmd tr, BasicString.Holds cmd (ascii "thread prio" ++ ascii " ")
    ∧ Exec (Context.initial.processNewCommand cmd) tr (.ret (-1)) ∧ syscalls tr = []
  := by
  have hholds : (⟨64, ascii "thread prio " ++ [0], 12⟩ : BasicString).Holds
      (ascii "thread prio" ++ ascii " ") := ⟨rfl, rfl, ne_zero_of_not_mem (by decide), by decide⟩
  have hexec := exec_observe granting []
    (Context.initial.processNewCommand ⟨64, ascii "thread prio " ++ [0], 12⟩)
  have hgranted := granted_of_granting []
    (Context.initial.processNewCommand ⟨64, ascii "thread prio " ++ [0], 12⟩)
  refine ⟨_, _, hholds, hexec, ?_⟩
  have hrefused := (prio_refused_iff hholds hexec nofun).mpr (.inr ⟨rfl, hgranted⟩)
  refine (hrefused ?_).1
  intro htwo
  exact absurd htwo.length_le (by decide)

/-- `thread prio 5` sets the priority of the thread with the badge 5 to zero. -/
theorem prio_sets_zero :
  ∃ cmd tr, BasicString.Holds cmd (ascii "thread prio" ++ ascii " 5")
    ∧ Exec (Context.initial.processNewCommand cmd) tr (.ret 0) ∧ ¬ TwoIntegers (ascii " 5")
    ∧ syscalls tr
      = [Context.initial.threadCall ⟨ThreadRequest.ThreadOp.setPriority.toWord, 5, 0⟩]
  := by
  have hholds : (⟨64, ascii "thread prio 5" ++ [0], 13⟩ : BasicString).Holds
      (ascii "thread prio" ++ ascii " 5") := ⟨rfl, rfl, ne_zero_of_not_mem (by decide), by decide⟩
  have hexec := exec_observe granting []
    (Context.initial.processNewCommand ⟨64, ascii "thread prio 5" ++ [0], 13⟩)
  refine ⟨_, _, hholds, hexec, ?_, rfl⟩
  intro htwo
  exact absurd htwo.length_le (by decide)

end Shell
