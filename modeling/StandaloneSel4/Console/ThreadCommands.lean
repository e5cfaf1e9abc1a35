import StandaloneSel4.Console.Operands

/-!
# Thread commands

The operands of `suspend`, `resume` and `prio` begin behind the blank. That of `del` is cut at the
same place as that of `prio`, one character too late: the first digit of the badge is lost, and the
request is about another thread, unless the badge is zero.
-/

open Prog SeL4 Syscall

namespace Shell

open CString (ascii decimal ne_zero_of_not_mem)

/-- The thread commands with numbers as their operands. -/
inductive ThreadCommand where
  | suspend (badge : ℕ)
  | resume (badge : ℕ)
  | del (badge : ℕ)
  | prio (badge priority : ℕ)
  deriving DecidableEq

namespace ThreadCommand

/-- The arguments, with the numbers in decimal. -/
def args : ThreadCommand → List UInt8
  | .suspend badge => ascii "suspend " ++ decimal badge
  | .resume badge => ascii "resume " ++ decimal badge
  | .del badge => ascii "del " ++ decimal badge
  | .prio badge priority => ascii "prio " ++ (decimal badge ++ (ascii " " ++ decimal priority))

/-- The line. -/
def line (c : ThreadCommand) : List UInt8 :=
  ascii "thread " ++ c.args

/-- The request the command stands for. -/
def request : ThreadCommand → ThreadRequest
  | .suspend badge => ⟨ThreadRequest.ThreadOp.suspend.toWord, badge, 0⟩
  | .resume badge => ⟨ThreadRequest.ThreadOp.resume.toWord, badge, 0⟩
  | .del badge => ⟨ThreadRequest.ThreadOp.stopAndDelete.toWord, badge, 0⟩
  | .prio badge priority => ⟨ThreadRequest.ThreadOp.setPriority.toWord, badge, priority⟩

/-- The request that is sent: `del` loses a digit. -/
def sent : ThreadCommand → ThreadRequest
  | .del badge =>
      ⟨ThreadRequest.ThreadOp.stopAndDelete.toWord, CString.valueFrom 10 0 (decimal badge).tail, 0⟩
  | c => c.request

/-- The operands. -/
def operands : ThreadCommand → List ℕ
  | .suspend badge | .resume badge | .del badge => [badge]
  | .prio badge priority => [badge, priority]

/-- The operands are in the range of `long`. -/
def InRange (c : ThreadCommand) : Prop :=
  ∀ n ∈ c.operands, (n : ℤ) ≤ CString.longMax

end ThreadCommand

/-- The sending of a thread request. -/
def Context.threadCall (ctx : Context) (r : ThreadRequest) : ClientCall :=
  .call ctx.endpoint (requestMessage .thread (ThreadRequest.base r) ctx.mrs)

variable {ctx : Context} {cmd args : BasicString} {pre ds rest : List UInt8}
  {tr : List (Event CommandSig)} {o : Outcome ℤ} {badge priority pos : ℕ}

/-! ### Sub-commands -/

theorem cmdThread_suspend (ctx : Context) (rest : List UInt8)
    (h : args.Holds (ascii "suspend" ++ rest)) :
  ctx.cmdThread args = ctx.cmdThreadOp .suspend 8 args
  := by
  rw [Context.cmdThread, isText_skip "list" h (by decide) rfl,
    startsWith_take "suspend" h (by decide) rfl]

theorem cmdThread_resume (ctx : Context) (rest : List UInt8)
    (h : args.Holds (ascii "resume" ++ rest)) :
  ctx.cmdThread args = ctx.cmdThreadOp .resume 7 args
  := by
  rw [Context.cmdThread, isText_skip "list" h (by decide) rfl,
    startsWith_skip "suspend" h (by decide) rfl, startsWith_take "resume" h (by decide) rfl]

theorem cmdThread_del (ctx : Context) (rest : List UInt8) (h : args.Holds (ascii "del" ++ rest)) :
  ctx.cmdThread args = ctx.cmdThreadOp .stopAndDelete 5 args
  := by
  rw [Context.cmdThread, isText_skip "list" h (by decide) rfl,
    startsWith_skip "suspend" h (by decide) rfl, startsWith_skip "resume" h (by decide) rfl,
    startsWith_take "del" h (by decide) rfl]

theorem cmdThread_prio (ctx : Context) (rest : List UInt8) (h : args.Holds (ascii "prio" ++ rest)) :
  ctx.cmdThread args = ctx.cmdThreadPrio args
  := by
  rw [Context.cmdThread, isText_skip "list" h (by decide) rfl,
    startsWith_skip "suspend" h (by decide) rfl, startsWith_skip "resume" h (by decide) rfl,
    startsWith_skip "del" h (by decide) rfl, startsWith_take "prio" h (by decide) rfl]

/-- The arguments are read, so that there must be some. -/
theorem cmdThread_null (ctx : Context) (size : ℕ) :
  ctx.cmdThread ⟨0, [], size⟩ = .fail
  := by
  have hlist : isText ⟨0, [], size⟩ "list" = .fail ∨ isText ⟨0, [], size⟩ "list" = .ret false := by
    by_cases hsize : size = 4
    · left
      rw [hsize]
      rfl
    · right
      have hlen : (size ≠ 4) := hsize
      change defined (if size ≠ 4 then some false else _) = _
      rw [if_pos hlen]
      rfl
  rcases hlist with hlist | hlist
  · rw [Context.cmdThread, hlist, fail_bind]
  · rw [Context.cmdThread, hlist, ret_bind]
    rfl

/-- A sub-command with one operand sends the number that the digits cut out stand for. -/
theorem cmdThreadOp_does (ctx : Context) (op : ThreadRequest.ThreadOp)
    (h : args.Holds (pre ++ ds)) (hpos : pre.length = pos)
    (hds : ∀ c ∈ ds, CString.IsDigit 10 c)
    (hfits : CString.valueFrom 10 0 ds ≤ CString.limit 1) :
  Does (ctx.cmdThreadOp op pos args)
    (· = [ctx.threadCall ⟨op.toWord, CString.valueFrom 10 0 ds, 0⟩]) fun _ => True
  := by
  have hle : pos ≤ (pre ++ ds).length := by
    rw [List.length_append, hpos]
    apply Nat.le_add_right
  rw [Context.cmdThreadOp]
  apply Does.cut h hle
  · intro part hpart
    rw [List.drop_left' hpos] at hpart
    obtain ⟨r, hr, hvalue⟩ := exists_strtol_digits ctx hpart hds hfits
    rw [hr, ret_bind, ofInt_value hvalue hfits]
    apply Does.bind (Does.request _ _ _ rfl _)
    intro a _
    apply Returns.delete
    apply Returns.ret trivial
  · intro size
    rw [strtol_null]
    rfl

/-- It sends the number whose decimal is cut out. -/
theorem decimalOp_does (ctx : Context) (op : ThreadRequest.ThreadOp)
    (h : args.Holds (pre ++ decimal badge)) (hpos : pre.length = pos)
    (hfits : badge ≤ CString.limit 1) :
  Does (ctx.cmdThreadOp op pos args) (· = [ctx.threadCall ⟨op.toWord, badge, 0⟩]) fun _ => True
  := by
  have hvalue := CString.valueFrom_decimal badge
  have hdoes := cmdThreadOp_does ctx op h hpos (CString.decimal_isDigit badge) (by rwa [hvalue])
  rwa [hvalue] at hdoes

/-- Losing its first digit makes a number no greater. -/
theorem valueFrom_tail_le (badge : ℕ) :
  CString.valueFrom 10 0 (decimal badge).tail ≤ badge
  := by
  by_cases hbadge : badge = 0
  · rw [hbadge]
    decide
  · apply Nat.le_of_lt (CString.valueFrom_tail_lt hbadge)

/-- The first number is converted, and the end pointer is behind it. -/
theorem strtol_badge (ctx : Context) (h : args.Holds (decimal badge ++ (ascii " " ++ rest)))
    (hfits : badge ≤ CString.limit 1) :
  ctx.strtol args 1 = .ret ⟨badge, some (1 + (decimal badge).length), none⟩
  := by
  have hdrop : (ctx.object args).drop 1 = [] ++ (decimal badge ++ 0x20 :: (rest ++ [0])) := by
    rw [Context.object, h.bytes, List.append_assoc]
    rfl
  have hvalue := CString.valueFrom_decimal badge
  rw [Context.strtol, CString.strtol_digits hdrop (List.forall_mem_nil _)
    (CString.decimal_isDigit badge) (CString.decimal_ne_nil badge)
    (fun hc => absurd (CString.isDigit_ten_iff.mp hc) (by decide))
    (by rwa [hvalue]), hvalue]
  rfl

/-- So is the second one, behind the blank. -/
theorem strtol_priority (ctx : Context)
    (h : args.Holds (decimal badge ++ (ascii " " ++ decimal priority)))
    (hfits : priority ≤ CString.limit 1) :
  ∃ r, ctx.strtol args (1 + (decimal badge).length) = .ret r ∧ r.value = priority
  := by
  have hdrop : (ctx.object args).drop (1 + (decimal badge).length)
      = [0x20] ++ (decimal priority ++ 0 :: []) := by
    rw [Context.object, h.bytes, ← List.drop_drop, List.drop_one, List.tail_cons,
      List.append_assoc, List.drop_left]
    rfl
  have hblank : ∀ x ∈ ([0x20] : List UInt8), CString.isspace x :=
    List.forall_mem_singleton.mpr rfl
  have hvalue := CString.valueFrom_decimal priority
  rw [Context.strtol, CString.strtol_digits hdrop hblank (CString.decimal_isDigit priority)
    (CString.decimal_ne_nil priority) (fun hc => hc.ne_zero rfl) (by rwa [hvalue]), hvalue]
  exact ⟨_, rfl, rfl⟩

/-- `prio` sends both numbers. -/
theorem cmdThreadPrio_does (ctx : Context)
    (h : args.Holds (ascii "prio " ++ (decimal badge ++ (ascii " " ++ decimal priority))))
    (hbadge : badge ≤ CString.limit 1) (hpriority : priority ≤ CString.limit 1) :
  Does (ctx.cmdThreadPrio args)
    (· = [ctx.threadCall ⟨ThreadRequest.ThreadOp.setPriority.toWord, badge, priority⟩])
    fun _ => True
  := by
  rw [Context.cmdThreadPrio]
  apply Does.cut h (Nat.le_add_left 5 _)
  · intro part hpart
    obtain ⟨r, hr, hvalue⟩ := strtol_priority ctx hpart hpriority
    rw [strtol_badge ctx hpart hbadge, ret_bind]
    dsimp only
    rw [hr, ret_bind, ofInt_value rfl hbadge, ofInt_value hvalue hpriority]
    apply Does.bind (Does.request _ _ _ rfl _)
    intro a _
    apply Returns.delete
    apply Returns.ret trivial
  · intro size
    rw [strtol_null]
    rfl

/-! ### Lines -/

/-- The arguments of `cmdThread` are what is behind the blank. -/
theorem processNewCommand_does {C : List ClientCall → Prop} {P : ℤ → Prop} (ctx : Context)
    (rest : List UInt8) (h : cmd.Holds (ascii "thread " ++ rest)) (hrest : rest ≠ [])
    (hargs : ∀ args, args.Holds rest → Does (ctx.cmdThread args) C P) :
  Does (ctx.processNewCommand cmd) C P
  := by
  have hpos : 0 < rest.length := List.length_pos_iff.mpr hrest
  have hline : (ascii "thread " ++ rest).length = 7 + rest.length := by
    rw [List.length_append]
    rfl
  rw [processNewCommand_thread ctx (ascii " " ++ rest) h (Nat.succ_le_succ hpos)]
  apply Does.cut h (by omega)
  · intro args hholds
    apply Does.bind (hargs args hholds)
    intro a ha
    apply Returns.delete
    apply Returns.ret ha
  · intro size
    rw [cmdThread_null]
    rfl

/-- A thread command with numbers in the range of `long` sends one request. -/
theorem processNewCommand_threadCommand (ctx : Context) (c : ThreadCommand) (hrange : c.InRange)
    (h : cmd.Holds c.line) :
  Does (ctx.processNewCommand cmd) (· = [ctx.threadCall c.sent]) fun _ => True
  := by
  cases c with
  | suspend badge =>
      have hbadge := le_limit (hrange badge List.mem_cons_self)
      apply processNewCommand_does ctx _ h nofun
      intro args hargs
      rw [cmdThread_suspend ctx (ascii " " ++ decimal badge) hargs]
      apply decimalOp_does ctx .suspend hargs rfl hbadge
  | resume badge =>
      have hbadge := le_limit (hrange badge List.mem_cons_self)
      apply processNewCommand_does ctx _ h nofun
      intro args hargs
      rw [cmdThread_resume ctx (ascii " " ++ decimal badge) hargs]
      apply decimalOp_does ctx .resume hargs rfl hbadge
  | del badge =>
      have hbadge := le_limit (hrange badge List.mem_cons_self)
      apply processNewCommand_does ctx _ h nofun
      intro args hargs
      rw [cmdThread_del ctx (ascii " " ++ decimal badge) hargs]
      obtain ⟨d, L, hdecimal⟩ := List.exists_cons_of_ne_nil (CString.decimal_ne_nil badge)
      have hdigit := CString.decimal_isDigit badge
      have hle := valueFrom_tail_le badge
      rw [ThreadCommand.args, hdecimal] at hargs
      rw [ThreadCommand.sent]
      rw [hdecimal] at hdigit hle ⊢
      rw [List.tail_cons] at hle ⊢
      have hsplit : args.Holds ((ascii "del " ++ [d]) ++ L) := by
        rwa [List.append_assoc]
      apply cmdThreadOp_does ctx .stopAndDelete hsplit
      · rfl
      · exact (List.forall_mem_cons.mp hdigit).2
      · omega
  | prio badge priority =>
      have hbadge := le_limit (hrange badge List.mem_cons_self)
      have hpriority := le_limit (hrange priority (List.mem_cons_of_mem _ List.mem_cons_self))
      apply processNewCommand_does ctx _ h nofun
      intro args hargs
      rw [cmdThread_prio ctx
        (ascii " " ++ (decimal badge ++ (ascii " " ++ decimal priority))) hargs]
      apply cmdThreadPrio_does ctx hargs hbadge hpriority

/-- Different requests make different messages. -/
theorem threadCall_inj {r r' : ThreadRequest} (h : ctx.threadCall r = ctx.threadCall r') :
  r = r'
  := by
  have hmessage := congrArg ClientCall.message h
  have hword : ∀ i < 3, (ThreadRequest.base r).getMsgRegister i
      = (ThreadRequest.base r').getMsgRegister i := by
    intro i hi
    have hget : ∀ r, getMR (i + 1) (setRequest .thread (ThreadRequest.base r) ctx.mrs)
        = (ThreadRequest.base r).getMsgRegister i := fun r => getMR_setRequest_succ hi ctx.mrs
    rw [← hget r, ← hget r']
    exact congrArg (fun m : Message => getMR (i + 1) m.mrs) hmessage
  obtain ⟨op, arg1, arg2⟩ := r
  obtain ⟨op', arg1', arg2'⟩ := r'
  have hop : op = op' := hword 0 (by decide)
  have harg1 : arg1 = arg1' := hword 1 (by decide)
  have harg2 : arg2 = arg2' := hword 2 (by decide)
  rw [hop, harg1, harg2]

/-- What is sent is what the command stands for, but for `del` with a badge that is not zero. -/
theorem sent_eq_iff (c : ThreadCommand) :
  c.sent = c.request ↔ ∀ badge, c = .del badge → badge = 0
  := by
  cases c with
  | suspend badge => exact iff_of_true rfl nofun
  | resume badge => exact iff_of_true rfl nofun
  | prio badge priority => exact iff_of_true rfl nofun
  | del badge =>
      constructor
      · intro heq b hb
        obtain rfl := ThreadCommand.del.inj hb
        by_contra hne
        have hlt := CString.valueFrom_tail_lt hne
        have hvalue : CString.valueFrom 10 0 (decimal badge).tail = badge :=
          congrArg ThreadRequest.arg1 heq
        omega
      · intro hzero
        rw [hzero badge rfl]
        rfl

/-- In an execution that has ended a thread command with numbers in the range of `long` has sent the
one request it stands for exactly if every request for memory was granted, and it is not `del` with
a badge other than zero. -/
theorem thread_sends_iff (c : ThreadCommand) (hrange : c.InRange) (h : cmd.Holds c.line)
    (hexec : Exec (ctx.processNewCommand cmd) tr o) (hend : o ≠ .running) :
  syscalls tr = [ctx.threadCall c.request]
    ↔ (∀ e ∈ tr, Granted e) ∧ ∀ badge, c = .del badge → badge = 0
  := by
  have hdoes := processNewCommand_threadCommand ctx c hrange h
  rw [← sent_eq_iff, ← hdoes.syscalls_iff hexec hend]
  constructor
  · intro hcalls
    have hsent : syscalls tr = [ctx.threadCall c.sent] := by
      rcases wp_iff.mp hdoes tr o hexec hend with ⟨-, hsent, -⟩ | ⟨-, hnone, -⟩
      · exact hsent
      · rw [hnone] at hcalls
        cases hcalls
    rw [hsent] at hcalls
    exact ⟨hsent, threadCall_inj (List.cons.inj hcalls).1⟩
  · rintro ⟨hcalls, heq⟩
    rw [hcalls, heq]

theorem holds_prio :
  (⟨64, ascii "thread prio 7 12" ++ [0], 16⟩ : BasicString).Holds (ThreadCommand.prio 7 12).line
  := ⟨rfl, rfl, ne_zero_of_not_mem (by decide), by decide⟩

/-- `thread prio 7 12` is sent as it stands. -/
theorem thread_sends_prio :
  ∃ tr, Exec (Context.initial.processNewCommand ⟨64, ascii "thread prio 7 12" ++ [0], 16⟩) tr
      (.ret 0)
    ∧ syscalls tr = [Context.initial.threadCall (ThreadCommand.prio 7 12).request]
  := by
  have hexec := exec_observe granting []
    (Context.initial.processNewCommand ⟨64, ascii "thread prio 7 12" ++ [0], 16⟩)
  have hgranted := granted_of_granting []
    (Context.initial.processNewCommand ⟨64, ascii "thread prio 7 12" ++ [0], 16⟩)
  refine ⟨_, hexec, ?_⟩
  have hrange : (ThreadCommand.prio 7 12).InRange := by
    intro n hn
    have hn : n ∈ [7, 12] := hn
    simp only [List.mem_cons, List.not_mem_nil, or_false] at hn
    rcases hn with rfl | rfl <;> decide
  apply (thread_sends_iff _ hrange holds_prio hexec nofun).mpr ⟨hgranted, nofun⟩

/-- `thread del 12` deletes the thread with the badge 2. -/
theorem thread_sends_other :
  ∃ cmd tr, BasicString.Holds cmd (ThreadCommand.del 12).line
    ∧ Exec (Context.initial.processNewCommand cmd) tr (.ret 0)
    ∧ syscalls tr = [Context.initial.threadCall (ThreadCommand.del 2).request]
    ∧ syscalls tr ≠ [Context.initial.threadCall (ThreadCommand.del 12).request]
  := by
  have hholds : (⟨64, ascii "thread del 12" ++ [0], 13⟩ : BasicString).Holds
      (ThreadCommand.del 12).line := ⟨rfl, rfl, ne_zero_of_not_mem (by decide), by decide⟩
  have hexec := exec_observe granting []
    (Context.initial.processNewCommand ⟨64, ascii "thread del 12" ++ [0], 13⟩)
  refine ⟨_, _, hholds, hexec, rfl, ?_⟩
  intro heq
  have hrequest := threadCall_inj (List.cons.inj heq).1
  cases hrequest

end Shell
