import StandaloneSel4.Console.Commands
import StandaloneSel4.Console.Shell

/-!
# Operands of commands

What a command asks the root server for, as long as every string it makes is given a block; without
a block for one the command reads through a null pointer. A number in decimal is the operand of
`kmalloc`, `kfree`, `mmap` and of the thread commands, except that `del` cuts its first digit off.
-/

open Prog SeL4 Syscall

namespace Shell

open CString (ascii decimal ne_zero_of_not_mem)

/-- The requests that have been sent. -/
def syscalls (tr : List (Event CommandSig)) : List ClientCall :=
  tr.filterMap fun e =>
    match e with
    | ⟨.inr (.inl c), _⟩ => some c
    | _ => none

/-- A request for memory is granted. -/
def Granted : Event CommandSig → Prop
  | ⟨.inl c, x⟩ => Allocated ⟨c, x⟩
  | ⟨.inr _, _⟩ => True

/-- The program makes such requests and returns such a value, or it fails before the first one
because memory is not granted. -/
def Does {α : Type} (p : Command α) (C : List ClientCall → Prop) (P : α → Prop) : Prop :=
  p.wp fun tr o => o ≠ .running →
    ((∀ e ∈ tr, Granted e) ∧ C (syscalls tr) ∧ ∃ a, o = .ret a ∧ P a)
      ∨ ((∃ e ∈ tr, ¬ Granted e) ∧ syscalls tr = [] ∧ o = .fail)

/-- The program makes no request, needs no memory and returns such a value. -/
def Returns {α : Type} (p : Command α) (P : α → Prop) : Prop :=
  p.wp fun tr o => o ≠ .running →
    (∀ e ∈ tr, Granted e) ∧ syscalls tr = [] ∧ ∃ a, o = .ret a ∧ P a

variable {α β : Type} {p : Command α} {f : α → Command β} {P : α → Prop} {Q : β → Prop}
  {C : List ClientCall → Prop} {c : ClientCall} {ctx : Context} {cmd args : BasicString}
  {text : List UInt8} {tr : List (Event CommandSig)} {o : Outcome α} {n pos : ℕ}

/-! ### Rules -/

theorem syscalls_append (tr tr' : List (Event CommandSig)) :
  syscalls (tr ++ tr') = syscalls tr ++ syscalls tr'
  := List.filterMap_append

theorem Returns.ret {a : α} (h : P a) :
  Returns (.ret a) P
  := by
  refine ⟨fun _ => ⟨nofun, rfl, a, rfl, h⟩, fun h => absurd rfl h⟩

/-- Giving back a block comes in front of what is returned. -/
theorem Returns.delete (s : BasicString) {p : Command α} (h : Returns p P) :
  Returns (console s.delete >>= fun _ => p) P
  := by
  refine ⟨fun h => absurd rfl h, fun x => ?_⟩
  apply wp_mono h
  intro tr o ho hend
  obtain ⟨hgranted, hcalls, hret⟩ := ho hend
  exact ⟨List.forall_mem_cons.mpr ⟨trivial, hgranted⟩, hcalls, hret⟩

/-- What makes no request does nothing. -/
theorem Returns.does (h : Returns p P) (hC : C []) :
  Does p C P
  := by
  apply wp_mono h
  intro tr o ho hend
  obtain ⟨hgranted, hcalls, hret⟩ := ho hend
  rw [← hcalls] at hC
  exact .inl ⟨hgranted, hC, hret⟩

/-- The requests are made before a program that makes none goes on. -/
theorem Does.bind (hp : Does p C P) (hf : ∀ a, P a → Returns (f a) Q) :
  Does (p >>= f) C Q
  := by
  apply wp_bind
  apply wp_mono hp
  intro tr o ho
  cases o with
  | ret a =>
      rcases ho nofun with ⟨hgranted, hcalls, b, hb, hP⟩ | ⟨-, -, hfail⟩
      · obtain rfl : a = b := by simpa using hb
        apply wp_mono (hf a hP)
        intro tr' o' ho' hend
        obtain ⟨hgranted', hcalls', hret⟩ := ho' hend
        refine .inl ⟨List.forall_mem_append.mpr ⟨hgranted, hgranted'⟩, ?_, hret⟩
        rwa [syscalls_append, hcalls', List.append_nil]
      · cases hfail
  | fail =>
      intro _
      rcases ho nofun with ⟨-, -, b, hb, -⟩ | ⟨hex, hcalls, -⟩
      · cases hb
      · exact .inr ⟨hex, hcalls, rfl⟩
  | running =>
      intro hend
      exact absurd rfl hend

/-- A request that has a response. -/
theorem Does.request {γ : Type} (type : ReturnType γ) (endpoint : ℕ) (id : ID) {b : BaseRequest}
    (hb : b.hasResponse = true) (mrs : Registers) :
  Does (client (performBase type endpoint id b mrs))
    (· = [.call endpoint (requestMessage id b mrs)]) fun _ => True
  := by
  rw [performBase_eq, if_pos hb]
  refine ⟨fun h => absurd rfl h, fun x => ⟨fun _ => .inl ⟨?_, rfl, _, rfl, trivial⟩, ?_⟩⟩
  · intro e he
    obtain rfl := List.mem_singleton.mp he
    trivial
  · intro h
    exact absurd rfl h

/-- A request for memory that is granted leads on, and one that is not to a failure. -/
theorem Does.allocate {k : ℕ → Command α} (hk : ∀ ptr, ptr ≠ 0 → Does (k ptr) C P)
    (hnull : k 0 = .fail) :
  Does (.call (.inl (.kmalloc n)) k) C P
  := by
  refine ⟨fun h => absurd rfl h, ?_⟩
  intro (ptr : ℕ)
  by_cases hptr : ptr = 0
  · rw [hptr, hnull]
    refine ⟨fun _ => .inr ⟨⟨_, List.mem_cons_self, ?_⟩, rfl, rfl⟩, fun h => absurd rfl h⟩
    intro hgranted
    exact hgranted rfl
  · apply wp_mono (hk ptr hptr)
    intro tr o ho hend
    rcases ho hend with ⟨hgranted, hcalls, hret⟩ | ⟨⟨e, he, hnot⟩, hcalls, hfail⟩
    · exact .inl ⟨List.forall_mem_cons.mpr ⟨hptr, hgranted⟩, hcalls, hret⟩
    · exact .inr ⟨⟨e, List.mem_cons_of_mem _ he, hnot⟩, hcalls, hfail⟩

/-- An effect comes in front of what a program does. -/
theorem Does.effect {e : Effect} {k : Unit → Command α} (h : Does (k ()) C P) :
  Does (.call (.inr (.inr e)) k) C P
  := by
  refine ⟨fun h => absurd rfl h, fun _ => ?_⟩
  apply wp_mono h
  intro tr o ho hend
  rcases ho hend with ⟨hgranted, hcalls, hret⟩ | ⟨⟨e, he, hnot⟩, hcalls, hfail⟩
  · exact .inl ⟨List.forall_mem_cons.mpr ⟨trivial, hgranted⟩, hcalls, hret⟩
  · exact .inr ⟨⟨e, List.mem_cons_of_mem _ he, hnot⟩, hcalls, hfail⟩

/-- A cut within the text goes on with the part as a string. -/
theorem Does.cut {s : BasicString} {f : BasicString → Command α} (h : s.Holds text)
    (hpos : pos ≤ text.length) (hf : ∀ part, part.Holds (text.drop pos) → Does (f part) C P)
    (hnull : ∀ size, f ⟨0, [], size⟩ = .fail) :
  Does (cut s pos >>= f) C P
  := by
  rw [cut_bind h hpos]
  apply Does.effect
  apply Does.allocate
  · intro ptr hptr
    apply hf _ (h.made hptr pos)
  · apply hnull

/-- In an execution that has ended a program that makes one request has made it, if every request
for memory was granted, and otherwise none. -/
theorem Does.syscalls_iff (h : Does p (· = [c]) P) (hexec : Exec p tr o) (hend : o ≠ .running) :
  syscalls tr = [c] ↔ ∀ e ∈ tr, Granted e
  := by
  rcases wp_iff.mp h tr o hexec hend with ⟨hgranted, hcalls, -⟩ | ⟨⟨e, he, hnot⟩, hcalls, -⟩
  · exact iff_of_true hcalls hgranted
  · apply iff_of_false
    · rw [hcalls]
      nofun
    · intro hgranted
      exact hnot (hgranted e he)

/-! ### Numbers -/

/-- A string of digits is converted to the number they stand for. -/
theorem exists_strtol_digits {ds : List UInt8} (ctx : Context) (h : args.Holds ds)
    (hds : ∀ c ∈ ds, CString.IsDigit 10 c) (hfits : CString.valueFrom 10 0 ds ≤ CString.limit 1) :
  ∃ r, ctx.strtol args 1 = .ret r ∧ r.value = CString.valueFrom 10 0 ds
  := by
  have hobject : ctx.object args = ctx.header args.data :: (ds ++ [0]) := by
    rw [Context.object, h.bytes]
  unfold Context.strtol
  rw [hobject]
  by_cases hne : ds = []
  · rw [hne]
    exact ⟨_, rfl, rfl⟩
  · have hdrop : (ctx.header args.data :: (ds ++ [0])).drop 1 = [] ++ (ds ++ 0 :: []) := rfl
    rw [CString.strtol_digits hdrop nofun hds hne (fun hc => hc.ne_zero rfl) hfits]
    exact ⟨_, rfl, rfl⟩

/-- A conversion through a null pointer fails. -/
theorem strtol_null (ctx : Context) (size : ℕ) :
  ctx.strtol ⟨0, [], size⟩ 1 = .fail
  := rfl

theorem ofInt_value {v : ℤ} (hv : v = n) (hfits : n ≤ CString.limit 1) :
  Word.ofInt v = n
  := by
  rw [hv]
  apply Word.ofInt_natCast
  apply Nat.lt_of_le_of_lt hfits
  decide

/-- A command whose operand is not zero is carried out with it. -/
theorem withOperand_does {minSize : ℕ} {body : ℤ → Command ℤ} (ctx : Context) (h : cmd.Holds text)
    (hmin : minSize ≤ text.length) (hpos : pos ≤ text.length) (hdrop : text.drop pos = decimal n)
    (hn : n ≠ 0) (hfits : n ≤ CString.limit 1) (hbody : Does (body n) C fun _ => True) :
  Does (ctx.withOperand minSize pos body cmd) C fun _ => True
  := by
  have hsize : ¬ cmd.size < minSize := by
    rw [h.size]
    omega
  rw [Context.withOperand, if_neg hsize]
  apply Does.cut h hpos
  · intro part hpart
    rw [hdrop] at hpart
    have hvalue := CString.valueFrom_decimal n
    obtain ⟨r, hr, hrvalue⟩ := exists_strtol_digits ctx hpart (CString.decimal_isDigit n)
      (by rwa [hvalue])
    rw [hvalue] at hrvalue
    have hne : r.value ≠ 0 := by
      rw [hrvalue]
      omega
    rw [hr, ret_bind, Context.unlessZero, if_pos hne, hrvalue]
    apply Does.bind hbody
    intro a _
    apply Returns.delete
    apply Returns.ret trivial
  · intro size
    rw [strtol_null]
    rfl

theorem le_limit (h : (n : ℤ) ≤ CString.longMax) :
  n ≤ CString.limit 1
  := by
  have hmax : CString.longMax = (CString.limit 1 : ℕ) := rfl
  omega

/-! ### `kmalloc`, `kfree` and `mmap` -/

/-- The commands whose operand is the one word of a request. -/
inductive NumericCommand where
  | kmalloc
  | kfree
  | mmap
  deriving DecidableEq

namespace NumericCommand

/-- The line with the operand in decimal. -/
def line : NumericCommand → ℕ → List UInt8
  | .kmalloc, n => ascii "kmalloc " ++ decimal n
  | .kfree, n => ascii "kfree " ++ decimal n
  | .mmap, n => ascii "mmap " ++ decimal n

/-- The request with that word. -/
def syscall (ctx : Context) : NumericCommand → ℕ → ClientCall
  | .kmalloc, n => .call ctx.endpoint (requestMessage .kMalloc (KMallocRequest.base ⟨n⟩) ctx.mrs)
  | .kfree, n => .call ctx.endpoint (requestMessage .kFree (KFreeRequest.base ⟨n⟩) ctx.mrs)
  | .mmap, n => .call ctx.endpoint (requestMessage .mMap (MMapRequest.base ⟨n⟩) ctx.mrs)

end NumericCommand

theorem cmdKmalloc_does (ctx : Context) (hfits : n ≤ CString.limit 1) :
  Does (ctx.cmdKmalloc n) (· = [NumericCommand.kmalloc.syscall ctx n]) fun _ => True
  := by
  rw [Context.cmdKmalloc, ofInt_value rfl hfits]
  apply Does.bind (Does.request _ _ _ rfl _)
  intro a _
  apply Returns.ret trivial

theorem cmdKfree_does (ctx : Context) (hfits : n ≤ CString.limit 1) :
  Does (ctx.cmdKfree n) (· = [NumericCommand.kfree.syscall ctx n]) fun _ => True
  := by
  rw [Context.cmdKfree, ofInt_value rfl hfits]
  apply Does.bind (Does.request _ _ _ rfl _)
  intro a _
  split
  · apply Returns.ret trivial
  · apply Returns.ret trivial

theorem cmdMmap_does (ctx : Context) (hfits : n ≤ CString.limit 1) :
  Does (ctx.cmdMmap n) (· = [NumericCommand.mmap.syscall ctx n]) fun _ => True
  := by
  rw [Context.cmdMmap, ofInt_value rfl hfits]
  apply Does.bind (Does.request _ _ _ rfl _)
  intro a _
  split
  · apply Returns.ret trivial
  · apply Returns.ret trivial

theorem processNewCommand_kmalloc (ctx : Context) (rest : List UInt8)
    (h : cmd.Holds (ascii "kmalloc" ++ rest)) :
  ctx.processNewCommand cmd = ctx.withOperand 9 8 ctx.cmdKmalloc cmd
  := by
  rw [Context.processNewCommand, isText_skip "sched" h (by decide) rfl,
    startsWith_skip "thread" h (by decide) rfl, isText_skip "help" h (by decide) rfl,
    startsWith_take "kmalloc" h (by decide) rfl]

theorem processNewCommand_kfree (ctx : Context) (rest : List UInt8)
    (h : cmd.Holds (ascii "kfree" ++ rest)) :
  ctx.processNewCommand cmd = ctx.withOperand 7 6 ctx.cmdKfree cmd
  := by
  rw [Context.processNewCommand, isText_skip "sched" h (by decide) rfl,
    startsWith_skip "thread" h (by decide) rfl, isText_skip "help" h (by decide) rfl,
    startsWith_skip "kmalloc" h (by decide) rfl, startsWith_skip "touch" h (by decide) rfl,
    startsWith_take "kfree" h (by decide) rfl]

theorem processNewCommand_mmap (ctx : Context) (rest : List UInt8)
    (h : cmd.Holds (ascii "mmap" ++ rest)) :
  ctx.processNewCommand cmd = ctx.withOperand 6 5 ctx.cmdMmap cmd
  := by
  rw [Context.processNewCommand, isText_skip "sched" h (by decide) rfl,
    startsWith_skip "thread" h (by decide) rfl, isText_skip "help" h (by decide) rfl,
    startsWith_skip "kmalloc" h (by decide) rfl, startsWith_skip "touch" h (by decide) rfl,
    startsWith_skip "kfree" h (by decide) rfl, isText_skip "vm" h (by decide) rfl,
    isText_skip "history" h (by decide) rfl, isText_skip "last" h (by decide) rfl,
    startsWith_take "mmap" h (by decide) rfl]

theorem decimal_length_pos (n : ℕ) :
  0 < (decimal n).length
  := List.length_pos_iff.mpr (CString.decimal_ne_nil n)

/-- A line with a number that is not zero asks for what its verb says, with that number. -/
theorem processNewCommand_numeric (ctx : Context) (k : NumericCommand) (hn : n ≠ 0)
    (hfits : n ≤ CString.limit 1) (h : cmd.Holds (k.line n)) :
  Does (ctx.processNewCommand cmd) (· = [k.syscall ctx n]) fun _ => True
  := by
  have hlen := decimal_length_pos n
  cases k with
  | kmalloc =>
      have hline : (NumericCommand.kmalloc.line n).length = 8 + (decimal n).length := by
        rw [NumericCommand.line, List.length_append]
        rfl
      rw [processNewCommand_kmalloc ctx (ascii " " ++ decimal n) h]
      apply withOperand_does ctx h (by omega) (by omega) rfl hn hfits (cmdKmalloc_does ctx hfits)
  | kfree =>
      have hline : (NumericCommand.kfree.line n).length = 6 + (decimal n).length := by
        rw [NumericCommand.line, List.length_append]
        rfl
      rw [processNewCommand_kfree ctx (ascii " " ++ decimal n) h]
      apply withOperand_does ctx h (by omega) (by omega) rfl hn hfits (cmdKfree_does ctx hfits)
  | mmap =>
      have hline : (NumericCommand.mmap.line n).length = 5 + (decimal n).length := by
        rw [NumericCommand.line, List.length_append]
        rfl
      rw [processNewCommand_mmap ctx (ascii " " ++ decimal n) h]
      apply withOperand_does ctx h (by omega) (by omega) rfl hn hfits (cmdMmap_does ctx hfits)

/-- A line with a number from 1 on is answered by the one request it stands for exactly if every
request for memory is granted. -/
theorem numeric_sends_iff {o : Outcome ℤ} (k : NumericCommand) (hn : 0 < n)
    (hmax : (n : ℤ) ≤ CString.longMax) (h : cmd.Holds (k.line n))
    (hexec : Exec (ctx.processNewCommand cmd) tr o) (hend : o ≠ .running) :
  syscalls tr = [k.syscall ctx n] ↔ ∀ e ∈ tr, Granted e
  := by
  apply (processNewCommand_numeric ctx k (Nat.ne_of_gt hn) (le_limit hmax) h).syscalls_iff
    hexec hend

/-- Answers under which every request for memory is granted. -/
def granting : Oracle CommandSig
  | _, .inl (.kmalloc _) => (64 : ℕ)
  | _, .inl (.kfree _) => ()
  | _, .inl (.newCommand _) => (0 : ℤ)
  | _, .inr (.inl (.send _ _)) => ()
  | _, .inr (.inl (.call _ _)) => (⟨⟨0, 0, 0, 0⟩, fun _ => 0⟩ : Message)
  | _, .inr (.inr _) => ()

theorem granted_of_granting (past : List (Event CommandSig)) (p : Command α) :
  ∀ e ∈ (observe granting past p).1, Granted e
  := by
  induction p generalizing past with
  | ret a => nofun
  | fail => nofun
  | call c k ih =>
      rw [observe]
      apply List.forall_mem_cons.mpr ⟨?_, ih _ _⟩
      rcases c with (size | ptr | cmd) | c
      · apply Nat.succ_ne_zero 63
      · trivial
      · trivial
      · trivial

/-- Answers under which none is. -/
def refusing : Oracle CommandSig
  | _, .inl (.kmalloc _) => (0 : ℕ)
  | past, c => granting past c

/-- The surroundings of a command, with a heap of zeros. -/
def Context.initial : Context where
  endpoint := 1
  mrs _ := 0
  header _ := 0
  lastRet := 0

theorem holds_mmap :
  (⟨64, ascii "mmap 7" ++ [0], 6⟩ : BasicString).Holds (NumericCommand.mmap.line 7)
  := ⟨rfl, rfl, ne_zero_of_not_mem (by decide), by decide⟩

/-- `mmap 7` asks for seven pages. -/
theorem numeric_sends_mmap :
  ∃ tr, Exec (Context.initial.processNewCommand ⟨64, ascii "mmap 7" ++ [0], 6⟩) tr (.ret 0)
    ∧ syscalls tr = [NumericCommand.mmap.syscall Context.initial 7]
  := by
  have hexec := exec_observe granting []
    (Context.initial.processNewCommand ⟨64, ascii "mmap 7" ++ [0], 6⟩)
  have hgranted := granted_of_granting []
    (Context.initial.processNewCommand ⟨64, ascii "mmap 7" ++ [0], 6⟩)
  refine ⟨_, hexec, ?_⟩
  apply (numeric_sends_iff .mmap (by decide) (by decide) holds_mmap hexec nofun).mpr hgranted

/-- Without memory for its operand `mmap 7` asks for nothing: it reads through a null pointer. -/
theorem numeric_sends_nothing :
  ∃ cmd tr, BasicString.Holds cmd (NumericCommand.mmap.line 7)
    ∧ Exec (Context.initial.processNewCommand cmd) tr .fail
    ∧ syscalls tr ≠ [NumericCommand.mmap.syscall Context.initial 7]
  := by
  have hexec := exec_observe refusing []
    (Context.initial.processNewCommand ⟨64, ascii "mmap 7" ++ [0], 6⟩)
  refine ⟨_, _, holds_mmap, hexec, ?_⟩
  nofun

end Shell
