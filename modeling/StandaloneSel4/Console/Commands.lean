import StandaloneSel4.Console.BasicString
import StandaloneSel4.Console.Decimal
import StandaloneSel4.Lib.Handler
import StandaloneSel4.Syscall.Perform

/-!
# Commands

A line is tested for one verb after another, and what follows the verb is cut out as a string of
its own and converted. Where a cut begins is written next to it, and how long the line must be is
written, if at all, somewhere before. A command asks the allocator for the strings it makes and
gives them back, sends requests, and in one case writes to an address it was given. What it prints
is left out.
-/

open SeL4 Prog Syscall

/-- The characters of a literal. -/
def CString.ascii (s : String) : List UInt8 :=
  s.toList.map fun c => UInt8.ofNat c.toNat

namespace Shell

open CString (ascii ne_zero_of_not_mem Converted)

/-- What a command does besides. -/
inductive Effect where
  /-- The assignment to the byte at an address. -/
  | touch (addr : ℕ)
  /-- That `substr(pos)` is called on a string of that size is noted. -/
  | substr (pos size : ℕ)
  deriving DecidableEq

/-- These effects. -/
abbrev EffectSig : Signature where
  Call := Effect
  Answer _ := Unit

/-- All that a command calls. -/
abbrev CommandSig : Signature :=
  ConsoleSig.sum (ClientSig.sum EffectSig)

/-- A program that carries out a command. -/
abbrev Command (α : Type) : Type :=
  Prog CommandSig α

/-- A program of the console, as a part of a command. -/
def console {α : Type} (p : Console α) : Command α :=
  p.inl

/-- A program of a client, as a part of a command. -/
def client {α : Type} (p : Client α) : Command α :=
  p.inl.inr

/-- The program that has an effect. -/
def effect (e : Effect) : Command Unit :=
  perform (S := CommandSig) (.inr (.inr e))

/-- A value, or a failure where there is none. -/
def defined {α : Type} : Option α → Command α
  | some a => .ret a
  | none => .fail

/-- What a command finds: the endpoint and the message registers of its thread, the byte of the heap
before each block, and what the last command returned. -/
structure Context where
  endpoint : ℕ
  mrs : Registers
  header : ℕ → UInt8
  lastRet : ℤ

/-- The comparison of a string with a literal. -/
def isText (cmd : BasicString) (s : String) : Command Bool :=
  defined (cmd.eqText (ascii s ++ [0]))

/-- `starts_with` with a literal. -/
def startsWith (cmd : BasicString) (s : String) : Command Bool :=
  defined (cmd.startsWith (ascii s ++ [0]))

/-- `substr(pos)`. -/
def cut (s : BasicString) (pos : ℕ) : Command BasicString := do
  let _ ← effect (.substr pos s.size)
  console (s.substr pos BasicString.npos)

namespace Context

variable (ctx : Context)

/-- The bytes of the heap from the one before the block of a string on. The text begins at 1. -/
def object (s : BasicString) : List UInt8 :=
  ctx.header s.data :: s.bytes

/-- `strtol` in base ten from a position of the text of a string on. -/
def strtol (s : BasicString) (nPtr : ℕ) : Command Converted :=
  defined (CString.strtol (ctx.object s) nPtr 10)

/-- The branch of `cmdThread` for `list`. -/
def cmdThreadList : Command ℤ := do
  let _ ← client (perform.thread ctx.endpoint ⟨ThreadRequest.ThreadOp.list.toWord, 0, 0⟩ ctx.mrs)
  return 0

/-- A thread command with one operand, which is in the arguments from `pos` on. -/
def cmdThreadOp (op : ThreadRequest.ThreadOp) (pos : ℕ) (args : BasicString) : Command ℤ := do
  let argStr ← cut args pos
  let badge ← ctx.strtol argStr 1
  let _ ← client
    (perform.thread ctx.endpoint ⟨op.toWord, Word.ofInt badge.value, 0⟩ ctx.mrs)
  console argStr.delete
  return 0

/-- The branch of `cmdThread` for `prio`. -/
def cmdThreadPrio (args : BasicString) : Command ℤ := do
  let argStr ← cut args 5
  let badge ← ctx.strtol argStr 1
  match badge.endPtr with
  | none =>
      console argStr.delete
      return -1
  | some outArg =>
      let prio ← ctx.strtol argStr outArg
      let _ ← client (perform.thread ctx.endpoint
        ⟨ThreadRequest.ThreadOp.setPriority.toWord, Word.ofInt badge.value, Word.ofInt prio.value⟩
        ctx.mrs)
      console argStr.delete
      return 0

/-- `cmdThread`. -/
def cmdThread (args : BasicString) : Command ℤ := do
  if ← isText args "list" then ctx.cmdThreadList
  else if ← startsWith args "suspend" then ctx.cmdThreadOp .suspend 8 args
  else if ← startsWith args "resume" then ctx.cmdThreadOp .resume 7 args
  else if ← startsWith args "del" then ctx.cmdThreadOp .stopAndDelete 5 args
  else if ← startsWith args "prio" then ctx.cmdThreadPrio args
  else return -1

/-- The operand zero is refused. -/
def unlessZero (body : ℤ → Command ℤ) (operand : ℤ) : Command ℤ :=
  if operand ≠ 0 then body operand else return -1

/-- A command with one operand, which is in the line from `pos` on: shorter lines than `minSize` and
the operand zero are refused. -/
def withOperand (minSize pos : ℕ) (body : ℤ → Command ℤ) (cmd : BasicString) : Command ℤ := do
  if cmd.size < minSize then return -1
  else
    let args ← cut cmd pos
    let operand ← ctx.strtol args 1
    let r ← unlessZero body operand.value
    console args.delete
    return r

/-- The body of `kmalloc`. -/
def cmdKmalloc (size : ℤ) : Command ℤ := do
  let _ ← client (perform.kmalloc ctx.endpoint ⟨Word.ofInt size⟩ ctx.mrs)
  return 0

/-- The body of `touch`. -/
def cmdTouch (addr : ℤ) : Command ℤ := do
  let _ ← effect (.touch (Word.ofInt addr))
  return 0

/-- The body of `kfree`. -/
def cmdKfree (addr : ℤ) : Command ℤ := do
  let respOrErr ← client (perform.kfree ctx.endpoint ⟨Word.ofInt addr⟩ ctx.mrs)
  if respOrErr.isValid then return respOrErr.value.response else return -1

/-- The body of `mmap`. -/
def cmdMmap (numPages : ℤ) : Command ℤ := do
  let retOrErr ← client (perform.mmap ctx.endpoint ⟨Word.ofInt numPages⟩ ctx.mrs)
  if retOrErr.isValid then return 0 else return -1

/-- A command that asks for a debug operation. -/
def cmdDebug (op : DebugRequest.Operation) : Command ℤ := do
  let _ ← client (perform.debug ctx.endpoint ⟨op.toWord⟩ ctx.mrs)
  return 0

/-- `processNewCommand`. -/
def processNewCommand (cmd : BasicString) : Command ℤ := do
  if ← isText cmd "sched" then ctx.cmdDebug .dumpScheduler
  else if ← startsWith cmd "thread" then
    if cmd.size < 8 then return -1
    else
      let args ← cut cmd 7
      let r ← ctx.cmdThread args
      console args.delete
      return r
  else if ← isText cmd "help" then return 0
  else if ← startsWith cmd "kmalloc" then ctx.withOperand 9 8 ctx.cmdKmalloc cmd
  else if ← startsWith cmd "touch" then ctx.withOperand 7 6 cmdTouch cmd
  else if ← startsWith cmd "kfree" then ctx.withOperand 7 6 ctx.cmdKfree cmd
  else if ← isText cmd "vm" then ctx.cmdDebug .vmStats
  else if ← isText cmd "history" then return 0
  else if ← isText cmd "last" then return ctx.lastRet
  else if ← startsWith cmd "mmap" then ctx.withOperand 6 5 ctx.cmdMmap cmd
  else return -1

end Context

/-! ### Tests and cuts -/

variable {α : Type} {cmd s : BasicString} {text : List UInt8} {pos : ℕ}

theorem isText_eq (lit : String) (h : cmd.Holds text) (hlit : 0 ∉ ascii lit) :
  isText cmd lit = .ret (decide (text = ascii lit))
  := by
  rw [isText, h.eqText (ne_zero_of_not_mem hlit)]
  rfl

theorem startsWith_eq (lit : String) (h : cmd.Holds text) (hlit : 0 ∉ ascii lit) :
  startsWith cmd lit = .ret ((ascii lit).isPrefixOf text)
  := by
  rw [startsWith, h.startsWith (ne_zero_of_not_mem hlit)]
  rfl

/-- A test for another text goes on with the next one. -/
theorem isText_skip (lit : String) (h : cmd.Holds text) (hlit : 0 ∉ ascii lit)
    (hne : decide (text = ascii lit) = false) (p q : Command α) :
  (isText cmd lit >>= fun b => if b = true then p else q) = q
  := by
  rw [isText_eq lit h hlit, hne]
  rfl

/-- A test for another prefix likewise. -/
theorem startsWith_skip (lit : String) (h : cmd.Holds text) (hlit : 0 ∉ ascii lit)
    (hnot : (ascii lit).isPrefixOf text = false) (p q : Command α) :
  (startsWith cmd lit >>= fun b => if b = true then p else q) = q
  := by
  rw [startsWith_eq lit h hlit, hnot]
  rfl

/-- A test for the prefix of the text goes into its branch. -/
theorem startsWith_take (lit : String) (h : cmd.Holds text) (hlit : 0 ∉ ascii lit)
    (hpre : (ascii lit).isPrefixOf text = true) (p q : Command α) :
  (startsWith cmd lit >>= fun b => if b = true then p else q) = p
  := by
  rw [startsWith_eq lit h hlit, hpre]
  rfl

/-- A cut within the text asks for a block for the part. -/
theorem cut_bind (h : s.Holds text) (hpos : pos ≤ text.length) (f : BasicString → Command α) :
  cut s pos >>= f = .call (.inr (.inr (.substr pos text.length))) fun _ =>
    .call (.inl (.kmalloc (text.length - pos + 1))) fun newS =>
      f (BasicString.made newS (text.drop pos ++ [0]) (text.length - pos))
  := by
  rw [cut, h.substr hpos, h.size]
  rfl

/-- A cut from behind the end of the text fails. -/
theorem cut_bind_past (h : s.Holds text) (hpos : text.length < pos) (f : BasicString → Command α) :
  cut s pos >>= f = .call (.inr (.inr (.substr pos text.length))) fun _ => .fail
  := by
  rw [cut, h.substr_past hpos, h.size]
  rfl

/-- The line `thread`, a character and some arguments is passed on to `cmdThread`. -/
theorem processNewCommand_thread (ctx : Context) (rest : List UInt8)
    (h : cmd.Holds (ascii "thread" ++ rest)) (hrest : 2 ≤ rest.length) :
  ctx.processNewCommand cmd = cut cmd 7 >>= fun args =>
    ctx.cmdThread args >>= fun r => console args.delete >>= fun _ => .ret r
  := by
  have hsize : ¬ cmd.size < 8 := by
    have hthread : (ascii "thread").length = 6 := rfl
    rw [h.size, List.length_append, hthread]
    omega
  rw [Context.processNewCommand, isText_skip "sched" h (by decide) rfl,
    startsWith_take "thread" h (by decide) rfl, if_neg hsize]
  rfl

end Shell
