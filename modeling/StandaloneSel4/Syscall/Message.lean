import Mathlib.Algebra.Group.Nat.Defs
import Mathlib.Logic.Function.Basic
import Mathlib.Tactic.Common

/-!
# Messages

A message consists of a message info and of message registers. It brings as many registers as
its length says: in the others the receiver finds what was there before, which may be left
over from a message of another thread.
-/

namespace SeL4

/-- `seL4_MessageInfo_t`. -/
structure MessageInfo where
  label : ℕ
  capsUnwrapped : ℕ
  extraCaps : ℕ
  length : ℕ
  deriving DecidableEq

/-- `seL4_MessageInfo_new`. Each field has so many bits. -/
def MessageInfo.new (label capsUnwrapped extraCaps length : ℕ) : MessageInfo where
  label := label % 2 ^ 52
  capsUnwrapped := capsUnwrapped % 2 ^ 3
  extraCaps := extraCaps % 2 ^ 2
  length := length % 2 ^ 7

/-- `seL4_Fault_NullFault`, the label of a message that is not a fault. -/
def nullFault : ℕ := 0

/-- The message registers of a thread. -/
abbrev Registers : Type :=
  ℕ → ℕ

/-- `seL4_GetMR`. -/
def getMR (i : ℕ) (mrs : Registers) : ℕ :=
  mrs i

/-- `seL4_SetMR`. -/
def setMR (i w : ℕ) (mrs : Registers) : Registers :=
  Function.update mrs i w

@[simp]
theorem getMR_setMR_self (i w : ℕ) (mrs : Registers) :
  getMR i (setMR i w mrs) = w
  := by
  unfold getMR setMR
  apply Function.update_self

theorem getMR_setMR_of_ne {i j : ℕ} (h : i ≠ j) (w : ℕ) (mrs : Registers) :
  getMR i (setMR j w mrs) = getMR i mrs
  := by
  unfold getMR setMR
  apply Function.update_of_ne h

/-- A message info, and the registers of the thread that sends or has received it. -/
structure Message where
  info : MessageInfo
  mrs : Registers

/-- The message as a thread receives it whose registers were `old`. -/
def Message.deliver (m : Message) (old : Registers) : Message where
  info := m.info
  mrs i := if i < m.info.length then m.mrs i else old i

/-- What is received below the length is what was sent. -/
theorem Message.getMR_deliver {m : Message} {i : ℕ} (h : i < m.info.length) (old : Registers) :
  getMR i (m.deliver old).mrs = getMR i m.mrs
  := if_pos h

/-- The registers agree on those that a message of that length brings. -/
def Registers.AgreeBelow (length : ℕ) (mrs mrs' : Registers) : Prop :=
  ∀ i < length, getMR i mrs = getMR i mrs'

end SeL4
