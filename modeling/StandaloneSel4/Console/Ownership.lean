import StandaloneSel4.Console.BasicString
import StandaloneSel4.Lib.World
import Mathlib.Data.List.Perm.Basic

/-!
# Who owns the blocks of strings

Every constructor of a string asks for a block, and the destructor gives it back. An assignment
asks for one as well, and forgets the one that the string had: from then on there is a block that
no string owns.
-/

open Prog
open scoped List

namespace BasicString

/-- The constructor from a text. -/
def ofText (data : List UInt8) : Console BasicString :=
  match CString.strlen data with
  | none => .fail
  | some size => new data size

/-- The copy constructor. -/
def copy (rhs : BasicString) : Console BasicString :=
  new rhs.bytes rhs.size

/-- `operator=`, with what the string is afterwards. What it was before is not looked at. -/
def assign (rhs : BasicString) : Console BasicString := do
  let (data, bytes) ← CString.strdup rhs.bytes
  return ⟨data, bytes, rhs.size⟩

end BasicString

/-- The blocks that have been allocated and not freed, and whether ever a block was freed that was
not among them. -/
structure Blocks where
  live : List ℕ
  badFree : Bool

/-- The heap in which all allocations succeed: a block is none that is live. -/
def Blocks.heap : World ConsoleSig Blocks
  | b, .kmalloc _, p, b' => p ≠ (0 : ℕ) ∧ p ∉ b.live ∧ b' = { b with live := p :: b.live }
  | b, .kfree p, _, b' => b' = ⟨b.live.erase p, b.badFree || (p ≠ 0 ∧ p ∉ b.live)⟩
  | b, .newCommand _, _, b' => b' = b

/-- What is done with strings. The strings that there are are numbered. -/
inductive StringOp where
  | ofText (data : List UInt8)
  | new (data : List UInt8) (size : ℕ)
  | copy (i : ℕ)
  | substr (i pos count : ℕ)
  | assign (i j : ℕ)
  | delete (i : ℕ)
  deriving DecidableEq

namespace StringOp

/-- A string is made and added to the others. -/
def add (l : List BasicString) (p : Console BasicString) : Console (List BasicString) := do
  let s ← p
  return l ++ [s]

/-- What an operation does with the strings that there are. It fails when the string it is for is
none of them. -/
def run : StringOp → List BasicString → Console (List BasicString)
  | .ofText data, l => add l (BasicString.ofText data)
  | .new data size, l => add l (BasicString.new data size)
  | .copy i, l =>
      match l[i]? with
      | some s => add l s.copy
      | none => .fail
  | .substr i pos count, l =>
      match l[i]? with
      | some s => add l (s.substr pos count)
      | none => .fail
  | .assign i j, l =>
      match l[i]?, l[j]? with
      | some _, some rhs => do
          let s ← rhs.assign
          return l.set i s
      | _, _ => .fail
  | .delete i, l =>
      match l[i]? with
      | some s => do
          s.delete
          return l.eraseIdx i
      | none => .fail

/-- The operation is an assignment. -/
def isAssign : StringOp → Bool
  | .assign _ _ => true
  | _ => false

end StringOp

/-- The strings and the blocks after some operations, of which there were none before. -/
inductive StringRun : List StringOp → List BasicString → Blocks → Prop where
  | nil : StringRun [] [] ⟨[], false⟩
  | op {ops : List StringOp} {l l' : List BasicString} {b b' : Blocks}
      {tr : List (Event ConsoleSig)} (op : StringOp) :
      StringRun ops l b → Runs Blocks.heap b (op.run l) tr (some l') b' →
      StringRun (ops ++ [op]) l' b'

/-- The live blocks and the strings are in a one-to-one correspondence, and nothing was freed
twice. -/
structure OneToOne (l : List BasicString) (b : Blocks) : Prop where
  owners : (l.map BasicString.data).Perm b.live
  nodup : b.live.Nodup
  badFree : b.badFree = false

/-- The strings own live blocks of their own, and besides there are so many live blocks that no
string owns. -/
structure Leaked (l : List BasicString) (b : Blocks) (n : ℕ) : Prop where
  owners : ∃ leaked, leaked.length = n ∧ (l.map BasicString.data ++ leaked).Perm b.live
  nodup : b.live.Nodup
  badFree : b.badFree = false

variable {l l' : List BasicString} {b b' : Blocks} {s : BasicString} {n i : ℕ} {op : StringOp}
  {ops : List StringOp}

/-- The string has a block that was not live before, and no other block has changed. -/
def Acquires (b : Blocks) (s : BasicString) (b' : Blocks) : Prop :=
  s.data ∉ b.live ∧ b' = { b with live := s.data :: b.live }

/-- The constructor from a text and a size acquires a block for it. -/
theorem new_acquires (data : List UInt8) (size : ℕ) :
  (BasicString.new data size).wpIn Blocks.heap b fun _ o b' => ∀ s, o = some s → Acquires b s b'
  := by
  cases hn : CString.strlen data with
  | none =>
      have hfail : BasicString.new data size = .fail := by
        rw [BasicString.new, CString.strdup, hn]
        rfl
      rw [hfail]
      intro s hs
      cases hs
  | some n =>
      rw [BasicString.new_eq hn]
      rintro (p : ℕ) b' ⟨hp, hfresh, rfl⟩ s hs
      obtain rfl := Option.some.inj hs
      rw [BasicString.made, if_neg hp]
      exact ⟨hfresh, rfl⟩

theorem ofText_acquires (data : List UInt8) :
  (BasicString.ofText data).wpIn Blocks.heap b fun _ o b' => ∀ s, o = some s → Acquires b s b'
  := by
  unfold BasicString.ofText
  split
  · nofun
  · apply new_acquires

theorem substr_acquires (s : BasicString) (pos count : ℕ) :
  (s.substr pos count).wpIn Blocks.heap b fun _ o b' => ∀ s, o = some s → Acquires b s b'
  := by
  unfold BasicString.substr
  split
  · apply new_acquires
  · apply new_acquires

/-- A new string owns its block. -/
theorem Leaked.acquire (h : Leaked l b n) (hs : Acquires b s b') :
  Leaked (l ++ [s]) b' n
  := by
  obtain ⟨hfresh, rfl⟩ := hs
  obtain ⟨leaked, hlen, hperm⟩ := h.owners
  constructor
  · refine ⟨leaked, hlen, ?_⟩
    rw [List.map_append, List.append_assoc]
    apply List.perm_middle.trans
    apply hperm.cons
  · exact List.nodup_cons.mpr ⟨hfresh, h.nodup⟩
  · exact h.badFree

/-- The block of a string that is assigned to is leaked. -/
theorem Leaked.assign (h : Leaked l b n) (hi : i < l.length) (hs : Acquires b s b') :
  Leaked (l.set i s) b' (n + 1)
  := by
  obtain ⟨hfresh, rfl⟩ := hs
  obtain ⟨leaked, hlen, hperm⟩ := h.owners
  constructor
  · refine ⟨l[i].data :: leaked, by rw [List.length_cons, hlen], ?_⟩
    have hold := (List.getElem_cons_eraseIdx_perm hi).map BasicString.data
    have hset := (List.set_perm_cons_eraseIdx hi s).map BasicString.data
    calc (l.set i s).map BasicString.data ++ l[i].data :: leaked
      _ ~ (s :: l.eraseIdx i).map BasicString.data ++ l[i].data :: leaked := hset.append_right _
      _ ~ s.data :: ((l[i] :: l.eraseIdx i).map BasicString.data ++ leaked) :=
          List.perm_middle.cons _
      _ ~ s.data :: (l.map BasicString.data ++ leaked) := (hold.append_right _).cons _
      _ ~ s.data :: b.live := hperm.cons _
  · exact List.nodup_cons.mpr ⟨hfresh, h.nodup⟩
  · exact h.badFree

/-- The destructor frees the block of its string. -/
theorem Leaked.delete (h : Leaked l b n) (hi : i < l.length) :
  Leaked (l.eraseIdx i)
    ⟨b.live.erase l[i].data, b.badFree || (l[i].data ≠ 0 ∧ l[i].data ∉ b.live)⟩ n
  := by
  obtain ⟨leaked, hlen, hperm⟩ := h.owners
  have hold := (List.getElem_cons_eraseIdx_perm hi).map BasicString.data
  have hlive : (l[i].data :: ((l.eraseIdx i).map BasicString.data ++ leaked)).Perm b.live :=
    (hold.append_right leaked).trans hperm
  have hmem : l[i].data ∈ b.live := hlive.mem_iff.mp List.mem_cons_self
  constructor
  · refine ⟨leaked, hlen, ?_⟩
    have herase := hlive.erase l[i].data
    rwa [List.erase_cons_head] at herase
  · exact h.nodup.erase _
  · rw [h.badFree]
    simp [hmem]

/-- What is made is added to the strings. -/
theorem Leaked.add (h : Leaked l b n) {p : Console BasicString}
    (hp : p.wpIn Blocks.heap b fun _ o b' => ∀ s, o = some s → Acquires b s b') :
  (StringOp.add l p).wpIn Blocks.heap b fun _ o b' => ∀ l', o = some l' → Leaked l' b' n
  := by
  apply wpIn_bind
  apply wpIn_mono hp
  intro tr o b' ho
  cases o with
  | none => nofun
  | some s =>
      intro l' hl'
      obtain rfl := Option.some.inj hl'
      apply h.acquire (ho s rfl)

/-- An operation leaks a block if it is an assignment, and none otherwise. -/
theorem Leaked.run (h : Leaked l b n) (op : StringOp) :
  (op.run l).wpIn Blocks.heap b fun _ o b' =>
    ∀ l', o = some l' → Leaked l' b' (n + if op.isAssign then 1 else 0)
  := by
  cases op with
  | ofText data => apply h.add (ofText_acquires data)
  | new data size => apply h.add (new_acquires data size)
  | copy i =>
      rw [StringOp.run]
      split
      · apply h.add (new_acquires _ _)
      · nofun
  | substr i pos count =>
      rw [StringOp.run]
      split
      · apply h.add (substr_acquires _ pos count)
      · nofun
  | assign i j =>
      rw [StringOp.run]
      split
      · rename_i rhs hi hj
        obtain ⟨hi, -⟩ := List.getElem?_eq_some_iff.mp hi
        apply wpIn_bind
        apply wpIn_mono (new_acquires rhs.bytes rhs.size)
        intro tr o b' ho
        cases o with
        | none => nofun
        | some s =>
            intro l' hl'
            obtain rfl := Option.some.inj hl'
            apply h.assign hi (ho s rfl)
      · nofun
  | delete i =>
      rw [StringOp.run]
      split
      · rename_i s hs
        obtain ⟨hi, rfl⟩ := List.getElem?_eq_some_iff.mp hs
        rintro _ b' rfl l' hl'
        obtain rfl := Option.some.inj hl'
        apply h.delete hi
      · nofun

/-- After a run as many blocks have leaked as there were assignments. -/
theorem StringRun.leaked (hrun : StringRun ops l b) :
  Leaked l b (ops.countP StringOp.isAssign)
  := by
  induction hrun with
  | nil => exact ⟨⟨[], rfl, List.Perm.refl _⟩, List.nodup_nil, rfl⟩
  | op op _ hruns ih =>
      rw [List.countP_append, List.countP_singleton]
      apply wpIn_iff.mp (ih.run op) _ _ _ hruns _ rfl

/-- After a run the live blocks and the strings are in a one-to-one correspondence, and nothing was
freed twice, exactly if no string was assigned to. -/
theorem StringRun.oneToOne_iff (hrun : StringRun ops l b) :
  OneToOne l b ↔ ∀ op ∈ ops, ¬ op.isAssign
  := by
  obtain ⟨⟨leaked, hlen, hperm⟩, hnodup, hbadFree⟩ := hrun.leaked
  rw [← List.countP_eq_zero, ← hlen, List.length_eq_zero_iff]
  constructor
  · intro h
    have hlength := (hperm.trans h.owners.symm).length_eq
    rw [List.length_append] at hlength
    apply List.eq_nil_of_length_eq_zero (by omega)
  · rintro rfl
    rw [List.append_nil] at hperm
    exact ⟨hperm, hnodup, hbadFree⟩

/-- A string, a copy of it, and no copy any more. -/
theorem oneToOne_copy :
  ∃ l b, StringRun [.ofText [0x61, 0], .copy 0, .delete 0] l b ∧ OneToOne l b
  := by
  have h₁ : Runs Blocks.heap ⟨[], false⟩ ((StringOp.ofText [0x61, 0]).run []) _
      (some [⟨64, [0x61, 0], 1⟩]) ⟨[64], false⟩ :=
    Runs.call  ⟨Nat.succ_ne_zero _, List.not_mem_nil, rfl⟩ (Runs.ret _ _)
  have h₂ : Runs Blocks.heap ⟨[64], false⟩ ((StringOp.copy 0).run [⟨64, [0x61, 0], 1⟩]) _
      (some [⟨64, [0x61, 0], 1⟩, ⟨96, [0x61, 0], 1⟩]) ⟨[96, 64], false⟩ :=
    Runs.call  ⟨Nat.succ_ne_zero _, by decide, rfl⟩ (Runs.ret _ _)
  have h₃ : Runs Blocks.heap ⟨[96, 64], false⟩
      ((StringOp.delete 0).run [⟨64, [0x61, 0], 1⟩, ⟨96, [0x61, 0], 1⟩]) _
      (some [⟨96, [0x61, 0], 1⟩]) ⟨[96], false⟩ :=
    Runs.call (x := ()) rfl (Runs.ret _ _)
  have hrun := StringRun.op _ (StringRun.op _ (StringRun.op _ StringRun.nil h₁) h₂) h₃
  exact ⟨_, _, hrun, hrun.oneToOne_iff.mpr (by decide)⟩

/-- After an assignment of a string to itself its first block has no owner. -/
theorem not_oneToOne_assign :
  ∃ l b, StringRun [.ofText [0x61, 0], .assign 0 0] l b ∧ ¬ OneToOne l b
  := by
  have h₁ : Runs Blocks.heap ⟨[], false⟩ ((StringOp.ofText [0x61, 0]).run []) _
      (some [⟨64, [0x61, 0], 1⟩]) ⟨[64], false⟩ :=
    Runs.call  ⟨Nat.succ_ne_zero _, List.not_mem_nil, rfl⟩ (Runs.ret _ _)
  have h₂ : Runs Blocks.heap ⟨[64], false⟩ ((StringOp.assign 0 0).run [⟨64, [0x61, 0], 1⟩]) _
      (some [⟨96, [0x61, 0], 1⟩]) ⟨[96, 64], false⟩ :=
    Runs.call  ⟨Nat.succ_ne_zero _, by decide, rfl⟩ (Runs.ret _ _)
  refine ⟨_, _, StringRun.op _ (StringRun.op _ StringRun.nil h₁) h₂, ?_⟩
  intro h
  have hlength := h.owners.length_eq
  cases hlength
