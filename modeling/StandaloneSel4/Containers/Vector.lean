import StandaloneSel4.Lib.World
import StandaloneSel4.Word
import Mathlib.Logic.Function.Basic

/-!
# Vectors

A `vector` keeps its elements in a block of the heap, which it has `krealloc` enlarge when it runs
out of room. The heap is a world that keeps the contract of `realloc`: the elements that fit into
both blocks are the same before and after, and where there is no memory nothing happens and the
answer is null. Outside its block a write may do anything to the heap, and a read may find anything.
-/

open Prog

namespace Containers

variable {α β : Type}

/-! ### The heap -/

/-- A block: the size that was asked for, and the elements in it. -/
structure Block (α : Type) where
  bytes : ℕ
  cells : ℕ → α

/-- There is room in the block for the element at the index. -/
def Block.Room (sizeof : ℕ) (b : Block α) (i : ℕ) : Prop :=
  (i + 1) * sizeof ≤ b.bytes

/-- The block after the assignment to an element. -/
def Block.set (b : Block α) (i : ℕ) (value : α) : Block α :=
  { b with cells := Function.update b.cells i value }

@[simp]
theorem Block.cells_set_self (b : Block α) (i : ℕ) (value : α) :
  (b.set i value).cells i = value
  := Function.update_self _ _ _

theorem Block.cells_set_of_ne {i j : ℕ} (h : j ≠ i) (b : Block α) (value : α) :
  (b.set i value).cells j = b.cells j
  := Function.update_of_ne h _ _

/-- The blocks at their addresses. -/
abbrev Store (α : Type) : Type :=
  ℕ → Option (Block α)

/-- What a vector calls: the allocator, and its elements. -/
inductive ElementCall (α : Type) where
  | krealloc (ptr size : ℕ)
  /-- The value of `data[i]`. -/
  | read (data i : ℕ)
  /-- The assignment `data[i] = value`. -/
  | write (data i : ℕ) (value : α)

/-- The calls, with what they give. -/
abbrev ElementSig (α : Type) : Signature where
  Call := ElementCall α
  Answer
    | .krealloc _ _ => ℕ
    | .read _ _ => α
    | .write _ _ _ => Unit

/-- A program on the elements of a vector. -/
abbrev VectorProg (α β : Type) : Type :=
  Prog (ElementSig α) β

/-- The contract of `realloc` when there is memory: the block at `ptr` is replaced by one at `p`. -/
structure Reallocated (sizeof : ℕ) (m : Store α) (ptr size p : ℕ) (m' : Store α) : Prop where
  fresh : p = ptr ∨ m p = none
  freed : p ≠ ptr → m' ptr = none
  others : ∀ q, q ≠ ptr → q ≠ p → m' q = m q
  block : ∃ b', m' p = some b' ∧ b'.bytes = size ∧
    ∀ b, m ptr = some b → ∀ i, b.Room sizeof i → b'.Room sizeof i → b'.cells i = b.cells i

/-- The heap. `krealloc` may only be called with a null pointer or that of a block. -/
def heap (sizeof : ℕ) : World (ElementSig α) (Store α)
  | m, .krealloc ptr size, p, m' =>
      p = (0 : ℕ) ∧ m' = m
        ∨ p ≠ (0 : ℕ) ∧ (ptr = 0 ∨ (m ptr).isSome → Reallocated sizeof m ptr size p m')
  | m, .read data i, x, m' =>
      m' = m ∧ ∀ b, m data = some b → b.Room sizeof i → x = b.cells i
  | m, .write data i value, _, m' =>
      ∀ b, m data = some b → b.Room sizeof i →
        m' = Function.update m data (some (b.set i value))

/-- An allocation succeeds. -/
def Granted : Event (ElementSig α) → Prop
  | ⟨.krealloc _ _, p⟩ => p ≠ (0 : ℕ)
  | _ => True

/-- How many elements the last allocation has room for after a call, if it had room for so many
before it. -/
def roomAfter (sizeof room : ℕ) (e : Event (ElementSig α)) : ℕ :=
  match e.call with
  | .krealloc _ size => size / sizeof
  | _ => room

/-- How many it has room for after some calls. -/
def capacity (sizeof room : ℕ) (tr : List (Event (ElementSig α))) : ℕ :=
  tr.foldl (roomAfter sizeof) room

/-- Every element is written at an index below the number of elements that the last allocation has
room for. -/
def WritesWithin (sizeof : ℕ) : ℕ → List (Event (ElementSig α)) → Prop
  | _, [] => True
  | room, e :: tr =>
      (∀ data i value, e.call = .write data i value → i < room)
        ∧ WritesWithin sizeof (roomAfter sizeof room e) tr

/-! ### The class -/

/-- The argument of `push_back`, which is passed by reference. -/
inductive Reference (α : Type) where
  /-- To a value that is not in the block of the vector. -/
  | value (x : α)
  /-- To the element of the vector at the index. -/
  | element (i : ℕ)

/-- The fields of `vector`. -/
structure Vector where
  size : ℕ
  reservation : ℕ
  data : ℕ
  deriving DecidableEq

namespace Vector

/-- The default constructor. -/
def new : Vector where
  size := 0
  reservation := 0
  data := 0

/-- The constructor from a count. -/
def ofCount (count : ℕ) : Vector :=
  { new with reservation := count }

/-- The reservation that `doRealloc` makes. -/
def nextReservation (v : Vector) : ℕ :=
  if v.reservation = 0 then 10 else Word.mul v.size 2

/-- `doRealloc`. -/
def doRealloc (sizeof : ℕ) (v : Vector) : VectorProg α Vector :=
  if v.data = 0 ∨ v.reservation ≤ v.size then do
    let sizeToRealloc := Word.mul v.nextReservation sizeof
    let data ← perform (S := ElementSig α) (.krealloc v.data sizeToRealloc)
    return ⟨v.size, v.nextReservation, data⟩
  else return v

/-- `clear`. -/
def clear (v : Vector) : Vector :=
  { v with size := 0 }

/-- `empty`. -/
def empty (v : Vector) : Bool :=
  v.size = 0

/-- `operator[]`. -/
def get (v : Vector) (pos : ℕ) : VectorProg α α :=
  perform (S := ElementSig α) (.read v.data pos)

/-- The value that is referred to, if an element is one of the vector as it is now. -/
def load (v : Vector) : Reference α → VectorProg α α
  | .value x => return x
  | .element i => v.get i

/-- What both overloads of `push_back` do. The reference they are given is to the block that the
vector had when they were called. -/
def append (sizeof : ℕ) (value : Reference α) (v : Vector) : VectorProg α Vector := do
  let v' ← doRealloc sizeof v
  let x ← v.load value
  let _ ← perform (S := ElementSig α) (.write v'.data v'.size x)
  return { v' with size := Word.add v'.size 1 }

/-- `push_back(const Type &)`. -/
def pushBack (sizeof : ℕ) (value : Reference α) (v : Vector) : VectorProg α Vector :=
  append sizeof value v

/-- `push_back(Type &&)`. -/
def pushBackMove (sizeof : ℕ) (value : Reference α) (v : Vector) : VectorProg α Vector :=
  append sizeof value v

/-- `front`. -/
def front (v : Vector) : VectorProg α α :=
  v.get 0

/-- `back`. -/
def back (v : Vector) : VectorProg α α :=
  v.get (Word.sub v.size 1)

/-- The elements from the one at `i` on, of which there are so many. -/
def elementsFrom (v : Vector) (i : ℕ) : ℕ → VectorProg α (List α)
  | 0 => return []
  | n + 1 => do
      let x ← v.get i
      let l ← v.elementsFrom (i + 1) n
      return x :: l

/-- The elements met on the way from `begin` to `end`. -/
def elements (v : Vector) : VectorProg α (List α) :=
  v.elementsFrom 0 v.size

/-- The loop of `erase`. The iterators are the indices of the elements they point at. -/
def eraseLoop (v : Vector) (copyIterator it : ℕ) : VectorProg α Unit :=
  if it + 1 = v.size then return ()
  else if v.size < it + 1 then .fail -- the loop does not meet the end any more
  else do
    let x ← v.get (it + 1)
    let _ ← perform (S := ElementSig α) (.write v.data copyIterator x)
    v.eraseLoop (copyIterator + 1) (it + 1)
termination_by v.size - it

/-- `erase`, with the iterator it returns. -/
def erase (v : Vector) (it : ℕ) : VectorProg α (Vector × ℕ) := do
  v.eraseLoop it it
  return (v, it)

end Vector

/-- The value that is referred to, if an element is one of the list. -/
def Reference.ofList (l : List α) : Reference α → Option α
  | .value x => some x
  | .element i => l[i]?

/-- An operation on a vector. -/
inductive Op (α : Type) where
  | pushBack (value : Reference α)
  | pushBackMove (value : Reference α)
  | clear

namespace Op

/-- What it does. -/
def run (sizeof : ℕ) : Op α → Vector → VectorProg α Vector
  | .pushBack value, v => v.pushBack sizeof value
  | .pushBackMove value, v => v.pushBackMove sizeof value
  | .clear, v => return v.clear

/-- What it does to a list. -/
def onList : Op α → List α → List α
  | .pushBack value, l | .pushBackMove value, l => l ++ (value.ofList l).toList
  | .clear, _ => []

end Op

/-- The elements pushed since the last `clear`. -/
def contents (ops : List (Op α)) : List α :=
  ops.foldl (fun l op => op.onList l) []

/-- The vector, the heap and the calls after a run of operations that begins with the vector `v₀`
and the heap `m₀`, where each operation meets the condition `C`. -/
inductive Run (sizeof : ℕ) (C : Op α → Vector → Prop) (v₀ : Vector) (m₀ : Store α) :
    List (Op α) → List (Event (ElementSig α)) → Vector → Store α → Prop where
  | nil : Run sizeof C v₀ m₀ [] [] v₀ m₀
  | op {ops : List (Op α)} {tr tr' : List (Event (ElementSig α))} {v v' : Vector}
      {m m' : Store α} (op : Op α) :
      Run sizeof C v₀ m₀ ops tr v m → C op v →
      Runs (heap sizeof) m (op.run sizeof v) tr' (some v') m' →
      Run sizeof C v₀ m₀ (ops ++ [op]) (tr ++ tr') v' m'

end Containers
