import StandaloneSel4.Heap.Kmalloc
import StandaloneSel4.CString
import StandaloneSel4.Sync.Threads

/-!
# The entry points of the allocator

`kmalloc`, `kfree` and `krealloc` as programs that take the lock, work on the heap and give
the lock back. What they do to the heap is in the actions: the functions without the lock,
the read of a header, and the copying and filling of `krealloc`.
-/

namespace Kmalloc

open Sync Fuel

/-- The work on the heap under the lock. -/
inductive HeapCall where
  | kmallocNoLock (size : ℕ)
  | kfreeNoLock (ptr : ℕ)
  /-- `chunk->node.info.size`. -/
  | size (chunk : ℕ)
  | memcpy (dest src n : ℕ)
  | memset (s : ℕ) (c : UInt8) (len : ℕ)

/-- The work on the heap, with what it returns. -/
abbrev HeapSig : Signature where
  Call := HeapCall
  Answer
    | .kmallocNoLock _ => ℕ
    | .kfreeNoLock _ => Unit
    | .size _ => ℕ
    | .memcpy _ _ _ => Unit
    | .memset _ _ _ => Unit

/-- What the work does to the heap. -/
def heapActs : Actions HeapSig Heap
  | .kmallocNoLock size, h, fuel => kmallocNoLock size h fuel
  | .kfreeNoLock ptr, h, fuel => (kfreeNoLock ptr h fuel).map fun h => ((), h)
  | .size chunk, h, _ => some (get .size h.mem chunk, h)
  | .memcpy dest src n, h, _ => some ((), { h with mem := CString.memcpy h.mem dest src n })
  | .memset s c len, h, _ => some ((), { h with mem := CString.memset h.mem s c len })

/-- A program of an entry point. -/
abbrev Entry (α : Type) : Type :=
  Prog (LockSig HeapSig) α

/-- `kmalloc`. -/
def kmalloc (size : ℕ) : Entry ℕ := do
  let _ ← lock
  let r ← act (S := HeapSig) (.kmallocNoLock size)
  let _ ← unlock
  return r

/-- `kfree`. -/
def kfree (ptr : ℕ) : Entry Unit := do
  let _ ← lock
  let _ ← act (S := HeapSig) (.kfreeNoLock ptr)
  let _ ← unlock

/-- `krealloc`. -/
def krealloc (ptr size : ℕ) : Entry ℕ := do
  let _ ← lock
  if ptr = 0 then
    let r ← act (S := HeapSig) (.kmallocNoLock size)
    let _ ← unlock
    return r
  else
    let ptr := Word.sub ptr sizeofInfo
    let prevSize ← act (S := HeapSig) (.size ptr)
    if size < prevSize then
      let _ ← unlock
      return 0
    else
      let newPtr ← kmalloc size
      if newPtr = 0 then
        let _ ← unlock
        return 0
      else
        let _ ← act (S := HeapSig) (.memcpy newPtr ptr prevSize)
        let _ ← act (S := HeapSig)
          (.memset (Word.add newPtr prevSize) 0 (Word.sub size prevSize))
        let _ ← act (S := HeapSig) (.kfreeNoLock ptr)
        let _ ← unlock
        return newPtr

/-- An operation of a client of the heap. -/
inductive Op where
  | kmalloc (size : ℕ)
  | kfree (ptr : ℕ)
  | krealloc (ptr size : ℕ)

/-- The program of an operation. What `kfree` returns is taken for the null pointer. -/
def Op.prog : Op → Entry ℕ
  | .kmalloc size => Kmalloc.kmalloc size
  | .kfree ptr => do
      Kmalloc.kfree ptr
      return 0
  | .krealloc ptr size => Kmalloc.krealloc ptr size

end Kmalloc
