import StandaloneSel4.Heap.Chunk
import StandaloneSel4.Lib.Fuel
import StandaloneSel4.Sync.BinSem

/-!
# The allocator

The functions of kmalloc.cpp that work on the heap, without the lock around them. The
state is the memory and the static variables other than the lock. `head` and `tail` are
the addresses of the two chunks of that name; like those of the pool, their fields are
bytes of the memory. A function with a loop that need not end takes fuel as its last
argument.
-/

namespace Kmalloc

open Bytes Fuel Sync

/-- The memory and the static variables of kmalloc.cpp, without its lock. -/
structure Heap where
  mem : Mem
  head : ℕ
  tail : ℕ
  initialized : Bool
  chunkMax : ℕ
  pool : ℕ
  totalAllocated : ℕ

/-- The static variables before `setMemoryPool`, with `&head` and `&tail`. -/
def Heap.boot (mem : Mem) (head tail : ℕ) : Heap where
  mem := mem
  head := head
  tail := tail
  initialized := false
  chunkMax := 0
  pool := 0
  totalAllocated := 0

/-- `setMemoryPool`: the heap and the lock; `none` is the failed assertion. -/
def setMemoryPool (h : Heap) (start size mutexNotif : ℕ) : Option (Heap × BinSem) :=
  let h := { h with pool := start, chunkMax := size / sizeofChunk }
  match syncMutexInit mutexNotif with
  | none => none
  | some lock => some (h, lock)

/-- `getTotalKMallocated`. -/
def getTotalKMallocated (h : Heap) : ℕ :=
  h.totalAllocated

/-- A round of the loop of `init` and of `relink`: the chunk `curr` is linked back to
`prev` and on to the chunk after it. -/
def linkChunk (m : Mem) (prev curr : ℕ) : Mem :=
  let m := set .prev m curr prev
  let m := set .next m curr (Word.add curr sizeofChunk)
  set .count m curr 0

/-- The loop of `init` and of `relink`: `n` chunks from `curr` on are linked one after the
other behind `prev`. It gives the memory and the last chunk linked. -/
def linkChunks : ℕ → Mem → ℕ → ℕ → Mem × ℕ
  | 0, m, prev, _ => (m, prev)
  | n + 1, m, prev, curr =>
      linkChunks n (linkChunk m prev curr) curr (Word.add curr sizeofChunk)

/-- The two assignments that link a chunk to another in `init`, `unlink` and `relink`:
`prev->node.info.next = next` and `next->node.info.prev = prev`. -/
def linkEnds (m : Mem) (prev next : ℕ) : Mem :=
  let m := set .next m prev next
  set .prev m next prev

/-- `init`. -/
def init (h : Heap) : Heap :=
  let m := set .next h.mem h.head h.pool
  let (m, prev) := linkChunks h.chunkMax m h.head h.pool
  { h with mem := linkEnds m prev h.tail, initialized := true }

/-- A round of the loop of `chunk_count`, on `chunks_size` and `chunks`. -/
def chunkCountRound (size : ℕ) : ℕ × ℕ → (ℕ × ℕ) ⊕ ℕ :=
  fun (chunksSize, chunks) =>
    if chunksSize < Word.add size sizeofInfo then
      .inl (Word.add chunksSize sizeofChunk, Word.add chunks 1)
    else .inr chunks

/-- `chunk_count`. -/
def chunkCount (size fuel : ℕ) : Option ℕ :=
  loop (chunkCountRound size) fuel (0, 0)

/-- `unlink`: the pointer handed out, and the heap. -/
def unlink (h : Heap) (top count size : ℕ) : ℕ × Heap :=
  let prev := get .prev h.mem top
  let next := get .next h.mem (Word.add top (sizeofChunk * Word.sub count 1))
  let m := linkEnds h.mem prev next
  let m := set .count m top count
  let m := set .size m top size
  (Word.add top sizeofInfo,
    { h with mem := m, totalAllocated := Word.add h.totalAllocated size })

/-- A round of the search of `relink` for the chunk to link behind. -/
def relinkRound (h : Heap) (top : ℕ) : ℕ → ℕ ⊕ ℕ :=
  fun prev =>
    if get .next h.mem prev ≠ h.tail ∧ get .next h.mem prev < top then
      .inl (get .next h.mem prev)
    else .inr prev

/-- What `relink` does once it has found the chunk to link behind. -/
def relinkBehind (h : Heap) (top prev : ℕ) : Heap :=
  let h := { h with totalAllocated := Word.sub h.totalAllocated (get .size h.mem top) }
  if prev = top then h
  else
    let next := get .next h.mem prev
    let m := set .next h.mem prev top
    let (m, last) := linkChunks (get .count m top) m prev top
    { h with mem := linkEnds m last next }

/-- `relink`. -/
def relink (h : Heap) (top fuel : ℕ) : Option Heap :=
  if top < h.pool
      ∨ Word.sub (Word.add h.pool (sizeofChunk * h.chunkMax)) sizeofChunk < top then
    some h
  else (loop (relinkRound h top) fuel h.head).map (relinkBehind h top)

/-- The variables of the search loop of `kmalloc_no_lock`. -/
structure Search where
  curr : ℕ
  keep : ℕ
  top : ℕ

/-- A round of the search loop of `kmalloc_no_lock`. It is left with the start of the
chunks to hand out, or with nothing at the end of the list. -/
def searchRound (h : Heap) (chunks : ℕ) : Search → Search ⊕ Option ℕ :=
  fun s =>
    if s.curr = h.tail then .inr none
    else
      let keep := Word.add s.keep 1
      if keep = chunks then .inr (some s.top)
      else if get .next h.mem s.curr = Word.add s.curr sizeofChunk then
        .inl ⟨get .next h.mem s.curr, keep, s.top⟩
      else .inl ⟨get .next h.mem s.curr, 0, get .next h.mem s.curr⟩

/-- The heap after the first two lines of `kmalloc_no_lock`. -/
def ensureInit (h : Heap) : Heap :=
  if h.initialized then h else init h

/-- What `kmalloc_no_lock` does with what its loop found; the null pointer is `0`. -/
def takeFound (h : Heap) (chunks size : ℕ) : Option ℕ → ℕ × Heap
  | some top => unlink h top chunks size
  | none => (0, h)

/-- `kmalloc_no_lock`. -/
def kmallocNoLock (size : ℕ) (h : Heap) (fuel : ℕ) : Option (ℕ × Heap) :=
  let h := ensureInit h
  (chunkCount size fuel).bind fun chunks =>
    let top := get .next h.mem h.head
    (loop (searchRound h chunks) fuel ⟨top, 0, top⟩).map (takeFound h chunks size)

/-- `kfree_no_lock`. -/
def kfreeNoLock (ptr : ℕ) (h : Heap) (fuel : ℕ) : Option Heap :=
  if ptr = 0 then some h
  else relink h (Word.sub ptr sizeofInfo) fuel

end Kmalloc
