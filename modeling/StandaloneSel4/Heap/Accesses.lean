import StandaloneSel4.Heap.Runs
import StandaloneSel4.Lib.Accesses

/-!
# The accesses of the allocator

The functions of kmalloc.cpp that work on the heap, access by access: every read and every write of
a field of a chunk or of a static variable is one step. A loop that need not end has a number of
rounds that it goes at most. Made one after the other, the accesses of a function do what the
function does.
-/

namespace Kmalloc

open Bytes Fuel Prog Sync

/-- The static variables that hold a number, and the addresses of the chunks `head` and `tail`. -/
inductive Static where
  | head
  | tail
  | pool
  | chunkMax
  | totalAllocated

/-- An access to the memory or to a static variable. -/
inductive HeapAccess where
  | static (v : Static)
  | setTotal (v : ℕ)
  | initialized
  | setInitialized
  /-- `c->node.info.f`. -/
  | get (f : Field) (c : ℕ)
  | set (f : Field) (c v : ℕ)
  | byte (a : ℕ)
  | setByte (a : ℕ) (b : UInt8)

/-- The accesses, with what they answer. -/
abbrev AccessSig : Signature where
  Call := HeapAccess
  Answer
    | .static _ => ℕ
    | .setTotal _ => Unit
    | .initialized => Bool
    | .setInitialized => Unit
    | .get _ _ => ℕ
    | .set _ _ _ => Unit
    | .byte _ => UInt8
    | .setByte _ _ => Unit

/-- What a static variable holds. -/
def Heap.static (h : Heap) : Static → ℕ
  | .head => h.head
  | .tail => h.tail
  | .pool => h.pool
  | .chunkMax => h.chunkMax
  | .totalAllocated => h.totalAllocated

/-- What an access answers, and the heap after it. -/
def heapAccess : Access AccessSig Heap
  | .static v, h => (h.static v, h)
  | .setTotal v, h => ((), { h with totalAllocated := v })
  | .initialized, h => (h.initialized, h)
  | .setInitialized, h => ((), { h with initialized := true })
  | .get f c, h => (get f h.mem c, h)
  | .set f c v, h => ((), { h with mem := set f h.mem c v })
  | .byte a, h => (h.mem a, h)
  | .setByte a b, h => ((), { h with mem := fun a' => if a' = a then b else h.mem a' })

/-- A function of the allocator, access by access. -/
abbrev Work (α : Type) : Type :=
  Prog AccessSig α

namespace Work

def static (v : Static) : Work ℕ :=
  perform (S := AccessSig) (.static v)

def setTotal (v : ℕ) : Work Unit :=
  perform (S := AccessSig) (.setTotal v)

def initialized : Work Bool :=
  perform (S := AccessSig) .initialized

def setInitialized : Work Unit :=
  perform (S := AccessSig) .setInitialized

def get (f : Field) (c : ℕ) : Work ℕ :=
  perform (S := AccessSig) (.get f c)

def set (f : Field) (c v : ℕ) : Work Unit :=
  perform (S := AccessSig) (.set f c v)

def byte (a : ℕ) : Work UInt8 :=
  perform (S := AccessSig) (.byte a)

def setByte (a : ℕ) (b : UInt8) : Work Unit :=
  perform (S := AccessSig) (.setByte a b)

/-- A round of the loop of `init` and of `relink`. -/
def linkChunk (prev curr : ℕ) : Work Unit := do
  set .prev curr prev
  set .next curr (Word.add curr sizeofChunk)
  set .count curr 0

/-- The loop of `init` and of `relink`. It gives the last chunk linked. -/
def linkChunks : ℕ → ℕ → ℕ → Work ℕ
  | 0, prev, _ => return prev
  | n + 1, prev, curr => do
      linkChunk prev curr
      linkChunks n curr (Word.add curr sizeofChunk)

/-- The two assignments that link a chunk to another. -/
def linkEnds (prev next : ℕ) : Work Unit := do
  set .next prev next
  set .prev next prev

/-- `init`. -/
def init : Work Unit := do
  let head ← static .head
  let pool ← static .pool
  set .next head pool
  let chunkMax ← static .chunkMax
  let prev ← linkChunks chunkMax head pool
  let tail ← static .tail
  linkEnds prev tail
  setInitialized

/-- `unlink`. -/
def unlink (top count size : ℕ) : Work ℕ := do
  let prev ← get .prev top
  let next ← get .next (Word.add top (sizeofChunk * Word.sub count 1))
  linkEnds prev next
  set .count top count
  set .size top size
  let total ← static .totalAllocated
  setTotal (Word.add total size)
  return Word.add top sizeofInfo

/-- A round of the search of `relink`. -/
def relinkRound (top prev : ℕ) : Work (ℕ ⊕ ℕ) := do
  let tail ← static .tail
  let next ← get .next prev
  if next = tail then return .inr prev
  else
    let next ← get .next prev
    if next < top then
      let next ← get .next prev
      return .inl next
    else return .inr prev

/-- What `relink` does once it has found the chunk to link behind. -/
def relinkBehind (top prev : ℕ) : Work Unit := do
  if prev = top then return ()
  else
    let next ← get .next prev
    set .next prev top
    let count ← get .count top
    let last ← linkChunks count prev top
    linkEnds last next

/-- `relink`. -/
def relink (top n : ℕ) : Work Unit := do
  let pool ← static .pool
  let chunkMax ← static .chunkMax
  if top < pool ∨ Word.sub (Word.add pool (sizeofChunk * chunkMax)) sizeofChunk < top then
    return ()
  else
    let size ← get .size top
    let total ← static .totalAllocated
    setTotal (Word.sub total size)
    let head ← static .head
    let prev ← rounds (relinkRound top) n head
    relinkBehind top prev

/-- A round of the search loop of `kmalloc_no_lock`. -/
def searchRound (chunks : ℕ) (s : Search) : Work (Search ⊕ Option ℕ) := do
  let tail ← static .tail
  if s.curr = tail then return .inr none
  else
    let keep := Word.add s.keep 1
    if keep = chunks then return .inr (some s.top)
    else
      let next ← get .next s.curr
      if next = Word.add s.curr sizeofChunk then
        let next ← get .next s.curr
        return .inl ⟨next, keep, s.top⟩
      else
        let top ← get .next s.curr
        let next ← get .next s.curr
        return .inl ⟨next, 0, top⟩

/-- The first two lines of `kmalloc_no_lock`. -/
def ensureInit : Work Unit := do
  let ready ← initialized
  if ready then return ()
  else init

/-- What `kmalloc_no_lock` does with what its loop found. -/
def takeFound (chunks size : ℕ) : Option ℕ → Work ℕ
  | some top => unlink top chunks size
  | none => return 0

/-- What `kmalloc_no_lock` does once `chunk_count` has returned. -/
def search (chunks size n : ℕ) : Work ℕ := do
  let head ← static .head
  let top ← get .next head
  let found ← rounds (searchRound chunks) n ⟨top, 0, top⟩
  takeFound chunks size found

/-- `kmalloc_no_lock`. The function `chunk_count` makes no access. -/
def kmallocNoLock (size n : ℕ) : Work ℕ := do
  ensureInit
  match chunkCount size n with
  | some chunks => search chunks size n
  | none => .fail

/-- `kfree_no_lock`. -/
def kfreeNoLock (ptr n : ℕ) : Work Unit :=
  if ptr = 0 then return ()
  else relink (Word.sub ptr sizeofInfo) n

/-- `memcpy`. -/
def memcpy (dest src : ℕ) : ℕ → Work Unit
  | 0 => return ()
  | n + 1 => do
      memcpy dest src n
      let b ← byte (src + n)
      setByte (dest + n) b

/-- `memset`. -/
def memset (s : ℕ) (c : UInt8) : ℕ → Work Unit
  | 0 => return ()
  | len + 1 => do
      memset s c len
      setByte (s + len) c

end Work

/-- What the work on the heap consists of. -/
def heapWork (n : ℕ) : (c : HeapCall) → Work (HeapSig.Answer c)
  | .kmallocNoLock size => Work.kmallocNoLock size n
  | .kfreeNoLock ptr => Work.kfreeNoLock ptr n
  | .size chunk => Work.get .size chunk
  | .memcpy dest src len => Work.memcpy dest src len
  | .memset s c len => Work.memset s c len

/-! ### What the accesses of a function do -/

section

variable {α : Type}

@[simp]
theorem through_head (k : ℕ → Work α) (h : Heap) :
  through heapAccess (Work.static .head >>= k) h = through heapAccess (k h.head) h
  := rfl

@[simp]
theorem through_tail (k : ℕ → Work α) (h : Heap) :
  through heapAccess (Work.static .tail >>= k) h = through heapAccess (k h.tail) h
  := rfl

@[simp]
theorem through_pool (k : ℕ → Work α) (h : Heap) :
  through heapAccess (Work.static .pool >>= k) h = through heapAccess (k h.pool) h
  := rfl

@[simp]
theorem through_chunkMax (k : ℕ → Work α) (h : Heap) :
  through heapAccess (Work.static .chunkMax >>= k) h = through heapAccess (k h.chunkMax) h
  := rfl

@[simp]
theorem through_total (k : ℕ → Work α) (h : Heap) :
  through heapAccess (Work.static .totalAllocated >>= k) h
    = through heapAccess (k h.totalAllocated) h
  := rfl

@[simp]
theorem through_setTotal (v : ℕ) (k : Unit → Work α) (h : Heap) :
  through heapAccess (Work.setTotal v >>= k) h
    = through heapAccess (k ()) { h with totalAllocated := v }
  := rfl

@[simp]
theorem through_initialized (k : Bool → Work α) (h : Heap) :
  through heapAccess (Work.initialized >>= k) h = through heapAccess (k h.initialized) h
  := rfl

@[simp]
theorem through_get (f : Field) (c : ℕ) (k : ℕ → Work α) (h : Heap) :
  through heapAccess (Work.get f c >>= k) h = through heapAccess (k (get f h.mem c)) h
  := rfl

@[simp]
theorem through_set (f : Field) (c v : ℕ) (k : Unit → Work α) (h : Heap) :
  through heapAccess (Work.set f c v >>= k) h
    = through heapAccess (k ()) { h with mem := set f h.mem c v }
  := rfl

end

theorem through_linkChunks (n prev curr : ℕ) (h : Heap) :
  through heapAccess (Work.linkChunks n prev curr) h
    = some ((linkChunks n h.mem prev curr).2, { h with mem := (linkChunks n h.mem prev curr).1 })
  := by
  induction n generalizing prev curr h with
  | zero => rfl
  | succ n ih =>
      exact ih curr (Word.add curr sizeofChunk) { h with mem := linkChunk h.mem prev curr }

theorem through_linkEnds (prev next : ℕ) (h : Heap) :
  through heapAccess (Work.linkEnds prev next) h
    = some ((), { h with mem := linkEnds h.mem prev next })
  := rfl

theorem through_init (h : Heap) :
  through heapAccess Work.init h = some ((), init h)
  := by
  simp only [Work.init, through_head, through_pool, through_set, through_chunkMax]
  rw [through_bind, through_linkChunks]
  rfl

theorem through_relinkRound (top : ℕ) (h : Heap) (prev : ℕ) :
  through heapAccess (Work.relinkRound top prev) h = some (relinkRound h top prev, h)
  := by
  simp only [Work.relinkRound, through_tail, through_get, relinkRound]
  by_cases htail : get .next h.mem prev = h.tail
  · rw [if_pos htail, if_neg (fun hboth => hboth.1 htail)]
    rfl
  · rw [if_neg htail, through_get]
    by_cases hlt : get .next h.mem prev < top
    · rw [if_pos hlt, if_pos ⟨htail, hlt⟩]
      rfl
    · rw [if_neg hlt, if_neg (fun hboth => hlt hboth.2)]
      rfl

theorem through_relinkBehind (top prev : ℕ) (h : Heap) :
  through heapAccess (Work.relinkBehind top prev)
      { h with totalAllocated := Word.sub h.totalAllocated (get .size h.mem top) }
    = some ((), relinkBehind h top prev)
  := by
  simp only [Work.relinkBehind, relinkBehind]
  split
  · rfl
  · simp only [through_get, through_set]
    rw [through_bind, through_linkChunks, Option.bind_some, through_linkEnds]

theorem through_relink (top n : ℕ) (h : Heap) :
  through heapAccess (Work.relink top n) h = (relink h top n).map fun h => ((), h)
  := by
  -- the search does not read the total
  have hsearch : ∀ h' prev, h'.mem = h.mem → h'.tail = h.tail →
      through heapAccess (rounds (Work.relinkRound top) n prev) h'
        = (loop (relinkRound h top) n prev).map fun r => (r, h') := by
    intro h' prev hmem htail
    apply through_rounds
    intro prev
    rw [through_relinkRound, relinkRound, relinkRound, hmem, htail]
  simp only [Work.relink, through_pool, through_chunkMax, relink]
  split
  · rfl
  · simp only [through_get, through_total, through_setTotal, through_head]
    rw [through_bind, hsearch]
    · cases loop (relinkRound h top) n h.head with
      | none => rfl
      | some prev =>
          rw [Option.map_some, Option.bind_some, through_relinkBehind]
          rfl
    · rfl
    · rfl

theorem through_searchRound (chunks : ℕ) (h : Heap) (s : Search) :
  through heapAccess (Work.searchRound chunks s) h = some (searchRound h chunks s, h)
  := by
  simp only [Work.searchRound, through_tail, searchRound]
  split
  · rfl
  · split
    · rfl
    · rw [through_get]
      split
      · rfl
      · rfl

theorem through_search (chunks size n : ℕ) (h : Heap) :
  through heapAccess (Work.search chunks size n) h
    = (loop (searchRound h chunks) n
        ⟨get .next h.mem h.head, 0, get .next h.mem h.head⟩).map (takeFound h chunks size)
  := by
  simp only [Work.search, through_head, through_get]
  rw [through_bind, through_rounds (through_searchRound chunks h)]
  cases loop (searchRound h chunks) n ⟨get .next h.mem h.head, 0, get .next h.mem h.head⟩ with
  | none => rfl
  | some found =>
      cases found with
      | none => rfl
      | some top => rfl

theorem through_ensureInit (h : Heap) :
  through heapAccess Work.ensureInit h = some ((), ensureInit h)
  := by
  simp only [Work.ensureInit, through_initialized, ensureInit]
  split
  · rfl
  · exact through_init h

theorem through_kmallocNoLock (size n : ℕ) (h : Heap) :
  through heapAccess (Work.kmallocNoLock size n) h = kmallocNoLock size h n
  := by
  rw [Work.kmallocNoLock, through_bind, through_ensureInit, Option.bind_some]
  simp only [kmallocNoLock]
  cases chunkCount size n with
  | none => rfl
  | some chunks => exact through_search chunks size n (ensureInit h)

theorem through_kfreeNoLock (ptr n : ℕ) (h : Heap) :
  through heapAccess (Work.kfreeNoLock ptr n) h = (kfreeNoLock ptr h n).map fun h => ((), h)
  := by
  simp only [Work.kfreeNoLock, kfreeNoLock]
  split
  · rfl
  · exact through_relink (Word.sub ptr sizeofInfo) n h

theorem through_memcpy (dest src n : ℕ) (h : Heap) :
  through heapAccess (Work.memcpy dest src n) h
    = some ((), { h with mem := CString.memcpy h.mem dest src n })
  := by
  induction n with
  | zero => rfl
  | succ n ih =>
      rw [Work.memcpy, through_bind, ih]
      rfl

theorem through_memset (s : ℕ) (c : UInt8) (len : ℕ) (h : Heap) :
  through heapAccess (Work.memset s c len) h
    = some ((), { h with mem := CString.memset h.mem s c len })
  := by
  induction len with
  | zero => rfl
  | succ len ih =>
      rw [Work.memset, through_bind, ih]
      rfl

/-- The accesses of the work on the heap, made one after the other, do that work. -/
theorem through_heapWork (n : ℕ) (c : HeapCall) (h : Heap) :
  through heapAccess (heapWork n c) h = heapActs c h n
  := by
  cases c with
  | kmallocNoLock size => exact through_kmallocNoLock size n h
  | kfreeNoLock ptr => exact through_kfreeNoLock ptr n h
  | size chunk => rfl
  | memcpy dest src len => exact through_memcpy dest src len h
  | memset s c len => exact through_memset s c len h

end Kmalloc
