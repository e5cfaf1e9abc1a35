import StandaloneSel4.Heap.Integrity
import StandaloneSel4.Server.Replies

/-!
# Replies to requests for memory

Which calls of `kmalloc` and `kfree` come back is decided by the allocator. When the root server
has the heap to itself, and this is as a run of the allocator leaves it, `kmalloc` comes back for
all sizes but the few on which `chunk_count` loops for ever, and a client that asks for one of
these waits for ever.
-/

open SeL4 Prog Syscall Kmalloc Sync Fuel

variable {EntryPoint : Type}

/-- The surroundings of a root server that has the heap to itself. -/
def Surroundings.onHeap (h : Heap) (lock : BinSem) : Surroundings where
  kmalloc size := ∃ r, Returns (alone heapActs (Kmalloc.kmalloc size) h lock) r
  kfree ptr := ∃ r, Returns (alone heapActs (Kmalloc.kfree ptr) h lock) r

variable {P : ℕ → Prop} {h : Heap} {lock : BinSem} {live : List Live} {size : ℕ}

/-- In a run `kmalloc` comes back exactly when the size, with the header and wrapped around, can
be counted in chunks. -/
theorem Surroundings.onHeap_kmalloc_iff (hrun : Run P h lock live) (hsize : size < 2 ^ 64) :
  (onHeap h lock).kmalloc size ↔ Word.add size 32 ≤ 2 ^ 64 - 32
  := by
  constructor
  · rintro ⟨r, fuel, hr⟩
    rw [alone_kmalloc hrun.tracks.1] at hr
    obtain ⟨s, hs, -⟩ := Option.map_eq_some_iff.mp hr
    obtain ⟨count, hcount⟩ := chunkCount_of_kmallocNoLock ⟨fuel, hs⟩
    apply (chunkCount_returns_iff.mp hcount).1
  · intro hle
    obtain ⟨ptr, h', hret⟩ := hrun.kmalloc_returns hsize (chunkCount_returns_iff.mpr ⟨hle, rfl⟩)
    exact ⟨_, hret⟩

/-- In a run the `kfree` of a live block comes back. -/
theorem Surroundings.onHeap_kfree (hrun : Run P h lock live) {b : Live} (hb : b ∈ live) :
  (onHeap h lock).kfree (b.header + 32)
  := by
  obtain ⟨h', hret⟩ := hrun.kfree_returns hb
  exact ⟨_, hret⟩

namespace RootServer

variable {server : RootServer EntryPoint} {received : Received} {caller : SharedThread EntryPoint}
  (hcaller : server.threads.get received.sender = some caller)
  (hlabel : received.msg.info.label = nullFault)

include hcaller hlabel

/-- In a run a request for memory is answered exactly when it comes with a size, and one that can
be counted in chunks. -/
theorem kmalloc_answered_iff (hrun : Kmalloc.Run P h lock live)
    (hid : getMR 0 received.msg.mrs = ID.kMalloc.toWord)
    (hsize : getMR 1 received.msg.mrs < 2 ^ 64) :
  Answered (Surroundings.onHeap h lock) server received
    ↔ 2 ≤ received.msg.info.length ∧ Word.add (getMR 1 received.msg.mrs) 32 ≤ 2 ^ 64 - 32
  := by
  rw [← Surroundings.onHeap_kmalloc_iff hrun hsize]
  constructor
  · intro h
    have hanswerable := h.answerable hcaller hlabel
    use hanswerable.word .kMalloc (by decide) hid
    apply hanswerable.kmalloc hid
  · rintro ⟨hlen, hkmalloc⟩
    apply Answerable.answered hcaller hlabel
    constructor
    · omega
    · intro _ _ _
      apply hlen
    · intro _
      apply hkmalloc
    · intro hother
      rw [hid] at hother
      cases hother

/-- In a run a request to free a live block is answered when it comes with its pointer. -/
theorem kfree_answered (hrun : Kmalloc.Run P h lock live) {b : Live} (hb : b ∈ live)
    (hid : getMR 0 received.msg.mrs = ID.kFree.toWord)
    (hptr : getMR 1 received.msg.mrs = b.header + 32) (hlen : 2 ≤ received.msg.info.length) :
  Answered (Surroundings.onHeap h lock) server received
  := by
  apply Answerable.answered hcaller hlabel
  constructor
  · omega
  · intro _ _ _
    apply hlen
  · intro hother
    rw [hid] at hother
    cases hother
  · intro _
    rw [hptr]
    apply Surroundings.onHeap_kfree hrun hb

end RootServer
