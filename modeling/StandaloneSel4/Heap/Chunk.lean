import StandaloneSel4.Lib.Bytes
import StandaloneSel4.Word

/-!
# The chunks of the heap

A `union chunk` is 32 bytes of memory. Seen as a `struct node` it holds a `struct info`:
the pointers `prev` and `next`, the `count` of chunks in a block and the requested `size`,
eight bytes each. A field of a chunk is read and written in the bytes of the memory, so
what is written to a chunk as data and what is read from it as `struct info` are the same
bytes. Chunks that do not overlap do not see each other's fields.
-/

namespace Kmalloc

open Bytes

/-- `sizeof(struct info)`. -/
abbrev sizeofInfo : ℕ := 32

/-- `sizeof(union chunk)`. -/
abbrev sizeofChunk : ℕ := 32

/-- The fields of a `struct info`. -/
inductive Field where
  | prev
  | next
  | count
  | size
  deriving DecidableEq

/-- Where a field lies in its chunk. -/
def Field.offset : Field → ℕ
  | .prev => 0
  | .next => 8
  | .count => 16
  | .size => 24

/-- `c->node.info.f`. -/
def get (f : Field) (m : Mem) (c : ℕ) : ℕ :=
  load m (c + f.offset) 8

/-- The memory after `c->node.info.f = v`. -/
def set (f : Field) (m : Mem) (c v : ℕ) : Mem :=
  store m (c + f.offset) v 8

/-- Every field lies inside its chunk. -/
theorem Field.offset_le (f : Field) :
  f.offset + 8 ≤ 32
  := by
  cases f <;> decide

/-- Two fields of a chunk do not overlap. -/
theorem Field.offset_apart {f g : Field} (h : g ≠ f) :
  f.offset + 8 ≤ g.offset ∨ g.offset + 8 ≤ f.offset
  := by
  cases f <;> cases g <;> first | decide | exact absurd rfl h

/-- The chunks at `c` and `d` do not overlap. -/
def Apart (c d : ℕ) : Prop :=
  c + 32 ≤ d ∨ d + 32 ≤ c

theorem get_lt (f : Field) (m : Mem) (c : ℕ) :
  get f m c < 2 ^ 64
  := by
  have h := load_lt m (c + f.offset) 8
  simpa [get] using h

/-- The fields of a chunk depend on its 32 bytes only. -/
theorem get_congr {m m' : Mem} {c : ℕ} (h : ∀ b, c ≤ b → b < c + 32 → m b = m' b)
    (f : Field) :
  get f m c = get f m' c
  := by
  have hf := f.offset_le
  apply load_congr
  intro b hb hb'
  apply h b (by omega) (by omega)

/-- A field that was set holds what it was set to. -/
theorem get_set_self (f : Field) (m : Mem) (c : ℕ) {v : ℕ} (hv : v < 2 ^ 64) :
  get f (set f m c v) c = v
  := by
  rw [get, set, load_store, Nat.mod_eq_of_lt (by simpa using hv)]

/-- The other fields of the chunk keep what they hold. -/
theorem get_set_of_ne {f g : Field} (h : g ≠ f) (m : Mem) (c v : ℕ) :
  get g (set f m c v) c = get g m c
  := by
  have hfg := Field.offset_apart h
  apply load_store_of_apart
  omega

/-- The fields of a chunk apart keep what they hold. -/
theorem get_set_of_apart {c d : ℕ} (h : Apart c d) (f g : Field) (m : Mem) (v : ℕ) :
  get g (set f m c v) d = get g m d
  := by
  have hf := f.offset_le
  have hg := g.offset_le
  apply load_store_of_apart
  rcases h with h | h <;> omega

/-- Setting a field to what it holds changes nothing. -/
theorem set_get_self (f : Field) (m : Mem) (c : ℕ) :
  set f m c (get f m c) = m
  := store_load_self m (c + f.offset) 8

/-- Setting a field again leaves nothing of what it was set to first. -/
theorem set_set_self (f : Field) (m : Mem) (c v w : ℕ) :
  set f (set f m c v) c w = set f m c w
  := store_store_self m (c + f.offset) v w 8

/-- Bytes outside the chunk keep what they hold. -/
theorem set_of_outside {c b : ℕ} (h : b < c ∨ c + 32 ≤ b) (f : Field) (m : Mem)
    (v : ℕ) :
  set f m c v b = m b
  := by
  have hf := f.offset_le
  apply store_of_outside
  omega

end Kmalloc
