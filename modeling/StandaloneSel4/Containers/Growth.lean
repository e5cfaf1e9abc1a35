import StandaloneSel4.Containers.Vector

/-!
# Growth of vectors

A vector that was constructed by default grows first to ten elements, and then to twice as many as
it has. As long as no growth asks for so many bytes that their number wraps around, and memory is
granted, it is never written outside its block, and it is the list of what was pushed since it was
last cleared, unless an element of the vector itself was pushed when it grew: that one is read from
the block it was in, which `krealloc` may have freed.
-/

open Prog

namespace Containers

namespace Vector

/-- The next `push_back` enlarges the block. -/
def Grows (v : Vector) : Prop :=
  v.data = 0 ∨ v.reservation ≤ v.size

instance (v : Vector) : Decidable v.Grows :=
  inferInstanceAs (Decidable (_ ∨ _))

/-- The number of elements that it asks to have room for. -/
def grown (v : Vector) : ℕ :=
  if v.reservation = 0 then 10 else v.size * 2

end Vector

variable {α : Type} {sizeof room i : ℕ} {m m' m₀ : Store α} {v v' : Vector} {l : List α} {x : α}
  {tr tr' : List (Event (ElementSig α))} {value : Reference α} {op : Op α} {ops : List (Op α)}

/-- If the operation enlarges the block, the number of bytes it asks for does not wrap around. -/
def Fits (sizeof : ℕ) : Op α → Vector → Prop
  | .clear, _ => True
  | .pushBack _, v | .pushBackMove _, v => v.Grows → v.grown * sizeof < 2 ^ 64

/-- If what is referred to is an element, the vector has it, and its block is not replaced before it
is read. -/
def Reference.Lasts : Reference α → Vector → Prop
  | .value _, _ => True
  | .element i, v => i < v.size ∧ ¬ v.Grows

/-- So it is with what the operation is given. -/
def Op.Lasts : Op α → Vector → Prop
  | .clear, _ => True
  | .pushBack value, v | .pushBackMove value, v => value.Lasts v

/-! ### Within the room -/

theorem capacity_append (sizeof room : ℕ) (tr tr' : List (Event (ElementSig α))) :
  capacity sizeof room (tr ++ tr') = capacity sizeof (capacity sizeof room tr) tr'
  := List.foldl_append

/-- Calls are within the room exactly if the first ones are, and the others within the room they
leave. -/
theorem writesWithin_append :
  WritesWithin sizeof room (tr ++ tr')
    ↔ WritesWithin sizeof room tr ∧ WritesWithin sizeof (capacity sizeof room tr) tr'
  := by
  induction tr generalizing room with
  | nil => exact (and_iff_right trivial).symm
  | cons e tr ih =>
      rw [List.cons_append, WritesWithin, WritesWithin, ih, and_assoc]
      rfl

/-- The calls only read elements. -/
def Reads (tr : List (Event (ElementSig α))) : Prop :=
  ∀ e ∈ tr, ∃ data i, e.call = .read data i

/-- Such calls are within any room, and leave it as it is. -/
theorem Reads.writesWithin (h : Reads tr) (sizeof room : ℕ) :
  WritesWithin sizeof room tr ∧ capacity sizeof room tr = room
  := by
  induction tr generalizing room with
  | nil => exact ⟨trivial, rfl⟩
  | cons e tr ih =>
      obtain ⟨⟨data, i, hread⟩, hreads⟩ := List.forall_mem_cons.mp h
      have hroom : roomAfter sizeof room e = room := by rw [roomAfter, hread]
      obtain ⟨hwithin, hcapacity⟩ := ih hreads room
      rw [WritesWithin, capacity, List.foldl_cons, hroom]
      refine ⟨⟨?_, hwithin⟩, hcapacity⟩
      intro data' i' x hwrite
      rw [hread] at hwrite
      cases hwrite

/-- What is referred to is read, and the heap stays as it is. -/
theorem load_reads (sizeof : ℕ) (m : Store α) (v : Vector) (value : Reference α) :
  (v.load value).wpIn (heap sizeof) m fun tr o m' => m' = m ∧ Reads tr ∧ ∃ x, o = some x
  := by
  cases value with
  | value x => exact ⟨rfl, nofun, x, rfl⟩
  | element i =>
      rintro x m' ⟨hm', -⟩
      exact ⟨hm', List.forall_mem_singleton.mpr ⟨_, i, rfl⟩, x, rfl⟩

/-! ### A vector that holds a list -/

/-- The vector holds the list: there is nothing yet, or its block has the room that was asked for,
and the elements of the list. -/
structure Holds (sizeof : ℕ) (m : Store α) (room : ℕ) (v : Vector) (l : List α) : Prop where
  size : v.size = l.length
  le : l.length ≤ v.reservation
  fits : v.reservation * sizeof < 2 ^ 64
  null : v.data = 0 → v.reservation = 0
  block : v.data ≠ 0 → 0 < v.reservation ∧ room = v.reservation ∧
    ∃ b, m v.data = some b ∧ b.bytes = v.reservation * sizeof ∧
      ∀ i x, l[i]? = some x → b.cells i = x

theorem Holds.new (sizeof : ℕ) (m : Store α) (room : ℕ) :
  Holds sizeof m room Vector.new []
  := by
  constructor
  · rfl
  · apply Nat.le_refl
  · rw [Vector.new, Nat.zero_mul]
    decide
  · intro _
    rfl
  · intro h
    exact absurd rfl h

/-- There is a block as soon as there is an element. -/
theorem Holds.data_ne_zero (h : Holds sizeof m room v l) (hl : 0 < l.length) :
  v.data ≠ 0
  := by
  intro hnull
  have hle := h.le
  have hzero := h.null hnull
  omega

/-- In a block for so many elements there is room for each of them. -/
theorem room_of_lt {b : Block α} {n : ℕ} (hbytes : b.bytes = n * sizeof) (hi : i < n) :
  b.Room sizeof i
  := by
  rw [Block.Room, hbytes]
  apply Nat.mul_le_mul_right sizeof hi

/-- A vector with room for an element more is not enlarged. -/
theorem doRealloc_of_room (h : ¬ v.Grows) :
  (v.doRealloc sizeof : VectorProg α Vector) = .ret v
  := if_neg h

/-- One without asks for the room it reserves. -/
theorem doRealloc_of_grows (h : v.Grows) :
  (v.doRealloc sizeof : VectorProg α Vector)
    = .call (.krealloc v.data (Word.mul v.nextReservation sizeof)) fun data =>
        .ret ⟨v.size, v.nextReservation, data⟩
  := if_pos h

/-- As long as nothing wraps around it asks for the room it grows to. -/
theorem nextReservation_of_fits (hsizeof : 0 < sizeof) (hfits : v.grown * sizeof < 2 ^ 64) :
  v.nextReservation = v.grown ∧ Word.mul v.nextReservation sizeof = v.grown * sizeof
  := by
  have hle : v.grown ≤ v.grown * sizeof := Nat.le_mul_of_pos_right _ hsizeof
  have hgrown : v.nextReservation = v.grown := by
    unfold Vector.grown at hle hfits ⊢
    unfold Vector.nextReservation
    split
    · rfl
    · rename_i hne
      rw [if_neg hne] at hle hfits
      apply Word.mul_of_lt (Nat.lt_of_le_of_lt hle hfits)
  rw [hgrown]
  exact ⟨rfl, Word.mul_of_lt hfits⟩

theorem append_of_room (h : ¬ v.Grows) :
  v.append sizeof value = v.load value >>= fun x =>
    .call (.write v.data v.size x) fun _ => .ret { v with size := Word.add v.size 1 }
  := by
  rw [Vector.append, doRealloc_of_room h]
  rfl

theorem append_of_grows (h : v.Grows) :
  v.append sizeof value = .call (.krealloc v.data (Word.mul v.nextReservation sizeof)) fun data =>
    v.load value >>= fun x =>
      .call (.write data v.size x) fun _ => .ret ⟨Word.add v.size 1, v.nextReservation, data⟩
  := by
  rw [Vector.append, doRealloc_of_grows h]
  rfl

/-- It grows to more elements than it has, if it holds a list. -/
theorem Holds.lt_grown (h : Holds sizeof m room v l) (hgrows : v.Grows) :
  l.length < v.grown
  := by
  have hsize := h.size
  have hle := h.le
  unfold Vector.grown
  split
  · omega
  · rename_i hne
    have hdata : v.data ≠ 0 := fun hnull => hne (h.null hnull)
    have hpos := (h.block hdata).1
    rcases hgrows with hnull | hfull
    · exact absurd hnull hdata
    · omega

/-- The block for an element more than there is room for is granted, and the elements are kept. -/
theorem Holds.doRealloc (hsizeof : 0 < sizeof) (h : Holds sizeof m room v l)
    (hfits : v.Grows → v.grown * sizeof < 2 ^ 64) :
  (v.doRealloc sizeof).wpIn (heap sizeof) m fun tr o m' =>
    (∀ e ∈ tr, Granted e) → WritesWithin sizeof room tr ∧
      ∃ v', o = some v' ∧ Holds sizeof m' (capacity sizeof room tr) v' l
        ∧ l.length < v'.reservation ∧ v'.data ≠ 0 ∧ (v.Grows ∨ v' = v)
  := by
  by_cases hgrows : v.Grows
  · obtain ⟨hnext, hsize⟩ := nextReservation_of_fits hsizeof (hfits hgrows)
    rw [doRealloc_of_grows hgrows, hsize, hnext]
    intro (p : ℕ) m' hanswer hgranted
    have hp : p ≠ 0 := hgranted _ List.mem_cons_self
    have hlt := h.lt_grown hgrows
    have hptr : v.data = 0 ∨ (m v.data).isSome := by
      by_cases hdata : v.data = 0
      · exact .inl hdata
      · obtain ⟨-, -, b, hb, -⟩ := h.block hdata
        exact .inr (by rw [hb]; rfl)
    obtain ⟨b', hb', hbytes, hkept⟩ :=
      ((hanswer.resolve_left fun hnull => hp hnull.1).2 hptr).block
    have hcapacity : v.grown * sizeof / sizeof = v.grown := Nat.mul_div_cancel _ hsizeof
    refine ⟨⟨nofun, trivial⟩, _, rfl, ?_, hlt, hp, .inl hgrows⟩
    constructor
    · exact h.size
    · exact Nat.le_of_lt hlt
    · exact hfits hgrows
    · exact fun hnull => absurd hnull hp
    · intro _
      refine ⟨Nat.zero_lt_of_lt hlt, hcapacity, b', hb', hbytes, ?_⟩
      intro i x hx
      have hi : i < l.length := (List.getElem?_eq_some_iff.mp hx).1
      have hle := h.le
      obtain ⟨-, -, b, hb, hold, hcells⟩ := h.block (h.data_ne_zero (Nat.zero_lt_of_lt hi))
      rw [hkept b hb i (room_of_lt hold (by omega)) (room_of_lt hbytes (by omega))]
      apply hcells i x hx
  · rw [doRealloc_of_room hgrows]
    intro _
    unfold Vector.Grows at hgrows
    rw [not_or, Nat.not_le, h.size] at hgrows
    exact ⟨trivial, v, rfl, h, hgrows.2, hgrows.1, .inr rfl⟩

/-- What is reserved afterwards. -/
theorem doRealloc_reservation {W : World (ElementSig α) (Store α)} (sizeof : ℕ) (m : Store α)
    (v : Vector) :
  (v.doRealloc sizeof).wpIn W m fun _ o _ =>
    ∀ v', o = some v' → v'.reservation = if v.Grows then v.nextReservation else v.reservation
  := by
  by_cases hgrows : v.Grows
  · rw [doRealloc_of_grows hgrows, if_pos hgrows]
    intro p m' _ v' heq
    obtain rfl := Option.some.inj heq
    rfl
  · rw [doRealloc_of_room hgrows, if_neg hgrows]
    intro v' heq
    rw [Option.some.inj heq]

/-- An assignment within the reservation changes that element only. -/
theorem Holds.assign (h : Holds sizeof m room v l) (hdata : v.data ≠ 0) (hi : i < v.reservation)
    (hanswer : heap sizeof m (.write v.data i x) () m') :
  ∃ b, m' v.data = some b ∧ b.bytes = v.reservation * sizeof ∧ b.cells i = x
    ∧ ∀ j y, j ≠ i → l[j]? = some y → b.cells j = y
  := by
  obtain ⟨-, -, b, hb, hbytes, hcells⟩ := h.block hdata
  have hm' := hanswer b hb (room_of_lt hbytes hi)
  refine ⟨b.set i x, ?_, hbytes, Block.cells_set_self b i x, ?_⟩
  · rw [hm', Function.update_self]
  · intro j y hj hy
    rw [Block.cells_set_of_ne hj]
    apply hcells j y hy

/-- An element that is written behind the others is held as the last one. -/
theorem Holds.write (hsizeof : 0 < sizeof) (h : Holds sizeof m room v l)
    (hlt : l.length < v.reservation) (hdata : v.data ≠ 0)
    (hanswer : heap sizeof m (.write v.data v.size x) () m') :
  Holds sizeof m' room { v with size := Word.add v.size 1 } (l ++ [x])
  := by
  obtain ⟨hpos, hroom, -⟩ := h.block hdata
  have hsize := h.size
  obtain ⟨b, hb, hbytes, hself, hothers⟩ := h.assign hdata (by rwa [hsize]) hanswer
  have hadd : Word.add v.size 1 = v.size + 1 := by
    have hfits := h.fits
    have hmul : v.reservation ≤ v.reservation * sizeof := Nat.le_mul_of_pos_right _ hsizeof
    apply Word.add_of_lt
    omega
  constructor
  · rw [hadd, hsize, List.length_append, List.length_singleton]
  · rw [List.length_append, List.length_singleton]
    apply hlt
  · exact h.fits
  · exact h.null
  · intro _
    refine ⟨hpos, hroom, b, hb, hbytes, ?_⟩
    intro i y hy
    rcases Nat.lt_or_ge i l.length with hi | hi
    · rw [List.getElem?_append_left hi] at hy
      apply hothers i y (by omega) hy
    · have hindex : i = l.length := by
        have hbound := (List.getElem?_eq_some_iff.mp hy).1
        rw [List.length_append, List.length_singleton] at hbound
        omega
      subst hindex
      rw [List.getElem?_append_right (Nat.le_refl _), Nat.sub_self] at hy
      rw [← hsize, hself]
      exact Option.some.inj hy

/-- An operation that is not `clear` is a `push_back`, in one of its forms. -/
theorem Op.eq_clear_or_append (sizeof : ℕ) (op : Op α) :
  op = .clear ∨ op ≠ .clear ∧ ∃ value, op.run sizeof = Vector.append sizeof value
  := by
  cases op with
  | pushBack value => exact .inr ⟨nofun, value, rfl⟩
  | pushBackMove value => exact .inr ⟨nofun, value, rfl⟩
  | clear => exact .inl rfl

/-- What is referred to is the value, or that element of the list. -/
theorem Holds.load (h : Holds sizeof m room v l) (hlasts : value.Lasts v) :
  (v.load value).wpIn (heap sizeof) m fun _ o _ => o = value.ofList l
  := by
  cases value with
  | value x => rfl
  | element i =>
      have hi : i < l.length := by
        rw [← h.size]
        exact hlasts.1
      obtain ⟨-, -, b, hb, hbytes, hcells⟩ := h.block (h.data_ne_zero (Nat.zero_lt_of_lt hi))
      have hroom := room_of_lt hbytes (Nat.lt_of_lt_of_le hi h.le)
      rintro x m' ⟨-, hread⟩
      change some x = l[i]?
      rw [hread b hb hroom, hcells i _ (List.getElem?_eq_getElem hi), List.getElem?_eq_getElem hi]

/-- `push_back` puts an element behind the others, the one it refers to if that lasts. -/
theorem Holds.append (hsizeof : 0 < sizeof) (h : Holds sizeof m room v l)
    (hfits : v.Grows → v.grown * sizeof < 2 ^ 64) (value : Reference α) :
  (v.append sizeof value).wpIn (heap sizeof) m fun tr o m' =>
    (∀ e ∈ tr, Granted e) → WritesWithin sizeof room tr ∧
      ∃ v' x, o = some v' ∧ Holds sizeof m' (capacity sizeof room tr) v' (l ++ [x])
        ∧ (value.Lasts v → value.ofList l = some x)
  := by
  apply wpIn_bind
  apply wpIn_mono (h.doRealloc hsizeof hfits)
  intro tr o m₁ ho
  cases o with
  | none =>
      intro hgranted
      obtain ⟨-, v', hv', -⟩ := ho hgranted
      cases hv'
  | some v' =>
      apply wpIn_bind
      rw [wpIn_iff]
      intro tr' o' m₂ hload
      obtain ⟨rfl, hreads, x, rfl⟩ := wpIn_iff.mp (load_reads sizeof m₁ v value) _ _ _ hload
      intro _ m₃ hanswer hgranted
      obtain ⟨hgranted, -⟩ := List.forall_mem_append.mp hgranted
      obtain ⟨hwithin, v', ⟨⟩, hholds, hlt, hdata, hsame⟩ := ho hgranted
      have hroom := (hholds.block hdata).2.1
      obtain ⟨hwithin', hcapacity⟩ := hreads.writesWithin sizeof (capacity sizeof room tr)
      constructor
      · refine writesWithin_append.mpr ⟨hwithin, writesWithin_append.mpr ⟨hwithin', ?_, trivial⟩⟩
        rintro data i y heq
        obtain ⟨-, rfl, -⟩ := ElementCall.write.inj heq
        rw [hcapacity, hroom, hholds.size]
        exact hlt
      · rw [capacity_append, capacity_append, hcapacity]
        refine ⟨_, x, rfl, hholds.write hsizeof hlt hdata hanswer, ?_⟩
        intro hlasts
        cases value with
        | value y =>
            cases hload
            rfl
        | element i =>
            obtain rfl := hsame.resolve_left hlasts.2
            exact (wpIn_iff.mp (hholds.load hlasts) _ _ _ hload).symm

/-- An operation leaves a vector that holds a list, the one that it makes of a list if what it is
given lasts. -/
theorem Holds.run (hsizeof : 0 < sizeof) (h : Holds sizeof m room v l) (hfits : Fits sizeof op v) :
  (op.run sizeof v).wpIn (heap sizeof) m fun tr o m' =>
    (∀ e ∈ tr, Granted e) → WritesWithin sizeof room tr ∧
      ∃ v' l', o = some v' ∧ Holds sizeof m' (capacity sizeof room tr) v' l'
        ∧ (op.Lasts v → l' = op.onList l)
  := by
  have hpush : ∀ value : Reference α, (v.Grows → v.grown * sizeof < 2 ^ 64) →
      (v.append sizeof value).wpIn (heap sizeof) m fun tr o m' =>
        (∀ e ∈ tr, Granted e) → WritesWithin sizeof room tr ∧
          ∃ v' l', o = some v' ∧ Holds sizeof m' (capacity sizeof room tr) v' l'
            ∧ (value.Lasts v → l' = l ++ (value.ofList l).toList) := by
    intro value hfits
    apply wpIn_mono (h.append hsizeof hfits value)
    intro tr o m' ho hgranted
    obtain ⟨hwithin, v', x, hv', hholds, hx⟩ := ho hgranted
    refine ⟨hwithin, v', _, hv', hholds, fun hlasts => ?_⟩
    rw [hx hlasts]
    rfl
  cases op with
  | pushBack value => apply hpush value hfits
  | pushBackMove value => apply hpush value hfits
  | clear =>
      intro _
      refine ⟨trivial, _, [], rfl, ?_, fun _ => rfl⟩
      constructor
      · rfl
      · apply Nat.zero_le
      · exact h.fits
      · exact h.null
      · intro hdata
        obtain ⟨hpos, hroom, b, hb, hbytes, -⟩ := h.block hdata
        exact ⟨hpos, hroom, b, hb, hbytes, nofun⟩

/-- So does a run of operations. -/
theorem Run.holds {C : Op α → Vector → Prop} (hC : ∀ op v, C op v → Fits sizeof op v)
    (hsizeof : 0 < sizeof) (h : Holds sizeof m₀ room v []) {v' : Vector}
    (hrun : Run sizeof C v m₀ ops tr v' m) (hgranted : ∀ e ∈ tr, Granted e) :
  WritesWithin sizeof room tr ∧ ∃ l, Holds sizeof m (capacity sizeof room tr) v' l
    ∧ ((∀ op v, C op v → op.Lasts v) → l = contents ops)
  := by
  induction hrun with
  | nil => exact ⟨trivial, [], h, fun _ => rfl⟩
  | op op _ hcond hruns ih =>
      obtain ⟨hgranted, hgranted'⟩ := List.forall_mem_append.mp hgranted
      obtain ⟨hwithin, l, hholds, hl⟩ := ih hgranted
      obtain ⟨hwithin', v', l', ⟨⟩, hholds', hl'⟩ :=
        wpIn_iff.mp (hholds.run hsizeof (hC _ _ hcond)) _ _ _ hruns hgranted'
      rw [writesWithin_append, capacity_append]
      refine ⟨⟨hwithin, hwithin'⟩, l', hholds', fun hlasts => ?_⟩
      rw [hl' (hlasts _ _ hcond), hl hlasts, contents, contents, List.foldl_append]
      rfl

/-! ### Runs -/

/-- The heap after `realloc` has moved a block to a free address. -/
def moved (ptr size p : ℕ) (fresh : ℕ → α) (m : Store α) : Store α :=
  Function.update (Function.update m ptr none) p
    (some ⟨size, (m ptr).elim fresh Block.cells⟩)

/-- It may be there. -/
theorem heap_moved {ptr size p : ℕ} {fresh : ℕ → α} (hp : p ≠ 0) (hfree : m p = none) :
  heap sizeof m (.krealloc ptr size) p (moved ptr size p fresh m)
  := by
  refine .inr ⟨hp, fun _ => ?_⟩
  constructor
  · exact .inr hfree
  · intro hne
    rw [moved, Function.update_of_ne (Ne.symm hne), Function.update_self]
  · intro q hptr hq
    rw [moved, Function.update_of_ne hq, Function.update_of_ne hptr]
  · refine ⟨_, by rw [moved, Function.update_self], rfl, ?_⟩
    intro b hb i _ _
    rw [hb]
    rfl

/-- Something is read. -/
theorem exists_heap_read (sizeof : ℕ) (m : Store α) (data i : ℕ) (fresh : α) :
  ∃ x, heap sizeof m (.read data i) x m
  := by
  cases hb : m data with
  | none =>
      refine ⟨fresh, rfl, fun b hb' => ?_⟩
      rw [hb] at hb'
      cases hb'
  | some b =>
      refine ⟨b.cells i, rfl, fun b' hb' _ => ?_⟩
      rw [hb] at hb'
      rw [Option.some.inj hb']

/-- The heap after a write that does no harm outside the block. -/
def written (m : Store α) (data i : ℕ) (x : α) : Store α :=
  Function.update m data ((m data).map fun b => b.set i x)

/-- It may be that. -/
theorem heap_written (sizeof : ℕ) (m : Store α) (data i : ℕ) (x : α) :
  heap sizeof m (.write data i x) () (written m data i x)
  := by
  intro b hb _
  rw [written, hb, Option.map_some]

/-- Something is the heap after a write. -/
theorem exists_heap_write (sizeof : ℕ) (m : Store α) (data i : ℕ) (x : α) :
  ∃ m', heap sizeof m (.write data i x) () m'
  := ⟨_, heap_written sizeof m data i x⟩

/-- A `push_back` that does not enlarge the block reads what it refers to and writes it. -/
theorem runs_append_of_room (hgrows : ¬ v.Grows)
    (hload : Runs (heap sizeof) m (v.load value) tr (some x) m) :
  Runs (heap sizeof) m (v.append sizeof value) (tr ++ [⟨.write v.data v.size x, ()⟩])
    (some { v with size := Word.add v.size 1 }) (written m v.data v.size x)
  := by
  rw [append_of_room hgrows]
  exact Runs.bind hload (Runs.call (heap_written sizeof m v.data v.size x) (Runs.ret _ _))

/-- One that does may have the block moved to an address that is free. -/
theorem runs_append_of_grows (hgrows : v.Grows) {p : ℕ} (hp : p ≠ 0) (hfree : m p = none)
    (hm' : m' = moved v.data (Word.mul v.nextReservation sizeof) p (fun _ => x) m)
    (hload : Runs (heap sizeof) m' (v.load value) tr (some x) m') :
  Runs (heap sizeof) m (v.append sizeof value)
    (⟨.krealloc v.data (Word.mul v.nextReservation sizeof), p⟩
      :: (tr ++ [⟨.write p v.size x, ()⟩]))
    (some ⟨Word.add v.size 1, v.nextReservation, p⟩) (written m' p v.size x)
  := by
  rw [append_of_grows hgrows]
  subst hm'
  apply Runs.call (heap_moved hp hfree)
  exact Runs.bind hload (Runs.call (heap_written sizeof _ p v.size x) (Runs.ret _ _))

/-! ### What is read -/

/-- The program returns the value and leaves the heap as it is. -/
def Yields {β : Type} (sizeof : ℕ) (m : Store α) (p : VectorProg α β) (b : β) : Prop :=
  p.wpIn (heap sizeof) m fun _ o m' => o = some b ∧ m' = m

/-- What can be observed of the vector is what can be observed of the list. -/
structure IsList (sizeof : ℕ) (m : Store α) (v : Vector) (l : List α) : Prop where
  size : v.size = l.length
  empty : v.empty = l.isEmpty
  get : ∀ i x, l[i]? = some x → Yields sizeof m (v.get i) x
  front : ∀ x, l.head? = some x → Yields sizeof m v.front x
  back : ∀ x, l.getLast? = some x → Yields sizeof m v.back x
  elements : Yields sizeof m v.elements l

theorem Holds.get (h : Holds sizeof m room v l) (hx : l[i]? = some x) :
  Yields sizeof m (v.get i) x
  := by
  have hi : i < l.length := (List.getElem?_eq_some_iff.mp hx).1
  obtain ⟨-, -, b, hb, hbytes, hcells⟩ := h.block (h.data_ne_zero (Nat.zero_lt_of_lt hi))
  have hle := h.le
  intro y m' hanswer
  obtain ⟨hm', hread⟩ := hanswer
  have hy : y = x := by
    rw [hread b hb (room_of_lt hbytes (by omega))]
    apply hcells i x hx
  exact ⟨congrArg some hy, hm'⟩

/-- From any position on the elements are met in order. -/
theorem Holds.elementsFrom (h : Holds sizeof m room v l) {n : ℕ} (hlen : i + n = l.length) :
  Yields sizeof m (v.elementsFrom i n) (l.drop i)
  := by
  induction n generalizing i with
  | zero =>
      rw [List.drop_eq_nil_of_le (by omega)]
      exact ⟨rfl, rfl⟩
  | succ n ih =>
      have hi : i < l.length := by omega
      rw [List.drop_eq_getElem_cons hi]
      apply wpIn_bind
      apply wpIn_mono (h.get (List.getElem?_eq_getElem hi))
      rintro tr o m' ⟨rfl, rfl⟩
      apply wpIn_bind
      apply wpIn_mono (ih (i := i + 1) (by omega))
      rintro tr' o m' ⟨rfl, rfl⟩
      exact ⟨rfl, rfl⟩

theorem Holds.observed (hsizeof : 0 < sizeof) (h : Holds sizeof m room v l) :
  IsList sizeof m v l
  := by
  have hsize := h.size
  have hlen : l.length < 2 ^ 64 := by
    have hmul : v.reservation ≤ v.reservation * sizeof := Nat.le_mul_of_pos_right _ hsizeof
    apply Nat.lt_of_le_of_lt (Nat.le_trans h.le hmul) h.fits
  constructor
  · exact hsize
  · rw [Vector.empty, hsize]
    cases l <;> rfl
  · intro i x hx
    apply h.get hx
  · intro x hx
    apply h.get
    rw [← hx, List.head?_eq_getElem?]
  · intro x hx
    apply h.get
    rw [List.getLast?_eq_getElem?] at hx
    have hlt := (List.getElem?_eq_some_iff.mp hx).1
    rw [hsize, Word.sub_of_le hlen (by omega), hx]
  · rw [Vector.elements, hsize]
    have helements := h.elementsFrom (Nat.zero_add l.length)
    rwa [List.drop_zero] at helements

/-- The steps of a run meet any weaker condition. -/
theorem Run.mono {C C' : Op α → Vector → Prop} (hC : ∀ op v, C op v → C' op v) {v₀ : Vector}
    (hrun : Run sizeof C v₀ m₀ ops tr v m) :
  Run sizeof C' v₀ m₀ ops tr v m
  := by
  induction hrun with
  | nil => exact Run.nil
  | op op _ hcond hruns ih => exact Run.op op ih (hC _ _ hcond) hruns

/-- A run in which all memory was granted ends here. -/
def Reaches (sizeof : ℕ) (ops : List (Op α)) (v : Vector) (m : Store α) : Prop :=
  ∃ tr, Run sizeof (fun op v => Fits sizeof op v ∧ op.Lasts v) Vector.new (fun _ => none) ops tr v m
    ∧ ∀ e ∈ tr, Granted e

theorem Reaches.new (sizeof : ℕ) :
  Reaches sizeof [] Vector.new fun _ => (none : Option (Block α))
  := ⟨[], Run.nil, nofun⟩

/-- It goes on with an operation for which all memory is granted. -/
theorem Reaches.step (op : Op α) (h : Reaches sizeof ops v m) (hfits : Fits sizeof op v)
    (hlasts : op.Lasts v) (hruns : Runs (heap sizeof) m (op.run sizeof v) tr (some v') m')
    (hgranted : ∀ e ∈ tr, Granted e) :
  Reaches sizeof (ops ++ [op]) v' m'
  := by
  obtain ⟨tr₀, hrun, hgranted₀⟩ := h
  exact ⟨tr₀ ++ tr, Run.op op hrun ⟨hfits, hlasts⟩ hruns,
    List.forall_mem_append.mpr ⟨hgranted₀, hgranted⟩⟩

/-- Values for which there is room can be pushed one after the other, and no other block changes. -/
theorem Reaches.fill {k n p : ℕ} (hp : p ≠ 0) (hn : n < 2 ^ 64)
    (h : Reaches sizeof ops ⟨k, n, p⟩ m) (xs : List α) (hlen : k + xs.length ≤ n) :
  ∃ m', Reaches sizeof (ops ++ xs.map fun x => .pushBack (.value x)) ⟨k + xs.length, n, p⟩ m'
    ∧ ∀ q, q ≠ p → m' q = m q
  := by
  induction xs generalizing k ops m with
  | nil =>
      rw [List.map_nil, List.append_nil]
      exact ⟨m, h, fun _ _ => rfl⟩
  | cons x xs ih =>
      rw [List.length_cons] at hlen
      have hgrows : ¬ (⟨k, n, p⟩ : Vector).Grows := by
        rintro (hnull | hfull)
        · exact hp hnull
        · have hle : n ≤ k := hfull
          omega
      have hload : Runs (heap sizeof) m ((⟨k, n, p⟩ : Vector).load (.value x)) [] (some x) m :=
        Runs.ret m x
      have hruns := runs_append_of_room hgrows hload
      have hadd : Word.add k 1 = k + 1 := Word.add_of_lt (by omega)
      rw [show (⟨k, n, p⟩ : Vector).size = k from rfl, hadd] at hruns
      have hpushed := h.step (.pushBack (.value x)) (fun hgrows' => absurd hgrows' hgrows)
        trivial hruns (List.forall_mem_singleton.mpr trivial)
      obtain ⟨m', hreaches, hothers⟩ := ih hpushed (by omega)
      rw [List.append_assoc, Nat.add_right_comm, Nat.add_assoc] at hreaches
      refine ⟨m', hreaches, fun q hq => ?_⟩
      rw [hothers q hq, written, Function.update_of_ne hq]

/-- A value for which there is no room is pushed behind the others in a block at a free address. -/
theorem Reaches.grow (op : Op α) (hop : op.run sizeof = Vector.append sizeof (.value x))
    (h : Reaches sizeof ops v m) (hgrows : v.Grows) (hfits : Fits sizeof op v)
    (hlasts : op.Lasts v) {p : ℕ} (hp : p ≠ 0) (hfree : m p = none) :
  ∃ m', Reaches sizeof (ops ++ [op]) ⟨Word.add v.size 1, v.nextReservation, p⟩ m'
    ∧ ∀ q, q ≠ v.data → q ≠ p → m' q = m q
  := by
  have hload : ∀ m : Store α, Runs (heap sizeof) m (v.load (.value x)) [] (some x) m :=
    fun m => Runs.ret m x
  have hruns := runs_append_of_grows hgrows hp hfree rfl (hload _)
  rw [← hop] at hruns
  refine ⟨_, h.step op hfits hlasts hruns ?_, fun q hdata hq => ?_⟩
  · exact List.forall_mem_cons.mpr ⟨hp, List.forall_mem_singleton.mpr trivial⟩
  · rw [written, Function.update_of_ne hq, moved, Function.update_of_ne hq,
      Function.update_of_ne hdata]

/-- An element is pushed again where there is room for it. -/
theorem Reaches.again [Inhabited α] (h : Reaches sizeof ops v m) (hgrows : ¬ v.Grows)
    (hi : i < v.size) :
  ∃ m', Reaches sizeof (ops ++ [.pushBack (.element i)]) { v with size := Word.add v.size 1 } m'
  := by
  obtain ⟨x, hread⟩ := exists_heap_read sizeof m v.data i default
  have hload : Runs (heap sizeof) m (v.load (.element i)) [⟨.read v.data i, x⟩] (some x) m :=
    Runs.call hread (Runs.ret m x)
  refine ⟨_, h.step (.pushBack (.element i)) (fun hgrows' => absurd hgrows' hgrows) ⟨hi, hgrows⟩
    (runs_append_of_room hgrows hload) ?_⟩
  exact List.forall_mem_cons.mpr ⟨trivial, List.forall_mem_singleton.mpr trivial⟩

/-- Ten values are pushed one after the other. -/
def tenValues : List (Op ℕ) :=
  (List.range 10).map fun n => .pushBack (.value n)

/-- They fill the first block. -/
theorem exists_reaches_ten :
  ∃ m, Reaches 4 tenValues ⟨10, 10, 64⟩ m ∧ m 128 = none
  := by
  obtain ⟨m, hone, hothers⟩ := Reaches.grow (p := 64) (.pushBack (.value 0)) rfl (Reaches.new 4)
    (.inl rfl) (fun _ => by decide) trivial (by decide) rfl
  obtain ⟨m', hten, hothers'⟩ := Reaches.fill (k := 1) (n := 10) (by decide) (by decide) hone
    [1, 2, 3, 4, 5, 6, 7, 8, 9] (by decide)
  refine ⟨m', hten, ?_⟩
  rw [hothers' 128 (by decide), hothers 128 (by decide) (by decide)]

/-- They are pushed, and pushed again after a `clear`, then another one and the fourth of them. -/
def twelveElements : List (Op ℕ) :=
  tenValues ++ [.clear] ++ tenValues ++ [.pushBackMove (.value 10)] ++ [.pushBack (.element 3)]

theorem exists_reaches_twelve :
  ∃ v m, Reaches 4 twelveElements v m
  := by
  obtain ⟨m, hten, hfree⟩ := exists_reaches_ten
  have hcleared : Reaches 4 _ ⟨0, 10, 64⟩ m :=
    hten.step .clear trivial trivial (Runs.ret m _) nofun
  obtain ⟨m₁, hfull, hothers⟩ :=
    hcleared.fill (by decide) (by decide) (List.range 10) (by decide)
  rw [← hothers 128 (by decide)] at hfree
  obtain ⟨m₂, heleven, -⟩ := hfull.grow (.pushBackMove (.value 10)) rfl (.inr (Nat.le_refl 10))
    (fun _ => by decide) trivial (by decide) hfree
  obtain ⟨m₃, htwelve⟩ := heleven.again (i := 3) (by decide) (by decide)
  exact ⟨_, m₃, htwelve⟩

/-- With elements of 2^61 bytes the number of bytes for ten of them wraps around, and the block has
room for two. The third one is written outside it. -/
theorem Run.not_writesWithin :
  ∃ tr v m, Run (2 ^ 61) (fun op v => op.Lasts v) Vector.new (fun _ => none)
      [.pushBack (.value 0), .pushBack (.value 1), .pushBack (.value 2)] tr v m
    ∧ (∀ e ∈ tr, Granted e) ∧ ¬ WritesWithin (2 ^ 61) 0 tr
  := by
  have hload : ∀ (m : Store ℕ) (v : Vector) (x : ℕ),
      Runs (heap (2 ^ 61)) m (v.load (.value x)) [] (some x) m := fun m _ x => Runs.ret m x
  have h₁ := runs_append_of_grows (v := Vector.new) (m := fun _ => none) (p := 64) (.inl rfl)
    (by decide) rfl rfl (hload _ _ 0)
  have h₂ := fun m => runs_append_of_room (v := ⟨1, 10, 64⟩) (by decide) (hload m _ 1)
  have h₃ := fun m => runs_append_of_room (v := ⟨2, 10, 64⟩) (by decide) (hload m _ 2)
  refine ⟨_, _, _, Run.op (.pushBack (.value 2)) (Run.op (.pushBack (.value 1))
    (Run.op (.pushBack (.value 0)) Run.nil trivial h₁) trivial (h₂ _)) trivial (h₃ _), ?_, ?_⟩
  · exact List.forall_mem_cons.mpr ⟨Nat.succ_ne_zero 63, List.forall_mem_cons.mpr ⟨trivial,
      List.forall_mem_cons.mpr ⟨trivial, List.forall_mem_cons.mpr ⟨trivial, nofun⟩⟩⟩⟩
  · intro hwithin
    have hlt : 2 < Word.mul 10 (2 ^ 61) / 2 ^ 61 := hwithin.2.2.2.1 _ _ _ rfl
    exact absurd hlt (by decide)

end Containers
