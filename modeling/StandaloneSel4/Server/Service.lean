import StandaloneSel4.Syscall.Perform
import Mathlib.Data.List.Pairwise

/-!
# The service

What the root server is for, to those who send to it: it hands out blocks of memory that lie apart
from each other, takes them back, and tells every client that waits what has become of its request.
Nothing is said here of heaps, registers or badges.
-/

open SeL4 Syscall

/-- When only one element satisfies a condition, the first that does is that one. -/
theorem eraseP_eq_erase {α : Type} [BEq α] [LawfulBEq α] {p : α → Bool} {l : List α} {a : α}
    (ha : p a = true) (h : ∀ b ∈ l, p b = true → b = a) :
  l.eraseP p = l.erase a
  := by
  induction l with
  | nil => rfl
  | cons b l ih =>
      obtain ⟨hb, hl⟩ := List.forall_mem_cons.mp h
      by_cases heq : b = a
      · subst heq
        rw [List.eraseP_cons_of_pos ha, List.erase_cons_head]
      · rw [List.eraseP_cons_of_neg (fun hp => heq (hb hp)),
          List.erase_cons_tail (by simpa using heq), ih hl]

namespace Service

/-- What is sent: a request, or a fault, which the kernel sends for the thread. -/
inductive Content where
  | request (t : RequestType) (r : t.Request)
  | fault (info : MessageInfo) (hlabel : info.label ≠ nullFault)

/-- The blocks that have been handed out: where each begins, and how long it is. -/
abbrev Book : Type :=
  List (ℕ × ℕ)

/-- The block begins elsewhere than those in the book, and lies apart from them. -/
def Book.Apart (book : Book) (p size : ℕ) : Prop :=
  ∀ e ∈ book, p ≠ e.1 ∧ (p + size ≤ e.1 ∨ e.1 + e.2 ≤ p)

/-- `Serves book content v book'`: with these blocks handed out, what is sent is answered by the
word `v`, or not at all, and leaves those. -/
inductive Serves : Book → Content → Option ℕ → Book → Prop where
  | kMalloc {book : Book} {size p : ℕ} :
      p ≠ 0 → p + size ≤ 2 ^ 64 → book.Apart p size →
      Serves book (.request .kMalloc (KMallocRequest.mk size)) (some p) ((p, size) :: book)
  | noMemory {book : Book} {size : ℕ} :
      Serves book (.request .kMalloc (KMallocRequest.mk size)) (some 0) book
  | kFree {book : Book} {p size : ℕ} :
      (p, size) ∈ book →
      Serves book (.request .kFree (KFreeRequest.mk p)) (some 0) (book.erase (p, size))
  | kFreeNull {book : Book} :
      Serves book (.request .kFree (KFreeRequest.mk 0)) (some 0) book
  | mMap {book : Book} {r : MMapRequest} :
      Serves book (.request .mMap r) (some 12345) book
  | thread {book : Book} {r : ThreadRequest} :
      Serves book (.request .thread r) (some 0) book
  | debug {book : Book} {r : DebugRequest} :
      Serves book (.request .debug r) none book
  | fault {book : Book} {info : MessageInfo} {hlabel : info.label ≠ nullFault} :
      Serves book (.fault info hlabel) none book

/-- `Runs letters log book`: from an empty book on, the letters of which `content` is sent are
served one after the other, the log being those that were answered, each with the word. -/
inductive Runs {Letter : Type} (content : Letter → Content) :
    List Letter → List (Letter × ℕ) → Book → Prop where
  | nil : Runs content [] [] []
  | snoc {letters : List Letter} {log : List (Letter × ℕ)} {book book' : Book} {l : Letter}
      {v : Option ℕ} :
      Runs content letters log book → Serves book (content l) v book' →
      Runs content (letters ++ [l]) (log ++ (v.map (Prod.mk l)).toList) book'

/-- The blocks begin at different places, and lie apart. -/
def Book.Disjoint (book : Book) : Prop :=
  book.Pairwise fun e e' => e.1 ≠ e'.1 ∧ (e.1 + e.2 ≤ e'.1 ∨ e'.1 + e'.2 ≤ e.1)

variable {book book' : Book} {content : Content} {v : Option ℕ}

/-- What is handed out lies apart, since only what does is handed out. -/
theorem Serves.disjoint (h : Serves book content v book') (hbook : book.Disjoint) :
  book'.Disjoint
  := by
  cases h with
  | kMalloc hp _ hapart => exact List.pairwise_cons.mpr ⟨hapart, hbook⟩
  | kFree hmem => exact hbook.sublist List.erase_sublist
  | noMemory | kFreeNull | mMap | thread | debug | fault => exact hbook

/-- In the book a block is known by where it begins. -/
theorem Book.Disjoint.eq_of_fst (h : book.Disjoint) {e e' : ℕ × ℕ} (he : e ∈ book)
    (he' : e' ∈ book) (hfst : e.1 = e'.1) :
  e = e'
  := by
  by_contra hne
  have hsymm : Std.Symm fun e e' : ℕ × ℕ =>
      e.1 ≠ e'.1 ∧ (e.1 + e.2 ≤ e'.1 ∨ e'.1 + e'.2 ≤ e.1) :=
    ⟨fun _ _ happart => ⟨happart.1.symm, happart.2.symm⟩⟩
  exact (h.forall he he' hne).1 hfst

/-- The blocks that a client was told of and has not given back, once the request is answered by
the word `w`. -/
def Book.told (lent : Book) (content : Content) (w : ℕ) : Book :=
  match content with
  | .request .kMalloc r => if w = 0 then lent else (w, KMallocRequest.size r) :: lent
  | .request .kFree r => lent.eraseP fun e => e.1 = KFreeRequest.ptr r
  | _ => lent

/-- What is served to a client that frees only what is its own concerns its blocks only, and these
are those that it was told of. -/
theorem Serves.own {lent others : Book} (h : Serves book content v book') (hbook : book.Disjoint)
    (hnull : ∀ e ∈ book, e.1 ≠ 0) (hperm : book.Perm (lent ++ others))
    (hown : ∀ p, content = .request .kFree (KFreeRequest.mk p) →
      p = 0 ∨ ∃ size, (p, size) ∈ lent) :
  ∃ lent', Serves lent content v lent' ∧ book'.Perm (lent' ++ others)
    ∧ (∀ w, v = some w → lent.told content w = lent') ∧ (v = none → lent' = lent)
  := by
  have hmem : ∀ e ∈ lent, e ∈ book := fun e he => hperm.mem_iff.mpr (List.mem_append_left _ he)
  cases h with
  | @kMalloc size p hp hfits hapart =>
      refine ⟨(p, size) :: lent, .kMalloc hp hfits (fun e he => hapart e (hmem e he)),
        hperm.cons _, ?_, nofun⟩
      intro w hw
      obtain rfl := Option.some.inj hw
      exact if_neg hp
  | noMemory => exact ⟨lent, .noMemory, hperm, fun w hw => by cases hw; rfl, nofun⟩
  | @kFree p size hin =>
      obtain ⟨size', hsize'⟩ := (hown p rfl).resolve_left (hnull _ hin)
      obtain rfl : size' = size := (Prod.mk.inj (hbook.eq_of_fst (hmem _ hsize') hin rfl)).2
      refine ⟨lent.erase (p, size'), .kFree hsize', ?_, ?_, nofun⟩
      · rw [← List.erase_append_left _ hsize']
        exact hperm.erase _
      · intro w _
        apply eraseP_eq_erase
        · exact decide_eq_true rfl
        intro e he heq
        exact hbook.eq_of_fst (hmem e he) hin (by simpa using heq)
  | kFreeNull =>
      refine ⟨lent, .kFreeNull, hperm, fun w _ => ?_, nofun⟩
      apply List.eraseP_of_forall_not
      intro e he
      simpa using hnull e (hmem e he)
  | mMap => exact ⟨lent, .mMap, hperm, fun w _ => rfl, nofun⟩
  | thread => exact ⟨lent, .thread, hperm, fun w _ => rfl, nofun⟩
  | debug => exact ⟨lent, .debug, hperm, nofun, fun _ => rfl⟩
  | fault => exact ⟨lent, .fault, hperm, nofun, fun _ => rfl⟩

/-- What is no request for memory leaves the blocks as they are. -/
theorem Serves.eq_of_other {t : RequestType} {r : t.Request}
    (h : Serves book (.request t r) v book') (hkmalloc : t ≠ .kMalloc) (hkfree : t ≠ .kFree) :
  book' = book
  := by
  cases h with
  | kMalloc | noMemory => exact absurd rfl hkmalloc
  | kFree | kFreeNull => exact absurd rfl hkfree
  | mMap | thread | debug => rfl

variable {Letter : Type} {content : Letter → Content} {letters : List Letter}
  {log : List (Letter × ℕ)}

/-- At any time the blocks that are handed out lie apart. -/
theorem Runs.disjoint (h : Runs content letters log book) :
  book.Disjoint
  := by
  induction h with
  | nil => exact List.Pairwise.nil
  | snoc _ hserves ih => exact hserves.disjoint ih

/-- Whether what is sent has an answer. -/
def Content.answered : Content → Bool
  | .request t r => (t.base r).hasResponse
  | .fault _ _ => false

theorem Serves.isSome_eq {content : Content} (h : Serves book content v book') :
  v.isSome = content.answered
  := by
  cases h <;> rfl

/-- Those who wait for an answer get one, in the order in which they have asked. -/
theorem Runs.answered (h : Runs content letters log book) :
  log.map Prod.fst = letters.filter fun l => (content l).answered
  := by
  induction h with
  | nil => rfl
  | @snoc letters log book book' l v _ hserves ih =>
      have hsome := hserves.isSome_eq
      rw [List.map_append, List.filter_append, ih]
      cases v with
      | none =>
          rw [List.filter_cons_of_neg (by rw [← hsome]; exact Bool.false_ne_true)]
          rfl
      | some w =>
          rw [List.filter_cons_of_pos (by rw [← hsome]; rfl)]
          rfl

end Service
