import StandaloneSel4.Lib.Prog
import StandaloneSel4.Word
import Mathlib.Data.Int.Notation

/-!
# Strings

A C string is known by the bytes from its pointer to the end of the object that this points
into; reading past that end fails. A string owns a block of the heap with a copy of the text it
was made from, and keeps a size, which is not looked at when the text is copied.
-/

open Prog

namespace CString

/-- `strlen`. There is no result when the loop runs past the end of the object. -/
def strlen : List UInt8 → Option ℕ
  | [] => none
  | c :: s => if c = 0 then some 0 else (strlen s).map (· + 1)

/-- The length of a text before the byte that terminates it. -/
theorem strlen_append {text : List UInt8} (h : ∀ c ∈ text, c ≠ 0) (rest : List UInt8) :
  strlen (text ++ 0 :: rest) = some text.length
  := by
  induction text with
  | nil => rfl
  | cons c text ih =>
      obtain ⟨hc, htext⟩ := List.forall_mem_cons.mp h
      rw [List.cons_append, strlen, if_neg hc, ih htext]
      rfl

theorem ne_zero_of_not_mem {text : List UInt8} (h : 0 ∉ text) :
  ∀ c ∈ text, c ≠ 0
  := by
  intro c hc heq
  apply h
  rwa [← heq]

/-- The loop ends when a byte is zero. -/
theorem exists_strlen {s : List UInt8} (h : 0 ∈ s) :
  ∃ n, strlen s = some n
  := by
  induction s with
  | nil => cases h
  | cons c s ih =>
      unfold strlen
      by_cases hc : c = 0
      · exact ⟨0, if_pos hc⟩
      · obtain ⟨n, hn⟩ := ih ((List.mem_cons.mp h).resolve_left (Ne.symm hc))
        exact ⟨n + 1, by rw [if_neg hc, hn, Option.map_some]⟩

end CString

/-- `string`: the pointer `_data`, the bytes of the block at it, and `_size`. -/
structure BasicString where
  data : ℕ
  bytes : List UInt8
  size : ℕ
  deriving DecidableEq

/-- What the console calls. -/
inductive ConsoleCall where
  | kmalloc (size : ℕ)
  | kfree (ptr : ℕ)
  /-- `Shell::newCommand`. -/
  | newCommand (cmd : BasicString)
  deriving DecidableEq

/-- The calls, with what they return. -/
abbrev ConsoleSig : Signature where
  Call := ConsoleCall
  Answer
    | .kmalloc _ => ℕ
    | .kfree _ => Unit
    | .newCommand _ => ℤ

/-- A program of the console. -/
abbrev Console (α : Type) : Type :=
  Prog ConsoleSig α

/-- The program that makes a call. -/
def invoke (c : ConsoleCall) : Console (ConsoleSig.Answer c) :=
  perform (S := ConsoleSig) c

/-- `strdup`: the pointer to the copy, and the bytes of its block. -/
def CString.strdup (s : List UInt8) : Console (ℕ × List UInt8) :=
  match strlen s with
  | none => .fail
  | some n => do
      let newS ← invoke (.kmalloc (n + 1))
      if newS = 0 then return (0, [])
      else return (newS, s.take (n + 1))

namespace BasicString

/-- The constructor from a text and a size. -/
def new (data : List UInt8) (size : ℕ) : Console BasicString := do
  let (data, bytes) ← CString.strdup data
  return ⟨data, bytes, size⟩

/-- The string that is made once the block for its text has been asked for. -/
def made (newS : ℕ) (text : List UInt8) (size : ℕ) : BasicString :=
  if newS = 0 then ⟨0, [], size⟩ else ⟨newS, text, size⟩

/-- A text that is terminated is copied with the byte that terminates it. -/
theorem new_eq {data : List UInt8} {n : ℕ} (h : CString.strlen data = some n) (size : ℕ) :
  new data size = .call (.kmalloc (n + 1)) fun newS => .ret (made newS (data.take (n + 1)) size)
  := by
  have hstrdup : CString.strdup data = .call (.kmalloc (n + 1)) fun (newS : ℕ) =>
      if newS = 0 then .ret (0, []) else .ret (newS, data.take (n + 1)) := by
    unfold CString.strdup
    rw [h]
    rfl
  rw [new, hstrdup, call_bind]
  congr 1
  funext (newS : ℕ)
  unfold made
  split <;> rfl

/-- The destructor. -/
def delete (s : BasicString) : Console Unit :=
  invoke (.kfree s.data)

/-- The text at `c_str()`, without the byte that terminates it. -/
def c_str (s : BasicString) : List UInt8 :=
  s.bytes.takeWhile (· ≠ 0)

/-- The text of a string that owns a copy of it. -/
theorem c_str_made {newS : ℕ} {text : List UInt8} (hnew : newS ≠ 0) (htext : ∀ c ∈ text, c ≠ 0)
    (rest : List UInt8) (size : ℕ) :
  (made newS ((text ++ 0 :: rest).take (text.length + 1)) size).c_str = text
  := by
  have htake : (text ++ 0 :: rest).take (text.length + 1) = text ++ [0] := by
    rw [List.take_length_add_append]
    rfl
  rw [made, if_neg hnew, c_str, htake, List.takeWhile_append_of_pos]
  · simp
  · intro c hc
    simpa using htext c hc

/-- `npos`. -/
def npos : ℕ := 2 ^ 64 - 1

/-- `substr`. -/
def substr (s : BasicString) (pos count : ℕ) : Console BasicString :=
  if count = npos then new (s.bytes.drop pos) (Word.sub s.size pos)
  else new (s.bytes.drop pos) (Word.sub (Word.sub s.size count) pos)

/-- The loop of `starts_with` from `sSize` on, with what is left of the argument. -/
def startsWithFrom (str : BasicString) : List UInt8 → ℕ → Option Bool
  | [], _ => none
  | c :: s, sSize =>
      if c = 0 then some true
      else if str.size < sSize then some false
      else do
        let b ← str.bytes[sSize]?
        if c ≠ b then return false
        else startsWithFrom str s (sSize + 1)

/-- `starts_with`. There is no result when a byte outside the texts is read. -/
def startsWith (str : BasicString) (s : List UInt8) : Option Bool :=
  startsWithFrom str s 0

/-- The loop of `operator==` from `i` on, for so many rounds. -/
def eqFrom (lhs rhs : List UInt8) (i : ℕ) : ℕ → Option Bool
  | 0 => some true
  | n + 1 => do
      let a ← lhs[i]?
      let b ← rhs[i]?
      if a ≠ b then return false
      else eqFrom lhs rhs (i + 1) n

/-- `operator==` of a string and a text. -/
def eqText (lhs : BasicString) (rhs : List UInt8) : Option Bool := do
  let rhsSize ← CString.strlen rhs
  if lhs.size ≠ rhsSize then return false
  else eqFrom lhs.bytes rhs 0 lhs.size

/-! ### Strings of a text -/

/-- The string is that of the text: it owns a copy of it, terminated, and its size is right. -/
structure Holds (s : BasicString) (text : List UInt8) : Prop where
  bytes : s.bytes = text ++ [0]
  size : s.size = text.length
  ne_zero : ∀ c ∈ text, c ≠ 0
  length_lt : text.length < 2 ^ 64

variable {s : BasicString} {text pre lit : List UInt8} {pos i : ℕ}

/-- The size that `substr` gives the part. -/
def substrSize (size pos count : ℕ) : ℕ :=
  if count = npos then Word.sub size pos else Word.sub (Word.sub size count) pos

/-- The rest of the text from a position on is copied, whatever the count. -/
theorem Holds.substr_eq (h : Holds s text) (hpos : pos ≤ text.length) (count : ℕ) :
  s.substr pos count = .call (.kmalloc (text.length - pos + 1)) fun newS =>
    .ret (made newS (text.drop pos ++ [0]) (substrSize s.size pos count))
  := by
  have hdrop : s.bytes.drop pos = text.drop pos ++ [0] := by
    rw [h.bytes, List.drop_append_of_le_length hpos]
  have hn : CString.strlen (s.bytes.drop pos) = some (text.length - pos) := by
    rw [hdrop, ← List.length_drop]
    apply CString.strlen_append
    intro c hc
    apply h.ne_zero c (List.mem_of_mem_drop hc)
  have htake : (text.drop pos ++ [0]).take (text.length - pos + 1) = text.drop pos ++ [0] := by
    apply List.take_of_length_le
    simp
  unfold BasicString.substr substrSize
  split <;> rw [new_eq hn, hdrop, htake]

/-- Without a count the part has the size of the rest. -/
theorem Holds.substr (h : Holds s text) (hpos : pos ≤ text.length) :
  s.substr pos npos = .call (.kmalloc (text.length - pos + 1)) fun newS =>
    .ret (made newS (text.drop pos ++ [0]) (text.length - pos))
  := by
  have hsize : substrSize s.size pos npos = text.length - pos := by
    rw [substrSize, if_pos rfl, h.size]
    apply Word.sub_of_le h.length_lt hpos
  rw [h.substr_eq hpos, hsize]

/-- A copy of the text from behind its end reads past the block. -/
theorem Holds.substr_past (h : Holds s text) (hpos : text.length < pos) :
  s.substr pos npos = .fail
  := by
  have hdrop : s.bytes.drop pos = [] := by
    apply List.drop_eq_nil_of_le
    rw [h.bytes, List.length_append, List.length_singleton]
    apply hpos
  rw [BasicString.substr, if_pos rfl, hdrop]
  rfl

/-- The part is a text as well. -/
theorem Holds.made (h : Holds s text) {newS : ℕ} (hnew : newS ≠ 0) (pos : ℕ) :
  Holds (made newS (text.drop pos ++ [0]) (text.length - pos)) (text.drop pos)
  := by
  rw [BasicString.made, if_neg hnew]
  constructor
  · rfl
  · rw [List.length_drop]
  · intro c hc
    apply h.ne_zero c (List.mem_of_mem_drop hc)
  · rw [List.length_drop]
    apply Nat.lt_of_le_of_lt (Nat.sub_le _ _) h.length_lt

/-- What is left of the argument is compared with what is left of the text. As long as both agree
the text has not come to its end, so that the test of the size does not matter. -/
theorem startsWithFrom_eq {s rest behind behind' : List UInt8} {str : BasicString}
    (hbytes : str.bytes.drop i = rest ++ 0 :: behind) (hsize : str.size = i + rest.length)
    (hs : ∀ c ∈ s, c ≠ 0) (hrest : ∀ c ∈ rest, c ≠ 0) :
  startsWithFrom str (s ++ 0 :: behind') i = some (s.isPrefixOf rest)
  := by
  induction s generalizing i rest with
  | nil => rfl
  | cons c s ih =>
      obtain ⟨hc, hs⟩ := List.forall_mem_cons.mp hs
      have hget : str.bytes[i]? = (rest ++ 0 :: behind)[0]? := by
        rw [← hbytes, List.getElem?_drop, Nat.add_zero]
      rw [List.cons_append, startsWithFrom, if_neg hc, if_neg (by omega), hget]
      cases rest with
      | nil =>
          change (if c ≠ 0 then some false else _) = _
          rw [if_pos hc]
          rfl
      | cons b rest =>
          obtain ⟨-, hrest⟩ := List.forall_mem_cons.mp hrest
          change (if c ≠ b then some false else _) = _
          by_cases hcb : c = b
          · have hdrop : str.bytes.drop (i + 1) = rest ++ 0 :: behind := by
              rw [← List.drop_drop, hbytes]
              rfl
            have hlen : str.size = i + 1 + rest.length := by
              rw [hsize, List.length_cons]
              omega
            rw [if_neg (not_not_intro hcb), ih hdrop hlen hs hrest]
            simp [List.isPrefixOf, hcb]
          · rw [if_pos hcb]
            simp [List.isPrefixOf, hcb]

/-- `starts_with` on a text tests for a prefix. -/
theorem Holds.startsWith (h : Holds s text) (hpre : ∀ c ∈ pre, c ≠ 0) :
  s.startsWith (pre ++ [0]) = some (pre.isPrefixOf text)
  := by
  apply startsWithFrom_eq
  · rw [List.drop_zero, h.bytes]
  · rw [h.size, Nat.zero_add]
  · apply hpre
  · apply h.ne_zero

/-- What is left of two texts of the same length is compared. -/
theorem eqFrom_eq {l r rest rest' : List UInt8} {n : ℕ} (hl : l.drop i = rest ++ [0])
    (hr : r.drop i = rest' ++ [0]) (hn : rest.length = n) (hn' : rest'.length = n) :
  eqFrom l r i n = some (decide (rest = rest'))
  := by
  induction n generalizing i rest rest' with
  | zero =>
      obtain rfl := List.length_eq_zero_iff.mp hn
      obtain rfl := List.length_eq_zero_iff.mp hn'
      rfl
  | succ n ih =>
      obtain ⟨a, rest, rfl⟩ := List.exists_cons_of_length_eq_add_one hn
      obtain ⟨b, rest', rfl⟩ := List.exists_cons_of_length_eq_add_one hn'
      have hgetl : l[i]? = some a := by
        rw [← Nat.add_zero i, ← List.getElem?_drop, hl]
        rfl
      have hgetr : r[i]? = some b := by
        rw [← Nat.add_zero i, ← List.getElem?_drop, hr]
        rfl
      rw [eqFrom, hgetl, hgetr]
      change (if a ≠ b then some false else _) = _
      by_cases hab : a = b
      · have hdropl : l.drop (i + 1) = rest ++ [0] := by
          rw [← List.drop_drop, hl]
          rfl
        have hdropr : r.drop (i + 1) = rest' ++ [0] := by
          rw [← List.drop_drop, hr]
          rfl
        rw [if_neg (not_not_intro hab), ih hdropl hdropr (Nat.succ.inj hn) (Nat.succ.inj hn')]
        simp [hab]
      · rw [if_pos hab]
        simp [hab]

/-- `operator==` of a string and a text compares the texts. -/
theorem Holds.eqText (h : Holds s text) (hlit : ∀ c ∈ lit, c ≠ 0) :
  s.eqText (lit ++ [0]) = some (decide (text = lit))
  := by
  rw [BasicString.eqText, CString.strlen_append hlit, h.size]
  change (if text.length ≠ lit.length then some false else _) = _
  by_cases hlen : text.length = lit.length
  · rw [if_neg (not_not_intro hlen)]
    apply eqFrom_eq
    · rw [List.drop_zero, h.bytes]
    · apply List.drop_zero
    · rfl
    · apply hlen.symm
  · rw [if_pos hlen]
    have hne : text ≠ lit := fun heq => hlen (congrArg List.length heq)
    simp [hne]

end BasicString
