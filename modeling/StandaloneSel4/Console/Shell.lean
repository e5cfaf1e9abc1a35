import StandaloneSel4.Console.BasicString
import StandaloneSel4.Console.Editor
import Mathlib.Data.List.Forall2

/-!
# The shell

The shell keeps the line that is typed in a buffer of fixed size, and at Enter passes it on to
`newCommand` as a string. What becomes of it there is not looked into. An access outside the
buffer fails, as an assertion does. As long as there is room, what is passed on is what a line
editor dispatches; a line that fills the buffer is lost.
-/

open Prog LineEditor

namespace Shell

/-- `BufferSize`. -/
def bufferSize : ℕ := 256

end Shell

/-- The fields of `Shell` that `onChar` uses, once the buffer has been allocated. -/
structure Shell where
  buffer : Vector UInt8 Shell.bufferSize
  bufferIndex : ℕ

namespace Shell

/-- The assignment `buffer[i] = c`. -/
def assign (i : ℕ) (c : UInt8) (buffer : Vector UInt8 bufferSize) :
    Console (Vector UInt8 bufferSize) :=
  if h : i < bufferSize then return buffer.set i c h else .fail

/-- The shell with an empty line, its buffer filled with zeros. -/
def cleared : Shell where
  buffer := Vector.replicate bufferSize 0
  bufferIndex := 0

/-- `init`. -/
def init : Console Shell := do
  let buffer ← invoke (.kmalloc bufferSize)
  assert (buffer ≠ 0)
  return cleared

/-- What `onChar` does at Enter with the text in the buffer. -/
def dispatch (buffer : Vector UInt8 bufferSize) (bufferIndex : ℕ) : Console Unit :=
  match CString.strlen buffer.toList with
  | none => .fail
  | some n =>
      if 0 < n then do
        let str ← BasicString.new buffer.toList bufferIndex
        let _ ← invoke (.newCommand str)
        str.delete
      else return ()

/-- `onChar`. -/
def onChar (c : UInt8) (shell : Shell) : Console Shell :=
  if c = 0x0D then do
    let buffer ← assign shell.bufferIndex 0 shell.buffer
    dispatch buffer shell.bufferIndex
    return cleared
  else if c = 0x7F then
    if 0 < shell.bufferIndex then
      return { shell with bufferIndex := shell.bufferIndex - 1 }
    else return shell
  else do
    assert (shell.bufferIndex + 1 < bufferSize)
    let buffer ← assign shell.bufferIndex c shell.buffer
    let buffer ← assign (shell.bufferIndex + 1) 0 buffer
    let bufferIndex := shell.bufferIndex + 1
    if bufferSize - 1 ≤ bufferIndex then return ⟨buffer, 0⟩
    else return ⟨buffer, bufferIndex⟩

/-- The loop of the com1 thread on the bytes it reads that are not zero. -/
def feed : List UInt8 → Shell → Console Shell
  | [], shell => return shell
  | c :: cs, shell => do
      let shell ← onChar c shell
      feed cs shell

/-- The key that a byte stands for. -/
def key (c : UInt8) : Key UInt8 :=
  if c = 0x0D then .enter
  else if c = 0x7F then .erase
  else .insert c

/-- The strings passed to `newCommand`. -/
def commands (tr : List (Event ConsoleSig)) : List BasicString :=
  tr.filterMap fun e =>
    match e with
    | ⟨.newCommand cmd, _⟩ => some cmd
    | _ => none

/-- An allocation succeeds. -/
def Allocated : Event ConsoleSig → Prop
  | ⟨.kmalloc _, ptr⟩ => ptr ≠ 0
  | _ => True

/-- The string is that of the line. -/
structure Carries (cmd : BasicString) (line : List UInt8) : Prop where
  size : cmd.size = line.length
  c_str : cmd.c_str = line

/-- The shell shows the pending line: its bytes are in the buffer before the index. -/
structure Shows (shell : Shell) (line : List UInt8) : Prop where
  index : shell.bufferIndex = line.length
  buffer : line <+: shell.buffer.toList
  text : ∀ c ∈ line, c ≠ 0

variable {shell shell' : Shell} {line : List UInt8} {c : UInt8} {cs : List UInt8}
  {tr : List (Event ConsoleSig)} {o : Outcome Shell}

/-! ### The buffer -/

theorem assign_of_lt {i : ℕ} (h : i < bufferSize) (buffer : Vector UInt8 bufferSize) :
  assign i c buffer = .ret (buffer.set i c h)
  := dif_pos h

/-- What is at the beginning stays there when a byte after it is assigned to. -/
theorem prefix_set {l : List UInt8} {i : ℕ} (h : line <+: l) (hi : line.length ≤ i) (c : UInt8) :
  line <+: l.set i c
  := by
  obtain ⟨rest, rfl⟩ := h
  rw [List.set_append_right _ _ hi]
  apply List.prefix_append

/-- It is extended when the byte right after it is assigned to. -/
theorem append_prefix_set {l : List UInt8} (h : line <+: l) (hlen : line.length < l.length)
    (c : UInt8) :
  line ++ [c] <+: l.set line.length c
  := by
  obtain ⟨rest, rfl⟩ := h
  cases rest with
  | nil => simp at hlen
  | cons b rest =>
      rw [List.set_append_right _ _ (Nat.le_refl _), Nat.sub_self, List.set_cons_zero]
      exact ⟨rest, by simp⟩

/-- The shell after a character that fits into the buffer. -/
def typed (c : UInt8) (shell : Shell) (h : shell.bufferIndex + 1 < bufferSize) : Shell where
  buffer := (shell.buffer.set shell.bufferIndex c (Nat.lt_of_succ_lt h)).set
    (shell.bufferIndex + 1) 0 h
  bufferIndex := shell.bufferIndex + 1

theorem Shows.typed (h : Shows shell line) (hc : c ≠ 0)
    (hlt : shell.bufferIndex + 1 < bufferSize) :
  Shows (shell.typed c hlt) (line ++ [c])
  := by
  constructor
  · rw [List.length_append, List.length_singleton]
    apply congrArg (· + 1) h.index
  · simp only [Shell.typed, Vector.toList_set]
    apply prefix_set
    · rw [h.index]
      apply append_prefix_set h.buffer
      rw [Vector.length_toList, ← h.index]
      omega
    · rw [List.length_append, List.length_singleton, h.index]
  · intro b hb
    rw [List.mem_append, List.mem_singleton] at hb
    rcases hb with hb | rfl
    · apply h.text b hb
    · apply hc

theorem Shows.erased (h : Shows shell line) :
  Shows { shell with bufferIndex := shell.bufferIndex - 1 } line.dropLast
  := by
  constructor
  · rw [List.length_dropLast]
    apply congrArg (· - 1) h.index
  · apply (List.dropLast_prefix line).trans h.buffer
  · intro b hb
    apply h.text b (List.mem_of_mem_dropLast hb)

theorem cleared_shows :
  Shows cleared []
  := by
  constructor
  · rfl
  · apply List.nil_prefix
  · nofun

/-- The text that is terminated at the index is the pending line. -/
theorem Shows.terminated (h : Shows shell line) (hlt : shell.bufferIndex < bufferSize) :
  ∃ rest, (shell.buffer.set shell.bufferIndex 0 hlt).toList = line ++ 0 :: rest
  := by
  have hprefix : line ++ [0] <+: shell.buffer.toList.set line.length 0 := by
    apply append_prefix_set h.buffer
    rw [Vector.length_toList, ← h.index]
    apply hlt
  obtain ⟨rest, hrest⟩ := hprefix
  use rest
  rw [Vector.toList_set, h.index, ← hrest, List.append_assoc, List.singleton_append]

/-! ### One character -/

/-- What `dispatch` does with a text. -/
theorem dispatch_text {buffer : Vector UInt8 bufferSize} {n : ℕ}
    (hn : CString.strlen buffer.toList = some n) (hpos : 0 < n) (i : ℕ) :
  dispatch buffer i = .call (.kmalloc (n + 1)) fun newS =>
    let str := BasicString.made newS (buffer.toList.take (n + 1)) i
    .call (.newCommand str) fun _ => .call (.kfree str.data) fun _ => .ret ()
  := by
  simp only [dispatch, hn, if_pos hpos, BasicString.new_eq hn]
  rfl

theorem dispatch_nothing {buffer : Vector UInt8 bufferSize}
    (hn : CString.strlen buffer.toList = some 0) (i : ℕ) :
  dispatch buffer i = .ret ()
  := by
  simp only [dispatch, hn]
  rfl

theorem onChar_enter (h : shell.bufferIndex < bufferSize) :
  onChar 0x0D shell = dispatch (shell.buffer.set shell.bufferIndex 0 h) shell.bufferIndex
    >>= fun _ => .ret cleared
  := by
  rw [onChar, if_pos rfl, assign_of_lt h, ret_bind]
  rfl

theorem onChar_erase :
  onChar 0x7F shell = .ret { shell with bufferIndex := shell.bufferIndex - 1 }
  := by
  rw [onChar, if_neg (by decide), if_pos rfl]
  split
  · rfl
  · have hzero : shell.bufferIndex - 1 = shell.bufferIndex := by omega
    rw [hzero]
    rfl

theorem onChar_insert (henter : c ≠ 0x0D) (herase : c ≠ 0x7F)
    (h : shell.bufferIndex + 1 < bufferSize) :
  onChar c shell = .ret
    (if bufferSize - 1 ≤ shell.bufferIndex + 1 then { typed c shell h with bufferIndex := 0 }
      else typed c shell h)
  := by
  rw [onChar, if_neg henter, if_neg herase, assert_true_bind h,
    assign_of_lt (Nat.lt_of_succ_lt h), ret_bind, assign_of_lt h, ret_bind]
  dsimp only
  split <;> rfl

/-- What is so of an outcome: it is no failure, and there is room in the buffer for a character and
for the byte that terminates the text. -/
def Keeps : Outcome Shell → Prop
  | .ret shell => shell.bufferIndex ≤ bufferSize - 2
  | .fail => False
  | .running => True

/-- Dispatching a text that is terminated does not fail. -/
theorem dispatch_wp {buffer : Vector UInt8 bufferSize} (h : 0 ∈ buffer.toList) (i : ℕ) :
  (dispatch buffer i).wp fun _ o => o ≠ .fail
  := by
  obtain ⟨n, hn⟩ := CString.exists_strlen h
  cases n with
  | zero =>
      rw [dispatch_nothing hn]
      exact ⟨nofun, nofun⟩
  | succ n =>
      rw [dispatch_text hn (Nat.succ_pos n)]
      simp [wp_call]

/-- The buffer has room after any byte. -/
theorem onChar_wp (h : shell.bufferIndex ≤ bufferSize - 2) (c : UInt8) :
  (onChar c shell).wp fun _ o => Keeps o
  := by
  have hroom : shell.bufferIndex + 1 < bufferSize := by
    unfold bufferSize at h ⊢
    omega
  by_cases henter : c = 0x0D
  · subst henter
    rw [onChar_enter (by omega)]
    apply wp_bind
    have hzero : 0 ∈ (shell.buffer.set shell.bufferIndex 0 (by omega)).toList := by
      rw [Vector.toList_set]
      apply List.mem_set
      rw [Vector.length_toList]
      omega
    apply wp_mono (dispatch_wp hzero _)
    intro tr o ho
    cases o with
    | ret a => exact ⟨Nat.zero_le _, trivial⟩
    | fail => exact absurd rfl ho
    | running => trivial
  · by_cases herase : c = 0x7F
    · subst herase
      rw [onChar_erase]
      exact ⟨(Nat.sub_le _ _).trans h, trivial⟩
    · rw [onChar_insert henter herase hroom]
      refine ⟨?_, trivial⟩
      change Shell.bufferIndex _ ≤ _
      split
      · apply Nat.zero_le _
      · apply Nat.le_of_lt_succ (Nat.not_le.mp ‹_›)

/-- It has room after any bytes. -/
theorem feed_wp (h : shell.bufferIndex ≤ bufferSize - 2) (cs : List UInt8) :
  (feed cs shell).wp fun _ o => Keeps o
  := by
  induction cs generalizing shell with
  | nil => exact ⟨h, trivial⟩
  | cons c cs ih =>
      apply wp_bind
      apply wp_mono (onChar_wp h c)
      intro tr o ho
      cases o with
      | ret shell => apply ih ho
      | fail => apply ho
      | running => trivial

/-! ### What is passed on -/

theorem commands_append (tr tr' : List (Event ConsoleSig)) :
  commands (tr ++ tr') = commands tr ++ commands tr'
  := List.filterMap_append

/-- At Enter the pending line is passed on, if it is not empty. -/
theorem dispatch_carries (h : Shows shell line) (hlt : shell.bufferIndex < bufferSize)
    (hexec : Exec (dispatch (shell.buffer.set shell.bufferIndex 0 hlt) shell.bufferIndex) tr
      (.ret ()))
    (halloc : ∀ e ∈ tr, Allocated e) :
  List.Forall₂ Carries (commands tr) (dispatched line .enter)
  := by
  obtain ⟨rest, htext⟩ := h.terminated hlt
  have hn := CString.strlen_append h.text rest
  rw [← htext] at hn
  cases line with
  | nil =>
      rw [dispatch_nothing hn] at hexec
      obtain ⟨rfl, -⟩ := hexec.ret_inv
      apply List.Forall₂.nil
  | cons b line =>
      rw [dispatch_text hn (Nat.succ_pos _), htext] at hexec
      obtain ⟨newS, tr₁, rfl, hcommand⟩ := hexec.call_inv
      obtain ⟨r, tr₂, rfl, hdelete⟩ := hcommand.call_inv
      obtain ⟨_, tr₃, rfl, hret⟩ := hdelete.call_inv
      obtain ⟨rfl, -⟩ := hret.ret_inv
      have hnew : newS ≠ 0 := halloc _ List.mem_cons_self
      refine List.Forall₂.cons ⟨?_, ?_⟩ List.Forall₂.nil
      · rw [BasicString.made, if_neg hnew]
        apply h.index
      · apply BasicString.c_str_made hnew h.text

/-- A byte does to what is shown, and passes on, what its key does in a line editor. -/
theorem onChar_refines (h : Shows shell line) (hc : c ≠ 0)
    (hline : line.length < bufferSize - 1) (hstep : (step line (key c)).length < bufferSize - 1)
    (hexec : Exec (onChar c shell) tr (.ret shell')) (halloc : ∀ e ∈ tr, Allocated e) :
  Shows shell' (step line (key c)) ∧ List.Forall₂ Carries (commands tr) (dispatched line (key c))
  := by
  have hroom : shell.bufferIndex + 1 < bufferSize := by
    rw [h.index]
    omega
  by_cases henter : c = 0x0D
  · subst henter
    rw [onChar_enter (by omega)] at hexec
    obtain ⟨tr₁, _, tr₂, hdispatch, hret, rfl⟩ := hexec.bind_ret
    obtain ⟨rfl, hcleared⟩ := hret.ret_inv
    obtain rfl : shell' = cleared := by simpa using hcleared
    rw [List.append_nil] at halloc ⊢
    exact ⟨cleared_shows, dispatch_carries h (by omega) hdispatch halloc⟩
  · by_cases herase : c = 0x7F
    · subst herase
      rw [onChar_erase] at hexec
      obtain ⟨rfl, herased⟩ := hexec.ret_inv
      obtain rfl : shell' = { shell with bufferIndex := shell.bufferIndex - 1 } := by
        simpa using herased
      exact ⟨h.erased, List.Forall₂.nil⟩
    · rw [onChar_insert henter herase hroom] at hexec
      obtain ⟨rfl, htyped⟩ := hexec.ret_inv
      have hkey : key c = .insert c := by
        rw [key, if_neg henter, if_neg herase]
      rw [hkey] at hstep ⊢
      have hfits : ¬ bufferSize - 1 ≤ shell.bufferIndex + 1 := by
        rw [step, List.length_append, List.length_singleton] at hstep
        rw [h.index]
        omega
      rw [if_neg hfits] at htyped
      obtain rfl : shell' = typed c shell hroom := by simpa using htyped
      exact ⟨h.typed hc hroom, List.Forall₂.nil⟩

/-- Bytes pass on the lines that their keys dispatch in a line editor. -/
theorem feed_refines (h : Shows shell line) (hcs : ∀ c ∈ cs, c ≠ 0)
    (hbelow : Below (bufferSize - 1) line (cs.map key))
    (hexec : Exec (feed cs shell) tr (.ret shell')) (halloc : ∀ e ∈ tr, Allocated e) :
  List.Forall₂ Carries (commands tr) (lines line (cs.map key))
  := by
  induction cs generalizing shell line tr with
  | nil =>
      obtain ⟨rfl, -⟩ := hexec.ret_inv
      apply List.Forall₂.nil
  | cons c cs ih =>
      obtain ⟨hc, hcs⟩ := List.forall_mem_cons.mp hcs
      obtain ⟨tr₁, shell₁, tr₂, hchar, hfeed, rfl⟩ := hexec.bind_ret
      obtain ⟨halloc₁, halloc₂⟩ := List.forall_mem_append.mp halloc
      obtain ⟨hshows, hcommands⟩ := onChar_refines h hc hbelow.length_lt hbelow.step.length_lt
        hchar halloc₁
      rw [commands_append]
      apply List.rel_append hcommands
      apply ih hshows hcs hbelow.step hfeed halloc₂

/-- The console never fails an assertion nor leaves the buffer, and between the bytes its index
leaves room for two more. If fewer than `bufferSize - 1` characters are ever pending, it passes on
what a line editor dispatches. -/
theorem line_editor (hcs : ∀ c ∈ cs, c ≠ 0) (hexec : Exec (init >>= feed cs) tr o)
    (halloc : ∀ e ∈ tr, Allocated e) :
  o ≠ .fail ∧ ∀ shell, o = .ret shell → shell.bufferIndex ≤ bufferSize - 2
    ∧ (Below (bufferSize - 1) [] (cs.map key) →
        List.Forall₂ Carries (commands tr) (lines [] (cs.map key)))
  := by
  have hinit : (init >>= feed cs) = .call (.kmalloc bufferSize) fun (buffer : ℕ) =>
      (assert (buffer ≠ 0) >>= fun _ => .ret cleared) >>= feed cs := rfl
  rw [hinit] at hexec
  cases hexec with
  | stop => exact ⟨nofun, nofun⟩
  | call _ _ buffer hexec =>
      obtain ⟨hbuffer, halloc⟩ := List.forall_mem_cons.mp halloc
      have hbuffer : buffer ≠ (0 : ℕ) := hbuffer
      dsimp only at hexec
      rw [assert_true_bind hbuffer, ret_bind] at hexec
      have hkeeps := wp_iff.mp (feed_wp (Nat.zero_le _) cs) _ _ hexec
      constructor
      · rintro rfl
        apply hkeeps
      · rintro shell rfl
        refine ⟨hkeeps, fun hbelow => ?_⟩
        have hrefines := feed_refines cleared_shows hcs hbelow hexec halloc
        apply hrefines

/-- Answers under which every allocation succeeds. -/
def allocating : Oracle ConsoleSig
  | _, .kmalloc _ => (64 : ℕ)
  | _, .kfree _ => ()
  | _, .newCommand _ => (0 : ℤ)

theorem allocated_of_allocating {α : Type} (past : List (Event ConsoleSig)) (p : Console α) :
  ∀ e ∈ (observe allocating past p).1, Allocated e
  := by
  induction p generalizing past with
  | ret a => nofun
  | fail => nofun
  | call c k ih =>
      rw [observe]
      apply List.forall_mem_cons.mpr ⟨?_, ih _ _⟩
      cases c with
      | kmalloc size => apply Nat.succ_ne_zero 63
      | kfree ptr => trivial
      | newCommand cmd => trivial

/-- An `a` that is typed, erased, typed again and entered is passed on. -/
theorem line_editor_a :
  ∃ tr shell, Exec (init >>= feed [0x61, 0x7F, 0x61, 0x0D]) tr (.ret shell)
    ∧ List.Forall₂ Carries (commands tr) [[0x61]]
  := by
  have hexec := exec_observe allocating [] (init >>= feed [0x61, 0x7F, 0x61, 0x0D])
  have halloc := allocated_of_allocating [] (init >>= feed [0x61, 0x7F, 0x61, 0x0D])
  obtain ⟨tr, shell, hobserve⟩ : ∃ tr shell,
      observe allocating [] (init >>= feed [0x61, 0x7F, 0x61, 0x0D]) = (tr, .ret shell) :=
    ⟨_, _, rfl⟩
  rw [hobserve] at hexec halloc
  have hcs : ∀ c ∈ ([0x61, 0x7F, 0x61, 0x0D] : List UInt8), c ≠ 0 := by
    simp
  obtain ⟨-, hret⟩ := line_editor hcs hexec halloc
  obtain ⟨-, hcarries⟩ := hret shell rfl
  have hbelow : Below (bufferSize - 1) [] ([0x61, 0x7F, 0x61, 0x0D].map key) := by
    apply below_of_length
    simp [bufferSize]
  exact ⟨tr, shell, hexec, hcarries hbelow⟩

end Shell
