import StandaloneSel4.Console.Ownership
import StandaloneSel4.Console.Returning
import StandaloneSel4.Containers.Growth
import StandaloneSel4.Lib.Sum
import Mathlib.Algebra.Group.Nat.Defs
import Mathlib.Data.List.Destutter

/-!
# The history

The shell keeps the commands it was given in a vector of strings, a command that equals the last
one only once. The elements of the vector are in the heap, and so is the text of each; what a
command does may change them, if it writes to an address or frees one. As long as no command hits
the memory of the shell and every string is given a block, the texts in the history are those of
the commands, without immediate repetitions.
-/

open Prog SeL4 Syscall

/-- `operator==` of two strings. -/
def BasicString.eq (lhs rhs : BasicString) : Option Bool :=
  if lhs.size ≠ rhs.size then some false
  else eqFrom lhs.bytes rhs.bytes 0 lhs.size

namespace Shell

open CString (ascii)
open Containers (ElementSig Store IsList)

/-- All that the shell calls: what its commands call, and the elements of its history. -/
abbrev ShellSig : Signature :=
  CommandSig.sum (ElementSig BasicString)

/-- A program of the shell. -/
abbrev ShellProg (α : Type) : Type :=
  Prog ShellSig α

/-- `sizeof(string)`. -/
def sizeofString : ℕ := 16

/-- The fields of `Shell` that `newCommand` uses. -/
structure Session where
  lastRet : ℤ
  history : Containers.Vector

/-- The fields of a shell that was constructed. -/
def Session.new : Session where
  lastRet := 0
  history := Containers.Vector.new

/-- A program that carries out a command, as a part of one of the shell. -/
def command {α : Type} (p : Command α) : ShellProg α :=
  p.inl

/-- `push_back(cmd.c_str())`: the text is made a string, which is assigned to the element. -/
def pushBack (cmd : BasicString) (history : Containers.Vector) : ShellProg Containers.Vector := do
  let value ← command (console (BasicString.ofText cmd.bytes))
  let history ← (history.doRealloc sizeofString).inr
  let element ← command (console value.assign)
  let _ ← perform (S := ShellSig) (.inr (.write history.data history.size element))
  command (console value.delete)
  return { history with size := Word.add history.size 1 }

/-- `!_history.empty() && _history.back() == cmd`. -/
def isLast (cmd : BasicString) (history : Containers.Vector) : ShellProg Bool :=
  if history.empty then return false
  else do
    let back ← history.back.inr
    command (defined (back.eq cmd))

/-- `newCommand`. -/
def newCommand (ctx : Context) (cmd : BasicString) (session : Session) :
    ShellProg (ℤ × Session) := do
  let r ← command ({ ctx with lastRet := session.lastRet }.processNewCommand cmd)
  let session := { session with lastRet := r }
  if ← isLast cmd session.history then return (r, session)
  else
    let history ← pushBack cmd session.history
    return (r, { session with history })

/-- The commands of a sequence one after the other, each with what it finds. -/
def newCommands : List (Context × BasicString) → Session → ShellProg Session
  | [], session => return session
  | (ctx, cmd) :: cmds, session => do
      let (_, session) ← newCommand ctx cmd session
      newCommands cmds session

/-! ### The surroundings -/

/-- The call writes to one of these addresses, or asks the root server to free one. -/
def Hits (own : Set ℕ) : CommandSig.Call → Prop
  | .inl _ => False
  | .inr (.inl c) => getMR 0 c.message.mrs = ID.kFree.toWord ∧ getMR 1 c.message.mrs ∈ own
  | .inr (.inr (.touch addr)) => addr ∈ own
  | .inr (.inr (.substr _ _)) => False

/-- What the calls of a command do to the elements of the history: nothing, unless they hit the
memory of the shell, which is at these addresses. -/
def commandWorld (own : Set ℕ) : World CommandSig (Store BasicString) :=
  fun m c _ m' => ¬ Hits own c → m' = m

/-- A request for the memory of a string is granted, and the memory of the shell is not hit. -/
def Harmless (own : Set ℕ) (e : Event CommandSig) : Prop :=
  Granted e ∧ ¬ Hits own e.call

/-- The surroundings in which this is all that happens. -/
def quietWorld (own : Set ℕ) : World ShellSig (Store BasicString) :=
  ((commandWorld own).restrict (Harmless own)).sum
    ((Containers.heap sizeofString).restrict Containers.Granted)

section

variable {α : Type} [DecidableEq α] {a : α} {l pre : List α}

/-- The list with the element as its last one. -/
def record (l : List α) (a : α) : List α :=
  if l.getLast? = some a then l else l ++ [a]

theorem length_le_record (l : List α) (a : α) :
  l.length ≤ (record l a).length
  := by
  unfold record
  split
  · apply Nat.le_refl
  · rw [List.length_append]
    apply Nat.le_add_right

theorem length_le_foldl_record (l pre : List α) :
  pre.length ≤ (l.foldl record pre).length
  := by
  induction l generalizing pre with
  | nil => apply Nat.le_refl
  | cons a l ih => exact Nat.le_trans (length_le_record pre a) (ih (record pre a))

end

/-! ### Parts -/

variable {own : Set ℕ} {m m' : Store BasicString} {v : Containers.Vector} {s rhs cmd : BasicString}
  {text text' : List UInt8} {texts : List (List UInt8)} {session : Session}

/-- `operator==` compares the texts. -/
theorem eq_of_holds (h : s.Holds text) (h' : rhs.Holds text') :
  s.eq rhs = some (decide (text = text'))
  := by
  rw [BasicString.eq, h.size, h'.size]
  by_cases hlen : text.length = text'.length
  · rw [if_neg (not_not_intro hlen)]
    apply BasicString.eqFrom_eq
    · rw [List.drop_zero, h.bytes]
    · rw [List.drop_zero, h'.bytes]
    · rfl
    · apply hlen.symm
  · rw [if_pos hlen]
    have hne : text ≠ text' := fun heq => hlen (congrArg List.length heq)
    rw [decide_eq_false hne]

/-- A program that does not fail as long as memory is granted returns, and the elements of the
history are what they were. -/
theorem Sound.quiet {α : Type} {p : Command α} (h : Sound p) :
  (command p).wpIn (quietWorld own) m fun _ o m' => m' = m ∧ ∃ a, o = some a
  := by
  apply wpIn_inl
  apply wpIn_iff.mpr
  intro tr o m' hruns
  constructor
  · apply hruns.eq_of_same
    rintro m c x m' ⟨hsame, -, hnot⟩
    exact hsame hnot
  · obtain ⟨hruns, hharmless⟩ := runs_restrict_iff.mp hruns
    have hended := hruns.of_wp h fun e he => (hharmless e he).1
    cases o with
    | some a => exact ⟨a, rfl⟩
    | none => exact absurd rfl hended

/-- A string that is made from the text of another is a string of that text. -/
theorem new_quiet (h : s.Holds text) :
  (command (console (BasicString.new s.bytes s.size))).wpIn (quietWorld own) m fun _ o m' =>
    m' = m ∧ ∃ s', o = some s' ∧ s'.Holds text
  := by
  have hn : CString.strlen s.bytes = some text.length := by
    rw [h.bytes]
    apply CString.strlen_append h.ne_zero
  have htake : s.bytes.take (text.length + 1) = text ++ [0] := by
    rw [h.bytes]
    apply List.take_of_length_le
    rw [List.length_append, List.length_singleton]
  rw [BasicString.new_eq hn, htake, h.size]
  rintro (newS : ℕ) m' ⟨hsame, hnew, hnot⟩
  exact ⟨hsame hnot, _, rfl, h.made hnew 0⟩

theorem ofText_quiet (h : s.Holds text) :
  (command (console (BasicString.ofText s.bytes))).wpIn (quietWorld own) m fun _ o m' =>
    m' = m ∧ ∃ s', o = some s' ∧ s'.Holds text
  := by
  have hof : BasicString.ofText s.bytes = BasicString.new s.bytes s.size := by
    rw [BasicString.ofText, h.size]
    nth_rewrite 1 [h.bytes]
    rw [CString.strlen_append h.ne_zero]
  rw [hof]
  apply new_quiet h

theorem assign_quiet (h : rhs.Holds text) :
  (command (console rhs.assign)).wpIn (quietWorld own) m fun _ o m' =>
    m' = m ∧ ∃ s', o = some s' ∧ s'.Holds text
  := new_quiet h

/-! ### What the history records -/

/-- How many strings the history may have before a block for twice as many has a size that wraps
around. -/
def historyLimit : ℕ := 10 * 2 ^ 56

/-- The elements of the history are strings of these texts, and it has grown to ten elements and
then to twice as many each time. -/
structure Records (m : Store BasicString) (v : Containers.Vector) (texts : List (List UInt8)) :
    Prop where
  holds : ∃ room strings, Containers.Holds sizeofString m room v strings
    ∧ List.Forall₂ BasicString.Holds strings texts
  reservation : v.reservation = 0 ∨ ∃ k, v.reservation = 10 * 2 ^ k

theorem Records.new (m : Store BasicString) :
  Records m Session.new.history []
  := by
  constructor
  · exact ⟨0, [], Containers.Holds.new _ m 0, List.Forall₂.nil⟩
  · exact .inl rfl

/-- The last elements of lists that are related are. -/
theorem getLast?_of_forall₂ {α β : Type} {R : α → β → Prop} {l : List α} {l' : List β}
    (h : List.Forall₂ R l l') :
  l = [] ∧ l' = [] ∨ ∃ a b, l.getLast? = some a ∧ l'.getLast? = some b ∧ R a b
  := by
  induction h with
  | nil => exact .inl ⟨rfl, rfl⟩
  | cons hab _ ih =>
      right
      rw [List.getLast?_cons, List.getLast?_cons]
      rcases ih with ⟨rfl, rfl⟩ | ⟨x, y, hx, hy, hxy⟩
      · exact ⟨_, _, rfl, rfl, hab⟩
      · rw [hx, hy]
        exact ⟨x, y, rfl, rfl, hxy⟩

/-- The command is compared with the last text in the history. -/
theorem Records.isLast (h : Records m v texts) (hcmd : cmd.Holds text) :
  (isLast cmd v).wpIn (quietWorld own) m fun _ o m' =>
    m' = m ∧ o = some (decide (texts.getLast? = some text))
  := by
  obtain ⟨room, strings, hholds, hstrings⟩ := h.holds
  have hlist := hholds.observed (by decide)
  unfold Shell.isLast
  rw [hlist.empty]
  rcases getLast?_of_forall₂ hstrings with ⟨rfl, rfl⟩ | ⟨x, t, hx, ht, hxt⟩
  · exact ⟨rfl, rfl⟩
  · have hempty : strings.isEmpty = false := by
      cases strings with
      | nil => cases hx
      | cons _ _ => rfl
    rw [hempty, if_neg Bool.false_ne_true]
    apply wpIn_bind
    apply wpIn_inr
    apply wpIn_restrict
    apply wpIn_mono (hlist.back x hx)
    rintro tr o m' ⟨rfl, rfl⟩ -
    dsimp only
    rw [eq_of_holds hxt hcmd, ht]
    exact ⟨rfl, congrArg some (decide_eq_decide.mpr (Option.some_inj).symm)⟩

/-- The size of the block it asks for does not wrap around. -/
theorem Records.fits (h : Records m v texts) (hlt : texts.length < historyLimit)
    (hgrows : v.Grows) :
  v.grown * sizeofString < 2 ^ 64 ∧ ∃ k, v.grown = 10 * 2 ^ k
  := by
  obtain ⟨room, strings, hholds, hstrings⟩ := h.holds
  rw [← hstrings.length_eq] at hlt
  unfold Containers.Vector.grown
  split
  · exact ⟨by decide, 0, rfl⟩
  · rename_i hne
    obtain ⟨k, hk⟩ := h.reservation.resolve_left hne
    have hfull : v.reservation ≤ v.size := by
      apply hgrows.resolve_left
      intro hnull
      exact hne (hholds.null hnull)
    have hsize : v.size = 10 * 2 ^ k := by
      have hle := hholds.le
      rw [← hholds.size] at hle
      omega
    rw [← hholds.size, hsize] at hlt
    have hk : k < 56 := by
      apply (Nat.pow_lt_pow_iff_right (Nat.lt_succ_self 1)).mp
      exact Nat.lt_of_mul_lt_mul_left hlt
    constructor
    · have hpow : 2 ^ k ≤ 2 ^ 55 := Nat.pow_le_pow_right (by decide) (by omega)
      rw [hsize, sizeofString]
      omega
    · exact ⟨k + 1, by rw [hsize, Nat.pow_succ, Nat.mul_assoc]⟩

/-- The command becomes the last text. -/
theorem Records.pushBack (h : Records m v texts) (hcmd : cmd.Holds text)
    (hlt : texts.length < historyLimit) :
  (pushBack cmd v).wpIn (quietWorld own) m fun _ o m' =>
    ∃ v', o = some v' ∧ Records m' v' (texts ++ [text])
  := by
  obtain ⟨room, strings, hholds, hstrings⟩ := h.holds
  -- the value
  apply wpIn_bind
  apply wpIn_mono (ofText_quiet hcmd)
  rintro tr o m ⟨rfl, value, rfl, hvalue⟩
  -- the room for it
  have hrealloc := hholds.doRealloc (by decide) fun hgrows => (h.fits hlt hgrows).1
  apply wpIn_bind
  apply wpIn_inr
  apply wpIn_mono (wpIn_and (wpIn_restrict hrealloc) (Containers.doRealloc_reservation _ _ v))
  rintro tr o m₁ ⟨⟨-, v', rfl, hholds', hroom, hdata, -⟩, hreservation⟩
  have hreservation := hreservation v' rfl
  -- the assignment
  apply wpIn_bind
  apply wpIn_mono (assign_quiet hvalue)
  rintro tr o m₁ ⟨rfl, element, rfl, helement⟩
  rintro _ m₂ ⟨hwrite, -⟩
  have hwritten := hholds'.write (by decide) hroom hdata hwrite
  -- the value is given back
  rintro _ m₃ ⟨hsame, -, hnot⟩
  obtain rfl := hsame hnot
  refine ⟨_, rfl, ⟨_, _, hwritten, ?_⟩, ?_⟩
  · exact List.rel_append hstrings (List.Forall₂.cons helement List.Forall₂.nil)
  · dsimp only
    rw [hreservation]
    split
    · rename_i hgrows
      obtain ⟨hfits, hk⟩ := h.fits hlt hgrows
      rw [(Containers.nextReservation_of_fits (by decide) hfits).1]
      exact .inr hk
    · exact h.reservation

/-- A command is recorded. -/
theorem Records.newCommand (h : Records m session.history texts) (ctx : Context)
    (hcmd : cmd.Holds text) (hnot : ¬ CutsPast text) (hlongs : LongOperands text)
    (hlimit : (record texts text).length ≤ historyLimit) :
  (newCommand ctx cmd session).wpIn (quietWorld own) m fun _ o m' =>
    ∃ r session', o = some (r, session') ∧ Records m' session'.history (record texts text)
  := by
  apply wpIn_bind
  apply wpIn_mono (processNewCommand_sound _ hcmd hnot hlongs).quiet
  rintro tr o m ⟨rfl, r, rfl⟩
  apply wpIn_bind
  apply wpIn_mono (h.isLast hcmd)
  rintro tr o m ⟨rfl, rfl⟩
  unfold record at hlimit ⊢
  by_cases hlast : texts.getLast? = some text
  · rw [if_pos hlast]
    dsimp only
    rw [decide_eq_true hlast, if_pos rfl]
    exact ⟨_, _, rfl, h⟩
  · rw [if_neg hlast, List.length_append, List.length_singleton] at hlimit
    rw [if_neg hlast]
    dsimp only
    rw [decide_eq_false hlast, if_neg Bool.false_ne_true]
    apply wpIn_bind
    apply wpIn_mono (h.pushBack hcmd hlimit)
    rintro tr o m' ⟨v', rfl, hrecords⟩
    exact ⟨_, _, rfl, hrecords⟩

/-- The command is the string of the text. -/
def IsCommand (cmd : Context × BasicString) (text : List UInt8) : Prop :=
  cmd.2.Holds text

/-- The commands of a sequence are recorded one after the other. -/
theorem Records.newCommands {cmds : List (Context × BasicString)} {lines : List (List UInt8)}
    (h : Records m session.history texts) (hcmds : List.Forall₂ IsCommand cmds lines)
    (hnot : ∀ line ∈ lines, ¬ CutsPast line) (hlongs : ∀ line ∈ lines, LongOperands line)
    (hlimit : (lines.foldl record texts).length ≤ historyLimit) :
  (newCommands cmds session).wpIn (quietWorld own) m fun _ o m' =>
    ∃ session', o = some session' ∧ Records m' session'.history (lines.foldl record texts)
  := by
  induction hcmds generalizing m session texts with
  | nil => exact ⟨session, rfl, h⟩
  | @cons cmd line cmds lines hcmd _ ih =>
      obtain ⟨hline, hnot⟩ := List.forall_mem_cons.mp hnot
      obtain ⟨hlong, hlongs⟩ := List.forall_mem_cons.mp hlongs
      have hle := Nat.le_trans (length_le_foldl_record lines (record texts line)) hlimit
      apply wpIn_bind
      apply wpIn_mono (h.newCommand cmd.1 hcmd hline hlong hle)
      rintro tr o m' ⟨r, session', rfl, hrecords⟩
      exact ih hrecords hnot hlongs hlimit

/-- From some address on there is no block. -/
def Bounded (m : Store BasicString) : Prop :=
  ∃ n, 0 < n ∧ ∀ a, n ≤ a → m a = none

/-- A block more does not change that. -/
theorem Bounded.update (h : Bounded m) (p : ℕ) (b : Option (Containers.Block BasicString)) :
  Bounded (Function.update m p b)
  := by
  obtain ⟨n, hn, hfree⟩ := h
  refine ⟨n + p + 1, Nat.succ_pos _, fun a ha => ?_⟩
  rw [Function.update_of_ne (by omega)]
  apply hfree a (by omega)

/-- A command of one letter, with what it finds. -/
def letter (c : UInt8) : Context × BasicString :=
  ⟨Context.initial, 64, [c, 0], 1⟩

end Shell
