import StandaloneSel4.Console.Cuts
import StandaloneSel4.Console.Priority

/-!
# Commands that return

As long as every string it makes is given a block, handling a line comes to an end, unless the line
is one of those that are cut behind their end, or an operand is not a `long`.
-/

open Prog SeL4 Syscall

namespace Shell

open CString (ascii ne_zero_of_not_mem)

/-- The numbers that `cmdThread` converts are each a `long`. -/
structure LongArgs (args : List UInt8) : Prop where
  suspend : (ascii "suspend").isPrefixOf args → CString.Fits 10 (args.drop 8)
  resume : (ascii "resume").isPrefixOf args → CString.Fits 10 (args.drop 7)
  del : (ascii "del").isPrefixOf args → CString.Fits 10 (args.drop 5)
  badge : (ascii "prio").isPrefixOf args → CString.Fits 10 (args.drop 5)
  priority : (ascii "prio").isPrefixOf args →
    CString.Fits 10 ((args.drop 5).drop (CString.readLength 10 (args.drop 5)))

/-- The operands of a line are each a `long`. -/
structure LongOperands (line : List UInt8) : Prop where
  thread : (ascii "thread").isPrefixOf line → LongArgs (line.drop 7)
  kmalloc : (ascii "kmalloc").isPrefixOf line → CString.Fits 10 (line.drop 8)
  touch : (ascii "touch").isPrefixOf line → CString.Fits 10 (line.drop 6)
  kfree : (ascii "kfree").isPrefixOf line → CString.Fits 10 (line.drop 6)
  mmap : (ascii "mmap").isPrefixOf line → CString.Fits 10 (line.drop 5)

/-- As long as memory is granted the program does not fail. -/
def Sound {α : Type} (p : Command α) : Prop :=
  p.wp fun tr o => (∀ e ∈ tr, Granted e) → o ≠ .fail

variable {α β : Type} {p q : Command α} {f : α → Command β} {ctx : Context}
  {cmd args s : BasicString} {text : List UInt8} {pos minSize : ℕ}

/-! ### Rules -/

theorem Sound.ret (a : α) :
  Sound (.ret a)
  := ⟨nofun, nofun⟩

/-- After a call it goes on with what is granted. -/
theorem Sound.call {c : CommandSig.Call} {k : CommandSig.Answer c → Command α}
    (hk : ∀ x, Granted ⟨c, x⟩ → Sound (k x)) :
  Sound (.call c k)
  := by
  refine ⟨nofun, fun x => ?_⟩
  by_cases hx : Granted ⟨c, x⟩
  · apply wp_mono (hk x hx)
    intro tr o ho hgranted
    apply ho (List.forall_mem_cons.mp hgranted).2
  · apply wp_iff.mpr
    intro tr o _ hgranted
    exact absurd (hgranted _ List.mem_cons_self) hx

theorem Sound.bind (hp : Sound p) (hf : ∀ a, Sound (f a)) :
  Sound (p >>= f)
  := by
  apply wp_bind
  apply wp_mono hp
  intro tr o ho
  cases o with
  | ret a =>
      apply wp_mono (hf a)
      intro tr' o' ho' hgranted
      apply ho' (List.forall_mem_append.mp hgranted).2
  | fail => exact fun hgranted => absurd rfl (ho hgranted)
  | running => nofun

theorem Sound.request {γ : Type} (type : ReturnType γ) (endpoint : ℕ) (id : ID) (b : BaseRequest)
    (mrs : Registers) :
  Sound (client (performBase type endpoint id b mrs))
  := by
  rw [performBase_eq]
  split
  · exact Sound.call fun _ _ => Sound.ret _
  · exact Sound.call fun _ _ => Sound.ret _

/-- Giving back a block comes in front of what is returned. -/
theorem Sound.delete (s : BasicString) (a : α) :
  Sound (console s.delete >>= fun _ => .ret a)
  := Sound.call fun _ _ => Sound.ret _

/-- A test with a literal goes on with one of two programs. -/
theorem Sound.isText (lit : String) (h : cmd.Holds text) (hlit : 0 ∉ ascii lit) (hp : Sound p)
    (hq : Sound q) :
  Sound (isText cmd lit >>= fun b => if b = true then p else q)
  := by
  rw [isText_eq lit h hlit, ret_bind]
  split
  · exact hp
  · exact hq

theorem Sound.startsWith (lit : String) (h : cmd.Holds text) (hlit : 0 ∉ ascii lit)
    (hp : (ascii lit).isPrefixOf text = true → Sound p) (hq : Sound q) :
  Sound (startsWith cmd lit >>= fun b => if b = true then p else q)
  := by
  rw [startsWith_eq lit h hlit, ret_bind]
  split
  · rename_i hpre
    exact hp hpre
  · exact hq

/-- A cut within the text goes on with the part as a string. -/
theorem Sound.cut {f : BasicString → Command α} (h : s.Holds text) (hpos : pos ≤ text.length)
    (hf : ∀ part, part.Holds (text.drop pos) → Sound (f part)) :
  Sound (cut s pos >>= f)
  := by
  rw [cut_bind h hpos]
  apply Sound.call
  intro _ _
  apply Sound.call
  intro newS hnew
  apply hf _ (h.made hnew pos)

/-- So does one of a text that is longer than a prefix that it has. -/
theorem Sound.cut_size {f : BasicString → Command α} (h : s.Holds text) (hpos : pos ≤ s.size)
    (hf : ∀ part, part.Holds (text.drop pos) → Sound (f part)) :
  Sound (Shell.cut s pos >>= f)
  := by
  rw [h.size] at hpos
  apply Sound.cut h hpos hf

/-! ### Sub-commands -/

theorem cmdThreadOp_sound (ctx : Context) (op : ThreadRequest.ThreadOp) (h : args.Holds text)
    (hpos : pos ≤ args.size) (hfits : CString.Fits 10 (text.drop pos)) :
  Sound (ctx.cmdThreadOp op pos args)
  := by
  apply Sound.cut_size h hpos
  intro part hpart
  obtain ⟨r, hr, -⟩ := exists_strtol ctx hpart (Nat.zero_le _) hfits
  rw [hr, ret_bind]
  apply Sound.bind (Sound.request _ _ _ _ _)
  intro a
  apply Sound.delete

theorem cmdThreadPrio_sound (ctx : Context) (h : args.Holds text) (hpos : 5 ≤ args.size)
    (hbadge : CString.Fits 10 (text.drop 5))
    (hpriority : CString.Fits 10 ((text.drop 5).drop (CString.readLength 10 (text.drop 5)))) :
  Sound (ctx.cmdThreadPrio args)
  := by
  apply Sound.cut_size h hpos
  intro part hpart
  obtain ⟨r, hr, -, hend⟩ := exists_strtol ctx hpart (Nat.zero_le _) hbadge
  rw [hr, ret_bind, hend]
  split
  · apply Sound.delete
  · rename_i outArg he
    split at he
    · cases he
    · obtain rfl := Option.some.inj he
      rw [Nat.zero_add]
      obtain ⟨r', hr', -⟩ := exists_strtol ctx hpart CString.readLength_le_length hpriority
      rw [List.drop_zero, hr', ret_bind]
      apply Sound.bind (Sound.request _ _ _ _ _)
      intro a
      apply Sound.delete

/-- Arguments that are cut within are handled. -/
theorem cmdThread_sound (ctx : Context) (h : args.Holds text) (hnot : ¬ CutsPastArgs text)
    (hlongs : LongArgs text) :
  Sound (ctx.cmdThread args)
  := by
  simp only [CutsPastArgs, not_or] at hnot
  obtain ⟨hsuspend, hresume, hprio, hdel, hdel'⟩ := hnot
  apply Sound.isText "list" h (by decide)
  · apply Sound.bind (Sound.request _ _ _ _ _)
    intro a
    apply Sound.ret
  apply Sound.startsWith "suspend" h (by decide)
  · intro hpre
    apply cmdThreadOp_sound ctx .suspend h
    · apply lt_size_of_isPrefixOf h hpre hsuspend
    · apply hlongs.suspend hpre
  apply Sound.startsWith "resume" h (by decide)
  · intro hpre
    apply cmdThreadOp_sound ctx .resume h
    · apply lt_size_of_isPrefixOf h hpre hresume
    · apply hlongs.resume hpre
  apply Sound.startsWith "del" h (by decide)
  · intro hpre
    apply cmdThreadOp_sound ctx .stopAndDelete h
    · apply succ_lt_size_of_isPrefixOf h hpre hdel hdel'
    · apply hlongs.del hpre
  apply Sound.startsWith "prio" h (by decide)
  · intro hpre
    apply cmdThreadPrio_sound ctx h
    · apply lt_size_of_isPrefixOf h hpre hprio
    · apply hlongs.badge hpre
    · apply hlongs.priority hpre
  apply Sound.ret

/-! ### Lines -/

theorem withOperand_sound {body : ℤ → Command ℤ} (ctx : Context) (h : cmd.Holds text)
    (hpos : pos ≤ minSize) (hbody : ∀ n, Sound (body n)) (hfits : CString.Fits 10 (text.drop pos)) :
  Sound (ctx.withOperand minSize pos body cmd)
  := by
  unfold Context.withOperand
  split
  · apply Sound.ret
  · apply Sound.cut_size h (by omega)
    intro part hpart
    obtain ⟨r, hr, -⟩ := exists_strtol ctx hpart (Nat.zero_le _) hfits
    rw [hr, ret_bind]
    apply Sound.bind
    · unfold Context.unlessZero
      split
      · apply hbody
      · apply Sound.ret
    · intro a
      apply Sound.delete

theorem cmdDebug_sound (ctx : Context) (op : DebugRequest.Operation) :
  Sound (ctx.cmdDebug op)
  := by
  apply Sound.bind (Sound.request _ _ _ _ _)
  intro a
  apply Sound.ret

theorem cmdKmalloc_sound (ctx : Context) (n : ℤ) :
  Sound (ctx.cmdKmalloc n)
  := by
  apply Sound.bind (Sound.request _ _ _ _ _)
  intro a
  apply Sound.ret

theorem cmdTouch_sound (n : ℤ) :
  Sound (Context.cmdTouch n)
  := Sound.call fun _ _ => Sound.ret _

theorem cmdKfree_sound (ctx : Context) (n : ℤ) :
  Sound (ctx.cmdKfree n)
  := by
  apply Sound.bind (Sound.request _ _ _ _ _)
  intro a
  split
  · apply Sound.ret
  · apply Sound.ret

theorem cmdMmap_sound (ctx : Context) (n : ℤ) :
  Sound (ctx.cmdMmap n)
  := by
  apply Sound.bind (Sound.request _ _ _ _ _)
  intro a
  split
  · apply Sound.ret
  · apply Sound.ret

/-- The branch for `thread`. -/
theorem thread_sound (ctx : Context) (h : cmd.Holds text)
    (hpre : (ascii "thread").isPrefixOf text = true) (hsize : ¬ cmd.size < 8)
    (hnot : ¬ CutsPast text) (hlongs : LongArgs (text.drop 7)) :
  Sound (cut cmd 7 >>= fun args => ctx.cmdThread args >>= fun r =>
    console args.delete >>= fun _ => .ret r)
  := by
  obtain ⟨rest, rfl⟩ := List.isPrefixOf_iff_prefix.mp hpre
  have hlen : (ascii "thread" ++ rest).length = 6 + rest.length := List.length_append
  rw [h.size, hlen] at hsize
  obtain ⟨x, rest, rfl⟩ := List.exists_cons_of_length_pos (l := rest) (by omega)
  rw [cutsPast_iff] at hnot
  apply Sound.cut h (by rw [List.length_cons] at hlen; omega)
  intro part hpart
  apply Sound.bind (cmdThread_sound ctx hpart hnot hlongs)
  intro r
  apply Sound.delete

/-- As long as memory is granted handling a line comes to an end, if the line is not cut behind its
end and its operands are each a `long`. -/
theorem processNewCommand_sound (ctx : Context) (h : cmd.Holds text) (hnot : ¬ CutsPast text)
    (hlongs : LongOperands text) :
  Sound (ctx.processNewCommand cmd)
  := by
  apply Sound.isText "sched" h (by decide) (cmdDebug_sound ctx _)
  apply Sound.startsWith "thread" h (by decide)
  · intro hpre
    split
    · apply Sound.ret
    · rename_i hsize
      apply thread_sound ctx h hpre hsize hnot (hlongs.thread hpre)
  apply Sound.isText "help" h (by decide) (Sound.ret _)
  apply Sound.startsWith "kmalloc" h (by decide)
    (fun hpre => withOperand_sound ctx h (by decide) (cmdKmalloc_sound ctx) (hlongs.kmalloc hpre))
  apply Sound.startsWith "touch" h (by decide)
    (fun hpre => withOperand_sound ctx h (by decide) cmdTouch_sound (hlongs.touch hpre))
  apply Sound.startsWith "kfree" h (by decide)
    (fun hpre => withOperand_sound ctx h (by decide) (cmdKfree_sound ctx) (hlongs.kfree hpre))
  apply Sound.isText "vm" h (by decide) (cmdDebug_sound ctx _)
  apply Sound.isText "history" h (by decide) (Sound.ret _)
  apply Sound.isText "last" h (by decide) (Sound.ret _)
  apply Sound.startsWith "mmap" h (by decide)
    (fun hpre => withOperand_sound ctx h (by decide) (cmdMmap_sound ctx) (hlongs.mmap hpre))
  apply Sound.ret

end Shell
