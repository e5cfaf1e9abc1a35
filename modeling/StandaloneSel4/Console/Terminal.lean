import StandaloneSel4.Console.Orders
import StandaloneSel4.Console.Returning
import StandaloneSel4.Server.Sessions

/-!
# The terminal

The shell and the root server together: the commands make their strings on the heap of the root
server, their requests are received and served by rounds of it, and what it replies is what they
get. A line then does what it orders, whatever is on the heap besides, and a command leaves behind
what it has lent out, and nothing else.
-/

open SeL4 Prog Syscall Service Kmalloc Sync Fuel

/-- The root server with its surroundings, and the blocks that the commands were told of and have
not given back. -/
structure Terminal (EntryPoint : Type) where
  server : RootServer EntryPoint
  desk : Desk
  lent : Book

namespace Terminal

variable {EntryPoint : Type}

/-- A round of the root server has received the message of the thread with the badge, and has done
with it. -/
def Exchange (senders : List ℕ) (badge : ℕ) (s : Terminal EntryPoint) (m : Message) (l : Letter)
    (s' : Terminal EntryPoint) : Prop :=
  l.sender = badge ∧ l.message = m ∧ s'.desk.letters = s.desk.letters ++ [l]
    ∧ ∃ tr, Runs (Desk.world senders) s.desk s.server.round tr (some s'.server) s'.desk

/-- What surrounds a client: the root server, which may reply. -/
def clientWorld (senders : List ℕ) (badge : ℕ) : World ClientSig (Terminal EntryPoint)
  | s, .send _ m, _, s' => ∃ l, Exchange senders badge s m l s' ∧ s'.lent = s.lent
  | s, .call _ m, received, s' => ∃ l reply, Exchange senders badge s m l s'
      ∧ s'.desk.replies = s.desk.replies ++ [(badge, reply)] ∧ received = reply.deliver m.mrs
      ∧ s'.lent = s.lent.told l.content (getMR 1 received.mrs)

/-- What surrounds the console: the heap. -/
def consoleWorld (senders : List ℕ) : World ConsoleSig (Terminal EntryPoint)
  | s, .kmalloc size, ptr, s' => Desk.api senders s.desk (.kmalloc size) ptr s'.desk
      ∧ s'.server = s.server ∧ s'.lent = s.lent
  | s, .kfree ptr, _, s' => Desk.api senders s.desk (.kfree ptr) () s'.desk
      ∧ s'.server = s.server ∧ s'.lent = s.lent
  | s, .newCommand _, _, s' => s' = s

/-- After the assignment `((char *)addr)[0] = 53`. -/
def touch (addr : ℕ) (s : Terminal EntryPoint) : Terminal EntryPoint :=
  let heap := { s.desk.heap with mem := Function.update s.desk.heap.mem addr 53 }
  { s with desk := { s.desk with heap := heap } }

/-- The effects of the commands. -/
def effectWorld : World Shell.EffectSig (Terminal EntryPoint)
  | s, .touch addr, _, s' => s' = s.touch addr
  | s, .substr _ _, _, s' => s' = s

/-- All that surrounds a command. -/
def world (senders : List ℕ) (badge : ℕ) : World Shell.CommandSig (Terminal EntryPoint) :=
  World.sum (consoleWorld senders) (World.sum (clientWorld senders badge) effectWorld)

/-- Every call of the program has an answer, and as long as memory is granted for the strings it
returns, and `Q` holds then. -/
def Leads {α : Type} (senders : List ℕ) (badge : ℕ) (p : Shell.Command α)
    (s : Terminal EntryPoint) (Q : α → Terminal EntryPoint → Prop) : Prop :=
  p.totalFor (world senders badge) ((world senders badge).restrict Shell.Granted) s Q

/-- The live blocks are those that were lent out, and the others. -/
structure Keeps (senders : List ℕ) (others : Book) (s : Terminal EntryPoint) : Prop where
  knows : s.server.Knows senders
  run : Kmalloc.Run Kmalloc.Countable s.desk.heap s.desk.lock s.desk.live
  book : (book s.desk.live).Perm (s.lent ++ others)

/-! ### What lines are for -/

/-- `Obeys lent order r lent'`: with these blocks lent out, the order leaves those lent out, and the
command returns `r`. -/
inductive Obeys : Book → Option (Shell.Verb × ℤ) → ℤ → Book → Prop where
  | nothing {lent : Book} {v : Shell.Verb} : Obeys lent (some (v, 0)) (-1) lent
  | kmalloc {lent : Book} {size : ℤ} {p : ℕ} :
      size ≠ 0 → p ≠ 0 → p + Word.ofInt size ≤ 2 ^ 64 → lent.Apart p (Word.ofInt size) →
      Obeys lent (some (.kmalloc, size)) 0 ((p, Word.ofInt size) :: lent)
  | noMemory {lent : Book} {size : ℤ} :
      size ≠ 0 → Obeys lent (some (.kmalloc, size)) 0 lent
  | kfree {lent : Book} {addr : ℤ} {size : ℕ} :
      addr ≠ 0 → (Word.ofInt addr, size) ∈ lent →
      Obeys lent (some (.kfree, addr)) 0 (lent.erase (Word.ofInt addr, size))
  | touch {lent : Book} {addr : ℤ} :
      addr ≠ 0 → Obeys lent (some (.touch, addr)) 0 lent
  | other {lent : Book} {r : ℤ} : Obeys lent none r lent

/-- What a user may order who was lent these blocks: sizes that can be counted in chunks, to free
blocks, and to touch their bytes. -/
def May (lent : Book) : Option (Shell.Verb × ℤ) → Prop
  | none => True
  | some (.kmalloc, size) => size ≠ 0 → Kmalloc.Countable (Word.ofInt size)
  | some (.kfree, addr) => addr ≠ 0 → ∃ size, (Word.ofInt addr, size) ∈ lent
  | some (.touch, addr) => addr ≠ 0 →
      ∃ e ∈ lent, e.1 ≤ Word.ofInt addr ∧ Word.ofInt addr < e.1 + e.2

variable {senders : List ℕ} {badge : ℕ} {others : Book} {s s' : Terminal EntryPoint} {α β : Type}
  {Q Q' : α → Terminal EntryPoint → Prop}

theorem Leads.mono {p : Shell.Command α} (h : Leads senders badge p s Q)
    (hQ : ∀ a s', Q a s' → Q' a s') :
  Leads senders badge p s Q'
  := totalFor_mono h hQ

theorem Leads.bind {p : Shell.Command α} {f : α → Shell.Command β}
    {R : β → Terminal EntryPoint → Prop}
    (h : Leads senders badge p s fun a s' => Leads senders badge (f a) s' R) :
  Leads senders badge (p >>= f) s R
  := totalFor_bind h

/-! ### The heap -/

/-- A string for which memory is asked is one of the others when it is granted. -/
theorem Keeps.allocate (h : s.Keeps senders others) {size : ℕ} (hsize : Kmalloc.Countable size)
    {k : ℕ → Shell.Command α}
    (hk : ∀ ptr s', ptr ≠ 0 → s'.Keeps senders ((ptr, size) :: others) → s'.lent = s.lent →
      Leads senders badge (k ptr) s' Q) :
  Leads senders badge (.call (.inl (.kmalloc size)) k) s Q
  := by
  have hlt : size < 2 ^ 64 := by
    unfold Kmalloc.Countable at hsize
    omega
  constructor
  · obtain ⟨count, hcount⟩ := hsize.returns
    obtain ⟨ptr, h', hret⟩ := h.run.kmalloc_returns hlt hcount
    exact ⟨ptr, ⟨s.server, _, s.lent⟩, ⟨h', _, count, hret, hcount, s.desk.mrs, rfl⟩, rfl, rfl⟩
  · rintro ptr s' ⟨⟨⟨h', lock, count, hret, hcount, mrs, hdesk⟩, hserver, hlent⟩, hgranted⟩
    have hptr : ptr ≠ (0 : ℕ) := hgranted
    obtain ⟨hrun, hserves⟩ := h.run.kmalloc_serves hsize hcount hret
    obtain ⟨lent, -, hperm, htold, -⟩ := hserves.own h.run.disjoint_book
      (fun _ => ne_zero_of_mem_book) h.book nofun
    obtain rfl : (ptr, size) :: s.lent = lent := (if_neg hptr).symm.trans (htold ptr rfl)
    obtain ⟨server, desk, lent⟩ := s'
    obtain rfl := hserver
    obtain rfl := hlent
    obtain rfl := hdesk
    exact hk ptr _ hptr ⟨h.knows, hrun, hperm.trans List.perm_middle.symm⟩ rfl

/-- The string is given back. -/
theorem Keeps.free {ptr size : ℕ} (h : s.Keeps senders ((ptr, size) :: others))
    {k : Unit → Shell.Command α}
    (hk : ∀ s', s'.Keeps senders others → s'.lent = s.lent → Leads senders badge (k ()) s' Q) :
  Leads senders badge (.call (.inl (.kfree ptr)) k) s Q
  := by
  have hmem : (ptr, size) ∈ Kmalloc.book s.desk.live :=
    h.book.mem_iff.mpr (List.mem_append_right _ List.mem_cons_self)
  obtain ⟨b, hb, hentry⟩ := List.mem_map.mp hmem
  obtain rfl : b.header + 32 = ptr := congrArg Prod.fst hentry
  have hptr : b.header + 32 = 0 ∨ ∃ c ∈ s.desk.live, b.header + 32 = c.header + 32 :=
    .inr ⟨b, hb, rfl⟩
  constructor
  · obtain ⟨h', hret⟩ := h.run.kfree_ends hptr
    exact ⟨(), ⟨s.server, _, s.lent⟩, ⟨h', _, hret, s.desk.mrs, rfl⟩, rfl, rfl⟩
  · rintro _ s' ⟨⟨⟨h', lock, hret, mrs, hdesk⟩, hserver, hlent⟩, -⟩
    obtain ⟨hrun, -⟩ := h.run.kfree_serves hptr hret
    have hbook := (h.run.release_eq hb).2
    rw [hentry] at hbook
    have hperm : (Kmalloc.book (release s.desk.live (b.header + 32))).Perm (s.lent ++ others) := by
      rw [hbook]
      have herase := (h.book.trans List.perm_middle).erase (b.header + 32, size)
      rwa [List.erase_cons_head] at herase
    obtain ⟨server, desk, lent⟩ := s'
    obtain rfl := hserver
    obtain rfl := hlent
    obtain rfl := hdesk
    exact hk _ ⟨h.knows, hrun, hperm⟩ rfl

/-! ### Requests -/

/-- What an exchange is for the root server: the letter has been served. -/
theorem Keeps.exchange (h : s.Keeps senders others) (hsenders : senders ≠ []) {m : Message}
    {l : Letter} (hex : Exchange senders badge s m l s') :
  s'.server.Knows senders ∧ RootServer.Served l (s.desk.receive l) s'.desk
  := by
  obtain ⟨-, -, hletters, tr, hruns⟩ := hex
  obtain ⟨server, hserver, hknows, l', -, hserved⟩ :=
    hruns.of_totalFor (RootServer.round_serves hsenders h.knows h.run)
  obtain rfl := Option.some.inj hserver
  have hsame : s.desk.letters ++ [l'] = s.desk.letters ++ [l] := hserved.letters.symm.trans hletters
  obtain rfl : l' = l := by simpa using hsame
  exact ⟨hknows, hserved⟩

/-- The blocks after a letter has been served from a client that frees only what is its own. -/
theorem Keeps.served (h : s.Keeps senders others) {l : Letter} {v : Option ℕ}
    (hknows : s'.server.Knows senders)
    (hrun : Kmalloc.Run Kmalloc.Countable s'.desk.heap s'.desk.lock s'.desk.live)
    (hserves : Serves (Kmalloc.book s.desk.live) l.content v (Kmalloc.book s'.desk.live))
    (hown : ∀ p, l.content = .request .kFree (KFreeRequest.mk p) →
      p = 0 ∨ ∃ size, (p, size) ∈ s.lent)
    (hlent : s'.lent = v.elim s.lent (s.lent.told l.content)) :
  s'.Keeps senders others ∧ Serves s.lent l.content v s'.lent
  := by
  obtain ⟨lent, hlends, hperm, htold, hnone⟩ := hserves.own h.run.disjoint_book
    (fun _ => ne_zero_of_mem_book) h.book hown
  have hsame : s'.lent = lent := by
    rw [hlent]
    cases v with
    | none => exact (hnone rfl).symm
    | some w => exact htold w rfl
  rw [hsame]
  exact ⟨⟨hknows, hrun, by rwa [hsame]⟩, hlends⟩

/-- A request that waits: the message and what is done with the reply. -/
theorem exists_call {t : RequestType} (ht : t ≠ .debug) (endpoint : ℕ) (r : t.Request) :
  ∃ k : Message → Client (Expected t.Response Bool), (∀ mrs, t.perform endpoint r mrs
      = .call (.call endpoint (requestMessage t.id (t.base r) mrs)) k)
    ∧ ∀ (m : Message) w (lent : Book), k m = .ret (Syscall.success (t.response w)) →
      lent.told (.request t r) (getMR 1 m.mrs) = lent.told (.request t r) w
  := by
  cases t with
  | debug => exact absurd rfl ht
  | kMalloc =>
      refine ⟨fun ret => .ret (KMallocResponse.type.decode ret.info ret.mrs), fun _ => rfl, ?_⟩
      intro m w lent hret
      have hword : getMR 1 m.mrs = w := by
        injection hret with hret
        exact congrArg (fun e => KMallocResponse.p e.value) hret
      rw [hword]
  | kFree =>
      use fun ret => .ret (KFreeResponse.type.decode ret.info ret.mrs), fun _ => rfl
      exact fun _ _ _ _ => rfl
  | mMap =>
      use fun ret => .ret (MMapResponse.type.decode ret.info ret.mrs), fun _ => rfl
      exact fun _ _ _ _ => rfl
  | thread =>
      use fun ret => .ret (BaseResponse.type.decode ret.info ret.mrs), fun _ => rfl
      exact fun _ _ _ _ => rfl

/-- What a client may send. -/
theorem Keeps.expects (h : s.Keeps senders others) {t : RequestType} {r : t.Request}
    (hown : ∀ p, Content.request t r = .request .kFree (KFreeRequest.mk p) →
      ∃ size, (p, size) ∈ s.lent)
    (hsize : ∀ n, Content.request t r = .request .kMalloc (KMallocRequest.mk n) →
      Kmalloc.Countable n) (hbadge : badge ∈ senders) (mrs : Registers) :
  s.desk.Expects senders ⟨badge, .request t r, mrs⟩
  := by
  use hbadge
  cases t with
  | kMalloc => exact hsize _ rfl
  | kFree =>
      obtain ⟨size, hin⟩ := hown _ rfl
      have hmem := h.book.mem_iff.mpr (List.mem_append_left _ hin)
      obtain ⟨b, hb, hentry⟩ := List.mem_map.mp hmem
      exact .inr ⟨b, hb, (congrArg Prod.fst hentry).symm⟩
  | debug | mMap | thread => trivial

/-- A request that waits is answered. -/
theorem Keeps.call (h : s.Keeps senders others) (hbadge : badge ∈ senders) {t : RequestType}
    (ht : t ≠ .debug) {r : t.Request}
    (hown : ∀ p, Content.request t r = .request .kFree (KFreeRequest.mk p) →
      ∃ size, (p, size) ∈ s.lent)
    (hsize : ∀ n, Content.request t r = .request .kMalloc (KMallocRequest.mk n) →
      Kmalloc.Countable n)
    (endpoint : ℕ) (mrs : Registers) :
  Leads senders badge (Shell.client (t.perform endpoint r mrs)) s fun resp s' =>
    s'.Keeps senders others ∧ ∃ w, Serves s.lent (.request t r) (some w) s'.lent
      ∧ resp = Syscall.success (t.response w)
  := by
  obtain ⟨k, hk, hword⟩ := exists_call ht endpoint r
  have hanswered : (Content.request t r).answered = true := by
    cases t with
    | debug => exact absurd rfl ht
    | kMalloc | kFree | mMap | thread => rfl
  rw [hk mrs]
  constructor
  · let l : Letter := ⟨badge, .request t r, mrs⟩
    have hexpects : s.desk.Expects senders l := h.expects hown hsize hbadge mrs
    obtain ⟨tr, server, d, hruns, hserved⟩ := RootServer.exists_round h.knows h.run hexpects
    obtain ⟨w, m, -, hreplies, -⟩ := hserved.answered hanswered
    exact ⟨_, ⟨server, d, _⟩, l, m, ⟨rfl, rfl, hserved.letters, tr, hruns⟩, hreplies, rfl, rfl⟩
  · rintro received s' ⟨⟨l, reply, hex, hreplies, rfl, hlent⟩, -⟩
    obtain ⟨hknows, hserved⟩ := h.exchange (List.ne_nil_of_mem hbadge) hex
    obtain ⟨hsender, hmessage, -⟩ := hex
    have hcontent := Letter.content_eq hmessage
    obtain ⟨sender, content, own⟩ := l
    obtain rfl : sender = badge := hsender
    obtain rfl : content = .request t r := hcontent
    obtain ⟨w, m, hserves, hmore, hgets⟩ := hserved.answered hanswered
    obtain rfl : m = reply := by
      have hsame : s.desk.replies ++ [(sender, m)] = s.desk.replies ++ [(sender, reply)] :=
        hmore.symm.trans hreplies
      simpa using hsame
    obtain ⟨k', hk', hret⟩ := hgets endpoint
    rw [hk own] at hk'
    injection hk' with _ hk'
    subst hk'
    rw [hmessage] at hret
    have htold := hlent.trans (hword _ w s.lent hret)
    obtain ⟨hkeeps, hlends⟩ := h.served hknows hserved.run hserves
      (fun p heq => .inr (hown p heq)) htold
    change Leads senders sender (Shell.client (k _)) s' _
    rw [hret]
    exact ⟨hkeeps, w, hlends, rfl⟩

/-- A request that does not wait is served without an answer. -/
theorem Keeps.send (h : s.Keeps senders others) (hbadge : badge ∈ senders) (endpoint : ℕ)
    (r : DebugRequest) (mrs : Registers) :
  Leads senders badge (Shell.client (perform.debug endpoint r mrs)) s fun _ s' =>
    s'.Keeps senders others ∧ s'.lent = s.lent
  := by
  constructor
  · have hexpects := h.expects (t := .debug) (r := r) nofun nofun hbadge mrs
    obtain ⟨tr, server, d, hruns, hserved⟩ := RootServer.exists_round h.knows h.run hexpects
    exact ⟨(), ⟨server, d, s.lent⟩, _, ⟨rfl, rfl, hserved.letters, tr, hruns⟩, rfl⟩
  · rintro _ s' ⟨⟨l, hex, hlent⟩, -⟩
    obtain ⟨hknows, hserved⟩ := h.exchange (List.ne_nil_of_mem hbadge) hex
    obtain ⟨-, hmessage, -⟩ := hex
    have hcontent : l.content = .request .debug r := Letter.content_eq hmessage
    obtain ⟨v, -, hserves, -⟩ := hserved.serves
    have hnone := hserves.isSome_eq
    rw [hcontent] at hnone
    obtain rfl : v = none := Option.not_isSome_iff_eq_none.mp (by rw [hnone]; exact nofun)
    have hown : ∀ p, l.content = .request .kFree (KFreeRequest.mk p) →
        p = 0 ∨ ∃ size, (p, size) ∈ s.lent := by
      rw [hcontent]
      nofun
    exact ⟨(h.served hknows hserved.run hserves hown hlent).1, hlent⟩

/-! ### What leaves the memory alone -/

/-- The program leaves the blocks as they are. -/
def Quiet (EntryPoint : Type) (senders : List ℕ) (badge : ℕ) (p : Shell.Command α) : Prop :=
  ∀ (others : Book) (s : Terminal EntryPoint), s.Keeps senders others →
    Leads senders badge p s fun _ s' => s'.Keeps senders others ∧ s'.lent = s.lent

/-- The program gives the block back, and leaves the other ones as they are. -/
def Releases (EntryPoint : Type) (senders : List ℕ) (badge : ℕ) (e : ℕ × ℕ)
    (p : Shell.Command α) : Prop :=
  ∀ (others : Book) (s : Terminal EntryPoint), s.Keeps senders (e :: others) →
    Leads senders badge p s fun _ s' => s'.Keeps senders others ∧ s'.lent = s.lent

variable {p : Shell.Command α} {f : α → Shell.Command β} {e : ℕ × ℕ} {str : BasicString}
  {text : List UInt8} {pos : ℕ} {cmd args : BasicString} {ctx : Shell.Context}

theorem Quiet.ret (a : α) :
  Quiet EntryPoint senders badge (.ret a)
  := fun _ _ h => ⟨h, rfl⟩

theorem Quiet.bind (hp : Quiet EntryPoint senders badge p)
    (hf : ∀ a, Quiet EntryPoint senders badge (f a)) :
  Quiet EntryPoint senders badge (p >>= f)
  := by
  intro others s h
  apply Leads.bind
  apply (hp others s h).mono
  rintro a s₁ ⟨h₁, hlent⟩
  apply (hf a others s₁ h₁).mono
  rintro b s₂ ⟨h₂, hlent'⟩
  exact ⟨h₂, hlent'.trans hlent⟩

theorem Releases.bind (hp : Quiet EntryPoint senders badge p)
    (hf : ∀ a, Releases EntryPoint senders badge e (f a)) :
  Releases EntryPoint senders badge e (p >>= f)
  := by
  intro others s h
  apply Leads.bind
  apply (hp _ s h).mono
  rintro a s₁ ⟨h₁, hlent⟩
  apply (hf a others s₁ h₁).mono
  rintro b s₂ ⟨h₂, hlent'⟩
  exact ⟨h₂, hlent'.trans hlent⟩

theorem Releases.delete (size : ℕ) (a : α) :
  Releases EntryPoint senders badge (str.data, size) (Shell.console str.delete >>= fun _ => .ret a)
  := fun _ _ h => h.free fun _ h' hlent => ⟨h', hlent⟩

/-- The requests that concern no block. -/
theorem Quiet.request (hbadge : badge ∈ senders) {t : RequestType} (hkmalloc : t ≠ .kMalloc)
    (hkfree : t ≠ .kFree) (endpoint : ℕ) (r : t.Request) (mrs : Registers) :
  Quiet EntryPoint senders badge (Shell.client (t.perform endpoint r mrs))
  := by
  intro others s h
  by_cases ht : t = .debug
  · subst ht
    exact h.send hbadge endpoint r mrs
  · have hown : ∀ p, Content.request t r = .request .kFree (KFreeRequest.mk p) →
        ∃ size, (p, size) ∈ s.lent := fun p heq => absurd (by cases heq; rfl) hkfree
    have hsize : ∀ n, Content.request t r = .request .kMalloc (KMallocRequest.mk n) →
        Kmalloc.Countable n := fun n heq => absurd (by cases heq; rfl) hkmalloc
    apply (h.call hbadge ht hown hsize endpoint mrs).mono
    rintro resp s' ⟨h', w, hserves, -⟩
    exact ⟨h', hserves.eq_of_other hkmalloc hkfree⟩

/-- A string that is cut out of a line is one of the others. -/
theorem Keeps.cut (hs : s.Keeps senders others) {f : BasicString → Shell.Command α}
    (h : str.Holds text) (hpos : pos ≤ str.size) (hlen : text.length < Shell.bufferSize)
    (hf : ∀ (part : BasicString) (size : ℕ) s', part.Holds (text.drop pos) →
      s'.Keeps senders ((part.data, size) :: others) → s'.lent = s.lent →
      Leads senders badge (f part) s' Q) :
  Leads senders badge (Shell.cut str pos >>= f) s Q
  := by
  rw [h.size] at hpos
  rw [Shell.cut_bind h hpos]
  refine ⟨⟨(), s, rfl⟩, ?_⟩
  rintro _ s₁ ⟨rfl, -⟩
  have hsize : Kmalloc.Countable (text.length - pos + 1) := by
    unfold Shell.bufferSize at hlen
    unfold Kmalloc.Countable
    omega
  apply hs.allocate hsize
  intro ptr s' hptr hs' hlent
  have hpart := h.made hptr pos
  rw [BasicString.made, if_neg hptr] at hpart ⊢
  exact hf _ _ s' hpart hs' hlent

/-- If it is given back, nothing has changed. -/
theorem Quiet.cut {f : BasicString → Shell.Command α} (h : str.Holds text)
    (hpos : pos ≤ str.size) (hlen : text.length < Shell.bufferSize)
    (hf : ∀ (part : BasicString) (size : ℕ), part.Holds (text.drop pos) →
      Releases EntryPoint senders badge (part.data, size) (f part)) :
  Quiet EntryPoint senders badge (Shell.cut str pos >>= f)
  := by
  intro others s hs
  apply hs.cut h hpos hlen
  intro part size s' hpart hs' hlent
  apply (hf part size hpart others s' hs').mono
  rintro a s'' ⟨h'', hlent'⟩
  exact ⟨h'', hlent'.trans hlent⟩

/-! ### Tests -/

/-- What is so of both branches is so of a test with a literal. -/
theorem isText_branch {C : Shell.Command α → Prop} {p q : Shell.Command α} (lit : String)
    (h : cmd.Holds text) (hlit : 0 ∉ CString.ascii lit) (hp : text = CString.ascii lit → C p)
    (hq : C q) :
  C (Shell.isText cmd lit >>= fun b => if b = true then p else q)
  := by
  rw [Shell.isText_eq lit h hlit, ret_bind]
  split
  · exact hp (of_decide_eq_true ‹_›)
  · exact hq

/-- Likewise for a test for a prefix. -/
theorem startsWith_branch {C : Shell.Command α → Prop} {p q : Shell.Command α} (lit : String)
    (h : cmd.Holds text) (hlit : 0 ∉ CString.ascii lit)
    (hp : (CString.ascii lit).isPrefixOf text = true → C p)
    (hq : (CString.ascii lit).isPrefixOf text = false → C q) :
  C (Shell.startsWith cmd lit >>= fun b => if b = true then p else q)
  := by
  rw [Shell.startsWith_eq lit h hlit, ret_bind]
  split
  · exact hp ‹_›
  · exact hq (eq_false_of_ne_true ‹_›)

/-! ### Commands for threads -/

/-- The requests that concern threads. -/
theorem Quiet.thread (hbadge : badge ∈ senders) (endpoint : ℕ) (r : ThreadRequest)
    (mrs : Registers) :
  Quiet EntryPoint senders badge (Shell.client (perform.thread endpoint r mrs))
  := Quiet.request (t := .thread) hbadge (by decide) (by decide) endpoint r mrs

theorem cmdThreadOp_quiet (hbadge : badge ∈ senders) (op : ThreadRequest.ThreadOp)
    (h : args.Holds text) (hpos : pos ≤ args.size) (hlen : text.length < Shell.bufferSize)
    (hfits : CString.Fits 10 (text.drop pos)) :
  Quiet EntryPoint senders badge (ctx.cmdThreadOp op pos args)
  := by
  apply Quiet.cut h hpos hlen
  intro part size hpart
  obtain ⟨r, hr, -⟩ := Shell.exists_strtol ctx hpart (Nat.zero_le _) hfits
  rw [hr, ret_bind]
  apply Releases.bind (Quiet.thread hbadge _ _ _)
  intro a
  apply Releases.delete

theorem cmdThreadPrio_quiet (hbadge : badge ∈ senders) (h : args.Holds text)
    (hpos : 5 ≤ args.size) (hlen : text.length < Shell.bufferSize)
    (hbadged : CString.Fits 10 (text.drop 5))
    (hpriority : CString.Fits 10 ((text.drop 5).drop (CString.readLength 10 (text.drop 5)))) :
  Quiet EntryPoint senders badge (ctx.cmdThreadPrio args)
  := by
  apply Quiet.cut h hpos hlen
  intro part size hpart
  obtain ⟨r, hr, -, hend⟩ := Shell.exists_strtol ctx hpart (Nat.zero_le _) hbadged
  rw [hr, ret_bind, hend]
  split
  · apply Releases.delete
  · rename_i outArg he
    split at he
    · cases he
    · obtain rfl := Option.some.inj he
      rw [Nat.zero_add]
      obtain ⟨r', hr', -⟩ :=
        Shell.exists_strtol ctx hpart CString.readLength_le_length hpriority
      rw [List.drop_zero, hr', ret_bind]
      apply Releases.bind (Quiet.thread hbadge _ _ _)
      intro a
      apply Releases.delete

/-- Arguments that are cut within are handled without touching the blocks. -/
theorem cmdThread_quiet (hbadge : badge ∈ senders) (h : args.Holds text)
    (hnot : ¬ Shell.CutsPastArgs text) (hlen : text.length < Shell.bufferSize)
    (hlongs : Shell.LongArgs text) :
  Quiet EntryPoint senders badge (ctx.cmdThread args)
  := by
  simp only [Shell.CutsPastArgs, not_or] at hnot
  obtain ⟨hsuspend, hresume, hprio, hdel, hdel'⟩ := hnot
  apply isText_branch "list" h (by decide)
  · intro _
    apply Quiet.bind (Quiet.thread hbadge _ _ _)
    intro a
    apply Quiet.ret
  apply startsWith_branch "suspend" h (by decide)
  · intro hpre
    exact cmdThreadOp_quiet hbadge _ h (Shell.lt_size_of_isPrefixOf h hpre hsuspend) hlen
      (hlongs.suspend hpre)
  intro _
  apply startsWith_branch "resume" h (by decide)
  · intro hpre
    exact cmdThreadOp_quiet hbadge _ h (Shell.lt_size_of_isPrefixOf h hpre hresume) hlen
      (hlongs.resume hpre)
  intro _
  apply startsWith_branch "del" h (by decide)
  · intro hpre
    exact cmdThreadOp_quiet hbadge _ h (Shell.succ_lt_size_of_isPrefixOf h hpre hdel hdel') hlen
      (hlongs.del hpre)
  intro _
  apply startsWith_branch "prio" h (by decide)
  · intro hpre
    exact cmdThreadPrio_quiet hbadge h (Shell.lt_size_of_isPrefixOf h hpre hprio) hlen
      (hlongs.badge hpre) (hlongs.priority hpre)
  intro _
  apply Quiet.ret

/-! ### Lines -/

/-- The program does what is ordered, to those who may. -/
def Follows (EntryPoint : Type) (senders : List ℕ) (badge : ℕ) (o : Option (Shell.Verb × ℤ))
    (p : Shell.Command ℤ) : Prop :=
  ∀ (others : Book) (s : Terminal EntryPoint), s.Keeps senders others → May s.lent o →
    Leads senders badge p s fun r s' => s'.Keeps senders others ∧ Obeys s.lent o r s'.lent

variable {o : Option (Shell.Verb × ℤ)} {n : ℤ} {minSize : ℕ}

/-- Nothing is ordered of a program that leaves the blocks as they are. -/
theorem Quiet.follows {p : Shell.Command ℤ} (h : Quiet EntryPoint senders badge p) :
  Follows EntryPoint senders badge none p
  := by
  intro others s hs _
  apply (h others s hs).mono
  rintro r s' ⟨h', hlent⟩
  rw [hlent]
  exact ⟨h', .other⟩

theorem cmdDebug_quiet (hbadge : badge ∈ senders) (op : DebugRequest.Operation) :
  Quiet EntryPoint senders badge (ctx.cmdDebug op)
  := by
  apply Quiet.bind (Quiet.request (t := .debug) hbadge nofun nofun _ _ _)
  intro a
  apply Quiet.ret

theorem cmdMmap_quiet (hbadge : badge ∈ senders) (n : ℤ) :
  Quiet EntryPoint senders badge (ctx.cmdMmap n)
  := by
  apply Quiet.bind (Quiet.request (t := .mMap) hbadge nofun nofun _ _ _)
  intro a
  split
  · apply Quiet.ret
  · apply Quiet.ret

/-- A request for memory that is served is what was ordered. -/
theorem Obeys.of_kMalloc {lent lent' : Book} {w : ℕ} (hn : n ≠ 0)
    (h : Serves lent (.request .kMalloc (KMallocRequest.mk (Word.ofInt n))) (some w) lent') :
  Obeys lent (some (.kmalloc, n)) 0 lent'
  := by
  cases h with
  | kMalloc hp hfits hapart => exact .kmalloc hn hp hfits hapart
  | noMemory => exact .noMemory hn

theorem Obeys.of_kFree {lent lent' : Book} {w : ℕ} (hn : n ≠ 0) (hnull : Word.ofInt n ≠ 0)
    (h : Serves lent (.request .kFree (KFreeRequest.mk (Word.ofInt n))) (some w) lent') :
  w = 0 ∧ Obeys lent (some (.kfree, n)) 0 lent'
  := by
  have hkfree : ∀ size, (Word.ofInt n, size) ∈ lent →
      Obeys lent (some (.kfree, n)) 0 (lent.erase (Word.ofInt n, size)) := fun _ => .kfree hn
  generalize Word.ofInt n = p at hnull h hkfree
  cases h with
  | kFree hin => exact ⟨rfl, hkfree _ hin⟩
  | kFreeNull => exact absurd rfl hnull

theorem cmdKmalloc_follows (hbadge : badge ∈ senders) (hn : n ≠ 0) :
  Follows EntryPoint senders badge (some (.kmalloc, n)) (ctx.cmdKmalloc n)
  := by
  intro others s h hmay
  have hsize : ∀ m, Content.request .kMalloc (KMallocRequest.mk (Word.ofInt n))
      = .request .kMalloc (KMallocRequest.mk m) → Kmalloc.Countable m := by
    rintro m heq
    cases heq
    exact hmay hn
  apply Leads.bind
  apply (h.call (t := .kMalloc) hbadge nofun nofun hsize ctx.endpoint ctx.mrs).mono
  rintro resp s' ⟨h', w, hserves, -⟩
  exact ⟨h', .of_kMalloc hn hserves⟩

theorem cmdKfree_follows (hbadge : badge ∈ senders) (hn : n ≠ 0) :
  Follows EntryPoint senders badge (some (.kfree, n)) (ctx.cmdKfree n)
  := by
  intro others s h hmay
  have hown : ∀ p, Content.request .kFree (KFreeRequest.mk (Word.ofInt n))
      = .request .kFree (KFreeRequest.mk p) → ∃ size, (p, size) ∈ s.lent := by
    rintro p heq
    cases heq
    exact hmay hn
  apply Leads.bind
  apply (h.call (t := .kFree) hbadge nofun hown nofun ctx.endpoint ctx.mrs).mono
  rintro resp s' ⟨h', w, hserves, rfl⟩
  obtain ⟨size, hin⟩ := hmay hn
  have hmem := h.book.mem_iff.mpr (List.mem_append_left _ hin)
  obtain ⟨rfl, hobeys⟩ := Obeys.of_kFree hn (ne_zero_of_mem_book hmem) hserves
  exact ⟨h', hobeys⟩

theorem cmdTouch_follows (hn : n ≠ 0) :
  Follows EntryPoint senders badge (some (.touch, n)) (Shell.Context.cmdTouch n)
  := by
  intro others s h hmay
  refine ⟨⟨(), _, rfl⟩, ?_⟩
  rintro _ s' ⟨rfl, -⟩
  refine ⟨⟨h.knows, ?_, h.book⟩, .touch hn⟩
  apply h.run.write
  intro a hnot
  apply Function.update_of_ne
  rintro rfl
  obtain ⟨e, he, hlo, hhi⟩ := hmay hn
  have hmem := h.book.mem_iff.mpr (List.mem_append_left _ he)
  obtain ⟨b, hb, rfl⟩ := List.mem_map.mp hmem
  obtain ⟨N, A, ht⟩ := h.run.ensureInit_tracks
  have hfit := ht.sizes_fit hb
  apply hnot b hb
  unfold Live.Payload
  simp only [Live.entry] at hlo hhi
  omega

/-- The operand is cut out, converted and used, and the string made for it is given back. -/
theorem Keeps.operand (hs : s.Keeps senders others) {v : Shell.Verb} {g : ℤ → Shell.Command α}
    {R : α → Book → Prop} (h : cmd.Holds text) (hlong : ¬ cmd.size < v.pos + 1)
    (hlen : text.length < Shell.bufferSize) (hfits : CString.Fits 10 (text.drop v.pos))
    (hg : ∀ others (s₁ : Terminal EntryPoint), s₁.Keeps senders others → s₁.lent = s.lent →
      Leads senders badge (g (v.operand text)) s₁ fun r s₂ =>
        s₂.Keeps senders others ∧ R r s₂.lent) :
  Leads senders badge (Shell.cut cmd v.pos >>= fun args => ctx.strtol args 1 >>= fun operand =>
    g operand.value >>= fun r => Shell.console args.delete >>= fun _ => .ret r) s fun r s' =>
      s'.Keeps senders others ∧ R r s'.lent
  := by
  apply hs.cut h (by omega) hlen
  intro part size s₁ hpart hs₁ hlent
  obtain ⟨r, hr, hvalue⟩ := Shell.exists_strtol_numberOf ctx hpart hfits
  have hoperand : v.operand text = r.value := by
    rw [hvalue, Shell.Verb.operand, if_neg (by rwa [← h.size])]
  rw [hr, ret_bind, ← hoperand]
  apply Leads.bind
  apply (hg _ s₁ hs₁ hlent).mono
  rintro a s₂ ⟨hs₂, hR⟩
  apply hs₂.free
  intro s₃ hs₃ hlent'
  rw [← hlent'] at hR
  exact ⟨hs₃, hR⟩

/-- A command with an operand does what is ordered. -/
theorem withOperand_follows {v : Shell.Verb} {body : ℤ → Shell.Command ℤ} (h : cmd.Holds text)
    (hlen : text.length < Shell.bufferSize) (hfits : CString.Fits 10 (text.drop v.pos))
    (hbody : ∀ n, n ≠ 0 → Follows EntryPoint senders badge (some (v, n)) (body n)) :
  Follows EntryPoint senders badge (some (v, v.operand text))
    (ctx.withOperand (v.pos + 1) v.pos body cmd)
  := by
  intro others s hs hmay
  unfold Shell.Context.withOperand
  split
  · rename_i hshort
    rw [h.size] at hshort
    rw [Shell.Verb.operand, if_pos hshort]
    exact ⟨hs, .nothing⟩
  rename_i hlong
  apply hs.operand (R := fun r lent => Obeys s.lent _ r lent) h hlong hlen hfits
  intro others' s₁ hs₁ hlent
  unfold Shell.Context.unlessZero
  split
  · rename_i hne
    rw [← hlent] at hmay ⊢
    exact hbody _ hne others' s₁ hs₁ hmay
  · rename_i hzero
    rw [not_not.mp hzero, ← hlent]
    exact ⟨hs₁, .nothing⟩

/-- A command with an operand that leaves the blocks alone. -/
theorem withOperand_quiet {body : ℤ → Shell.Command ℤ} (h : cmd.Holds text)
    (hlen : text.length < Shell.bufferSize) (hpos : pos ≤ minSize)
    (hfits : CString.Fits 10 (text.drop pos))
    (hbody : ∀ n, Quiet EntryPoint senders badge (body n)) :
  Quiet EntryPoint senders badge (ctx.withOperand minSize pos body cmd)
  := by
  unfold Shell.Context.withOperand
  split
  · apply Quiet.ret
  apply Quiet.cut h (by omega) hlen
  intro part size hpart
  obtain ⟨r, hr, -⟩ := Shell.exists_strtol ctx hpart (Nat.zero_le _) hfits
  rw [hr, ret_bind]
  apply Releases.bind
  · unfold Shell.Context.unlessZero
    split
    · apply hbody
    · apply Quiet.ret
  · intro a
    apply Releases.delete

/-- A line that a user types who was lent these blocks, with longs as its operands. -/
structure Orderly (lent : Book) (text : List UInt8) : Prop where
  length : text.length < Shell.bufferSize
  cuts : ¬ Shell.CutsPast text
  longs : Shell.LongOperands text
  may : May lent (Shell.order text)

/-- The branch for `thread`. -/
theorem thread_quiet (hbadge : badge ∈ senders) (h : cmd.Holds text)
    (hpre : (CString.ascii "thread").isPrefixOf text = true) (hsize : ¬ cmd.size < 8)
    (hnot : ¬ Shell.CutsPast text) (hlen : text.length < Shell.bufferSize)
    (hlongs : Shell.LongArgs (text.drop 7)) :
  Quiet EntryPoint senders badge (Shell.cut cmd 7 >>= fun args => ctx.cmdThread args >>= fun r =>
    Shell.console args.delete >>= fun _ => .ret r)
  := by
  obtain ⟨rest, rfl⟩ := List.isPrefixOf_iff_prefix.mp hpre
  have hsix : (CString.ascii "thread").length = 6 := rfl
  have htext : (CString.ascii "thread" ++ rest).length = 6 + rest.length := List.length_append
  have hlong : 8 ≤ 6 + rest.length := by rw [← htext, ← h.size]; omega
  obtain ⟨x, rest, rfl⟩ := List.exists_cons_of_length_pos (l := rest) (by omega)
  rw [Shell.cutsPast_iff] at hnot
  apply Quiet.cut h (by omega) hlen
  intro part size hpart
  have hrest : rest.length < Shell.bufferSize := by
    rw [List.length_cons] at htext
    omega
  apply Releases.bind (cmdThread_quiet hbadge hpart hnot hrest hlongs)
  intro r
  apply Releases.delete

/-- A line does what it orders. -/
theorem processNewCommand_follows (ctx : Shell.Context) (hbadge : badge ∈ senders)
    (h : cmd.Holds text) (hlen : text.length < Shell.bufferSize)
    (hcuts : ¬ Shell.CutsPast text) (hlongs : Shell.LongOperands text) :
  Follows EntryPoint senders badge (Shell.order text) (ctx.processNewCommand cmd)
  := by
  apply isText_branch "sched" h (by decide)
  · rintro rfl
    exact (cmdDebug_quiet hbadge _).follows
  apply startsWith_branch "thread" h (by decide)
  · intro hpre
    rw [Shell.order_other hpre (fun v => by cases v <;> decide)]
    apply Quiet.follows
    split
    · apply Quiet.ret
    · exact thread_quiet hbadge h hpre ‹_› hcuts hlen (hlongs.thread hpre)
  intro _
  apply isText_branch "help" h (by decide)
  · rintro rfl
    exact (Quiet.ret _).follows
  apply startsWith_branch "kmalloc" h (by decide)
  · intro hpre
    rw [Shell.order_verb (v := .kmalloc) hpre]
    exact withOperand_follows h hlen (hlongs.kmalloc hpre) fun _ => cmdKmalloc_follows hbadge
  intro hkmalloc
  apply startsWith_branch "touch" h (by decide)
  · intro hpre
    rw [Shell.order_verb (v := .touch) hpre]
    exact withOperand_follows h hlen (hlongs.touch hpre) fun _ => cmdTouch_follows
  intro htouch
  apply startsWith_branch "kfree" h (by decide)
  · intro hpre
    rw [Shell.order_verb (v := .kfree) hpre]
    exact withOperand_follows h hlen (hlongs.kfree hpre) fun _ => cmdKfree_follows hbadge
  intro hkfree
  have hnone : Shell.order text = none := by
    apply Shell.order_none
    rintro (_ | _ | _)
    · exact hkmalloc
    · exact htouch
    · exact hkfree
  rw [hnone]
  apply isText_branch "vm" h (by decide)
  · intro _
    exact (cmdDebug_quiet hbadge _).follows
  apply isText_branch "history" h (by decide)
  · intro _
    exact (Quiet.ret _).follows
  apply isText_branch "last" h (by decide)
  · intro _
    exact (Quiet.ret _).follows
  apply startsWith_branch "mmap" h (by decide)
  · intro hpre
    exact (withOperand_quiet h hlen (by decide) (hlongs.mmap hpre) (cmdMmap_quiet hbadge)).follows
  intro _
  exact (Quiet.ret _).follows

/-! ### Sessions -/

/-- What happens at the terminal: a line is handled, the shell or another thread allocates or frees
besides, or another thread sends something to the root server. -/
inductive Move where
  | line (ctx : Shell.Context) (cmd : BasicString)
  | call (c : ConsoleCall)
  | letter (l : Letter)

/-- A move leads from the one state to the other. A line is looked at when it is handled to its end,
and the strings made for it were granted. -/
def Next (senders : List ℕ) (badge : ℕ) (s : Terminal EntryPoint) :
    Move → Terminal EntryPoint → Prop
  | .line ctx cmd, s' => ∃ tr r, (∀ e ∈ tr, Shell.Granted e)
      ∧ Runs (world senders badge) s (ctx.processNewCommand cmd) tr (some r) s'
  | .call c, s' => ∃ x, consoleWorld senders s c x s'
  | .letter l, s' => Exchange senders l.sender s l.message l s' ∧ s'.lent = s.lent

/-- The moves of those who free only what is their own. -/
def Permitted (s : Terminal EntryPoint) : Move → Prop
  | .line _ cmd => ∃ text, cmd.Holds text ∧ Orderly s.lent text
  | .call (.kmalloc size) => Kmalloc.Countable size
  | .call (.kfree ptr) => ptr = 0 ∨ ∃ size, (ptr, size) ∈ Kmalloc.book s.desk.live
      ∧ (ptr, size) ∉ s.lent
  | .call (.newCommand _) => True
  | .letter l => ∀ p, l.content = .request .kFree (KFreeRequest.mk p) →
      p = 0 ∨ ∃ size, (p, size) ∈ Kmalloc.book s.desk.live ∧ (p, size) ∉ s.lent

/-- What is served to others concerns the other blocks only. -/
theorem Keeps.served_other (h : s.Keeps senders others) {content : Content} {v : Option ℕ}
    (hknows : s'.server.Knows senders)
    (hrun : Kmalloc.Run Kmalloc.Countable s'.desk.heap s'.desk.lock s'.desk.live)
    (hserves : Serves (Kmalloc.book s.desk.live) content v (Kmalloc.book s'.desk.live))
    (hown : ∀ p, content = .request .kFree (KFreeRequest.mk p) →
      p = 0 ∨ ∃ size, (p, size) ∈ Kmalloc.book s.desk.live ∧ (p, size) ∉ s.lent)
    (hlent : s'.lent = s.lent) :
  ∃ others', s'.Keeps senders others'
  := by
  obtain ⟨others', -, hperm, -⟩ := hserves.own h.run.disjoint_book
    (fun _ => ne_zero_of_mem_book) (h.book.trans List.perm_append_comm) fun p heq => by
      apply (hown p heq).imp_right
      rintro ⟨size, hin, hnot⟩
      use size
      exact (List.mem_append.mp (h.book.mem_iff.mp hin)).resolve_left hnot
  use others', hknows, hrun
  rw [hlent]
  exact hperm.trans List.perm_append_comm

/-- Whatever happens, the live blocks are those that were lent out, and others. -/
theorem Keeps.next (h : s.Keeps senders others) (hbadge : badge ∈ senders) {m : Move}
    (hm : s.Permitted m) (hnext : Next senders badge s m s') :
  ∃ others', s'.Keeps senders others'
  := by
  cases m with
  | line ctx cmd =>
      obtain ⟨text, hcmd, horderly⟩ := hm
      obtain ⟨tr, r, hgranted, hruns⟩ := hnext
      have hleads := processNewCommand_follows ctx hbadge hcmd horderly.length
        horderly.cuts horderly.longs others s h horderly.may
      obtain ⟨-, -, hkeeps, -⟩ :=
        (runs_restrict_iff.mpr ⟨hruns, hgranted⟩).of_totalFor hleads
      exact ⟨others, hkeeps⟩
  | call c =>
      obtain ⟨x, hx⟩ := hnext
      obtain ⟨server, desk, lent⟩ := s'
      cases c with
      | kmalloc size =>
          obtain ⟨⟨h', lock, count, hret, hcount, mrs, rfl⟩, rfl, hlent⟩ := hx
          obtain ⟨hrun, hserves⟩ := h.run.kmalloc_serves hm hcount hret
          exact h.served_other h.knows hrun hserves nofun hlent
      | kfree ptr =>
          obtain ⟨⟨h', lock, hret, mrs, rfl⟩, rfl, hlent⟩ := hx
          have hptr : ptr = 0 ∨ ∃ b ∈ s.desk.live, ptr = b.header + 32 := by
            apply hm.imp_right
            rintro ⟨size, hin, -⟩
            obtain ⟨b, hb, hentry⟩ := List.mem_map.mp hin
            exact ⟨b, hb, (congrArg Prod.fst hentry).symm⟩
          obtain ⟨hrun, hserves⟩ := h.run.kfree_serves hptr hret
          refine h.served_other h.knows hrun hserves ?_ hlent
          rintro p heq
          cases heq
          exact hm
      | newCommand cmd =>
          obtain rfl : _ = s := hx
          exact ⟨others, h⟩
  | letter l =>
      obtain ⟨hex, hlent⟩ := hnext
      obtain ⟨hknows, hserved⟩ := h.exchange (List.ne_nil_of_mem hbadge) hex
      obtain ⟨v, -, hserves, -⟩ := hserved.serves
      exact h.served_other hknows hserved.run hserves hm hlent

theorem Keeps.reaches (h : s.Keeps senders others) (hbadge : badge ∈ senders)
    (hreach : Steps.Reaches (Next senders badge) Permitted s s') :
  ∃ others', s'.Keeps senders others'
  := by
  apply hreach.invariant (I := fun s => ∃ others, s.Keeps senders others)
  · rintro s m s' ⟨others, hs⟩ hm hnext
    exact hs.next hbadge hm hnext
  · exact ⟨others, h⟩

/-- The state when the memory of the heap has been set up. -/
def start (server : RootServer EntryPoint) (h : Heap) (lock : BinSem) (mrs : Registers) :
    Terminal EntryPoint where
  server := server
  desk := Desk.start h lock mrs
  lent := []

variable {mem : Bytes.Mem} {head tail first size mutexNotif : ℕ} {h : Heap} {lock : BinSem}
  {server : RootServer EntryPoint} {mrs : Registers}

theorem Keeps.start (hpool : setMemoryPool (Heap.boot mem head tail) first size mutexNotif
      = some (h, lock)) (hplaced : h.Placed) (hknows : server.Knows senders) :
  (start server h lock mrs).Keeps senders []
  := ⟨hknows, .setMemoryPool hpool hplaced, List.Perm.refl _⟩

end Terminal
