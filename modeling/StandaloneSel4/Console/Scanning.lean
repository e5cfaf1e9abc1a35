import StandaloneSel4.Console.Grammar

/-!
# Scanning any text

What `strtol` does with any text in an object, in any base. It takes in as much as has been computed
from the text, and where that is nothing it looks at the bytes before the text. If what is taken in
does not stand for a `long`, `errno` is set, which in the program has no result.
-/

namespace CString

/-- The text begins with a blank or a sign, which `strtol` skips. -/
def Led (text : List UInt8) : Prop :=
  isspace (first text) ∨ first text = 0x2D ∨ first text = 0x2B

/-- The text begins with a minus sign and a plus sign, which `strtol` takes both. -/
def TwoSigns (t : List UInt8) : Prop :=
  first t = 0x2D ∧ first t.tail = 0x2B

instance (t : List UInt8) : Decidable (TwoSigns t) :=
  inferInstanceAs (Decidable (_ ∧ _))

/-- How much `strtol` takes for a sign. -/
def signLength (t : List UInt8) : ℕ :=
  if TwoSigns t then 2 else (signOf t).text.length

/-- How much `strtol` skips in front of a number. -/
def skipped (text : List UInt8) : ℕ :=
  (text.takeWhile isspace).length + signLength (behindBlanks text)

/-- The text from which on `strtol` reads a number. -/
def scanned (text : List UInt8) : List UInt8 :=
  (behindBlanks text).drop (signLength (behindBlanks text))

/-- The number that the digits stand for which `strtol` takes in. -/
def takenValue (b : ℕ) (t : List UInt8) : ℕ :=
  if (b = 16 ∨ b = 0) ∧ HexPrefix t then numeral 16 ((t.drop 2).take (run 16 (t.drop 2)))
  else if b = 16 ∧ isX (first t) then numeral 16 (t.tail.take (run 16 t.tail))
  else numeral (plainBase b t) (t.take (run (plainBase b t) t))

/-- The number that the text begins with, as `strtol` takes it in, or zero. -/
def signedValue (b : ℕ) (text : List UInt8) : ℤ :=
  (signOf (behindBlanks text)).value * takenValue b (scanned text)

/-- What `strtol` takes in stands for a `long`. -/
def Fits (b : ℕ) (text : List UInt8) : Prop :=
  takenValue b (scanned text) ≤ limit (signOf (behindBlanks text)).value

/-- The loop over the digits starts at a letter from `H` on that is no `x`, and so looks back. -/
def Looks (b : ℕ) (t : List UInt8) : Prop :=
  b = 16 ∧ Beyond t ∧ ¬ isX (first t)

instance (b : ℕ) (text : List UInt8) : Decidable (Fits b text) :=
  inferInstanceAs (Decidable (_ ≤ _))

variable {s t u text rest post pre : List UInt8} {scan : Scan} {sg : Sign} {sign base : ℤ}
  {c x y : UInt8} {b i k pos v : ℕ}

theorem exists_rest (t post : List UInt8) :
  ∃ rest, t ++ 0 :: post = first t :: rest
  := by
  cases t <;> exact ⟨_, rfl⟩

/-! ### The digits -/

/-- Behind a letter from `H` on, in front of which there is an `x`, the loop over the digits goes
back. -/
theorem readDigits_beyond (hs : s.drop pos = t ++ 0 :: post) (h : Beyond t) :
  readDigits some s 16 sign (s.drop pos) ⟨pos, 0, none⟩ = (before s pos).map fun y =>
    if isX y then ⟨pos - 1, 0, none⟩ else ⟨pos, 0, none⟩
  := by
  obtain ⟨rest, hrest⟩ := exists_rest t post
  have hne : first t ≠ 0 := by
    intro hzero
    rw [Beyond, hzero] at h
    exact absurd h (by decide)
  have hnot : ¬ (number (first t) < 16 ∧ number (first t) ≠ -1) := by
    unfold Beyond at h
    omega
  have hhex : (16 : ℤ) = 16 ∧ 16 < number (first t) := ⟨rfl, h⟩
  rw [hs, hrest, readDigits, if_neg hne, if_neg hnot, if_pos hhex]
  cases before s pos with
  | none => rfl
  | some y =>
      simp only [Option.bind_eq_bind, Option.bind_some, Option.map_some, isX, Bool.or_eq_true,
        decide_eq_true_eq]
      split <;> rfl

/-- The loop reads the run of digits that the text begins with. -/
theorem readDigits_text (sg : Sign) (hb : 2 ≤ b) (hb' : b ≤ 36) (hs : s.drop pos = t ++ 0 :: post)
    (hprev : b = 16 → Beyond t → ∃ y, before s pos = some y ∧ ¬ isX y) :
  ∃ scan, readDigits some s b sg.value (s.drop pos) ⟨pos, 0, none⟩ = some scan
    ∧ scan.pos = pos + run b t ∧ scan.Reads sg.value (numeral b (t.take (run b t)))
  := by
  obtain ⟨ds, u, rfl, hlen, hds, hu⟩ := exists_run b t
  obtain ⟨rest, hrest⟩ := exists_rest u post
  have hds' : ∀ x ∈ ds, IsDigit b x := fun x hx => digitOf_iff.mp (hds x hx)
  have hs' : s.drop pos = ds ++ first u :: rest := by
    rw [hs, List.append_assoc, hrest]
  obtain ⟨scan, hread, hpos, hreads⟩ := readDigits_run sg hb hb' hs' hds'
      (fun h => hu (digitOf_iff.mpr h)) <| by
    intro hb16 hlt
    cases ds with
    | nil => exact hprev hb16 hlt
    | cons x ds =>
        refine ⟨_, before_append hs' (List.cons_ne_nil x ds), ?_⟩
        intro hlast
        have hdigit := hds _ (List.getLast_mem (List.cons_ne_nil x ds))
        exact not_digitOf_isX (by omega) hlast hdigit
  refine ⟨scan, hread, by rw [hpos, hlen], ?_⟩
  rw [valueFrom_eq_numeral hds] at hreads
  rwa [← hlen, List.take_left]

/-- Behind an `x` the loop goes on, or goes back. -/
theorem readDigits_behind (sg : Sign) (hk : 0 < k) (hs : s.drop (pos + k) = t ++ 0 :: post)
    (hx : before s (pos + k) = some x) (hisX : isX x) :
  ∃ scan, readDigits some s 16 sg.value (s.drop (pos + k)) ⟨pos + k, 0, none⟩ = some scan
    ∧ scan.pos = pos + takenBehind k t ∧ scan.Reads sg.value (numeral 16 (t.take (run 16 t)))
  := by
  unfold takenBehind
  by_cases hbeyond : Beyond t
  · rw [if_pos hbeyond]
    refine ⟨⟨pos + k - 1, 0, none⟩, ?_, Nat.add_sub_assoc hk pos, ?_⟩
    · rw [readDigits_beyond hs hbeyond, hx, Option.map_some, if_pos hisX]
    · rw [run_of_beyond hbeyond, List.take_zero]
      apply reads_zero
  · rw [if_neg hbeyond]
    obtain ⟨scan, hread, hpos, hreads⟩ := readDigits_text sg (b := 16) (by decide) (by decide)
      hs (fun _ h => absurd h hbeyond)
    exact ⟨scan, hread, by rw [hpos, Nat.add_assoc], hreads⟩

/-- The prefix of the base 16 is skipped. -/
theorem readBase_hex (hb : base = 16 ∨ base = 0) (hx : isX x)
    (hs : s.drop pos = 0x30 :: x :: u) :
  readBase s base pos = some (16, pos + 2)
  := by
  have hs' : s.drop (pos + 1) = x :: u := drop_of_append (t := [0x30]) hs
  unfold readBase
  rcases hb with rfl | rfl
  · have h0 : ¬ (16 : ℤ) = 0 := by decide
    rw [isX] at hx
    simp only [if_true, if_neg h0, skipIf_of_drop hs, decide_true, skipIf_of_drop hs', if_pos hx,
      Option.bind_eq_bind, Option.bind_some]
    rfl
  · have h16 : ¬ (0 : ℤ) = 16 := by decide
    have h8 : ¬ (0 : ℤ) = 8 := by decide
    have hx' : x = 0x78 ∨ x = 0x58 := by simpa [isX] using hx
    simp only [if_neg h16, if_neg h8, if_true, get_of_drop hs, get_of_drop hs',
      Option.bind_eq_bind, Option.bind_some, if_pos hx']
    rfl

/-- In the base 16 the `x` of a prefix is skipped even if there is no zero before. -/
theorem readBase_x (hx : isX x) (hs : s.drop pos = x :: u) :
  readBase s 16 pos = some (16, pos + 1)
  := by
  have h0 : ¬ (16 : ℤ) = 0 := by decide
  have hzero : ¬ decide (x = 0x30) := by
    rintro h
    obtain rfl : x = 0x30 := by simpa using h
    cases hx
  rw [isX] at hx
  unfold readBase
  simp only [if_true, if_neg h0, skipIf_of_drop hs, if_neg hzero, if_pos hx, Option.bind_eq_bind,
    Option.bind_some]
  rfl

/-- The base in which a text is read is one. -/
theorem plainBase_valid (hb : IsBase b) (t : List UInt8) :
  2 ≤ plainBase b t ∧ plainBase b t ≤ 36
  := by
  rcases hb with rfl | hb
  · unfold plainBase
    split <;> first | (split <;> decide) | omega
  · rwa [plainBase, if_neg (by omega)]

theorem run_zero (hb : 2 ≤ b) (u : List UInt8) :
  run b (0x30 :: u) = 1 + run b u
  := by
  have hdigit : DigitOf b 0x30 := digitOf_zero (by omega)
  have htake := List.takeWhile_cons_of_pos (p := fun c => decide (DigitOf b c)) (l := u)
    (decide_eq_true hdigit)
  rw [run, htake, List.length_cons, Nat.add_comm]
  rfl

/-- A zero in front changes nothing. -/
theorem numeral_zero (b : ℕ) (ds : List UInt8) :
  numeral b (0x30 :: ds) = numeral b ds
  := by
  unfold numeral
  rw [List.reverse_cons, List.map_append, Nat.ofDigits_append]
  exact Nat.add_zero _

/-- Where nothing is taken in, that is zero. -/
theorem takenValue_eq_zero (h : taken b t = 0) :
  takenValue b t = 0
  := by
  have hnone : ∀ {b'} {u : List UInt8}, run b' u = 0 → numeral b' (u.take (run b' u)) = 0 := by
    intro b' u hrun
    rw [hrun]
    rfl
  have hbehind : ∀ {k} {u : List UInt8}, takenBehind k u = 0 → run 16 u = 0 := by
    intro k u hzero
    unfold takenBehind at hzero
    split at hzero
    · rename_i hbeyond
      apply run_of_beyond hbeyond
    · omega
  unfold taken at h
  unfold takenValue
  split_ifs at h ⊢
  · exact hnone (hbehind h)
  · exact hnone (hbehind h)
  · exact hnone h

/-- A zero that may begin a prefix, but does not begin that of the base 16, is skipped, and the rest
of the run is read. -/
theorem exists_scan_zero (hb : b = 16 ∨ b = 8 ∨ b = 0) (hs : s.drop pos = 0x30 :: u ++ 0 :: post)
    (hhex : ¬ ((b = 16 ∨ b = 0) ∧ HexPrefix (0x30 :: u))) :
  ∃ (b' pos' : ℕ) (scan : Scan), 2 ≤ b' ∧ b' ≤ 36 ∧ readBase s b pos = some ((b' : ℤ), pos')
    ∧ readDigits some s b' sg.value (s.drop pos') ⟨pos', 0, none⟩ = some scan
    ∧ scan.pos = pos + run (plainBase b (0x30 :: u)) (0x30 :: u)
    ∧ scan.Reads sg.value (numeral (plainBase b (0x30 :: u))
        ((0x30 :: u).take (run (plainBase b (0x30 :: u)) (0x30 :: u))))
  := by
  obtain ⟨rest, hrest⟩ := exists_rest u post
  have hs' : s.drop pos = 0x30 :: first u :: rest := by
    rw [hs, List.cons_append, hrest]
  have hs₁ : s.drop (pos + 1) = u ++ 0 :: post := drop_of_append (t := [0x30]) hs
  have hvalid : IsBase b := by
    unfold IsBase
    omega
  obtain ⟨hlo, hhi⟩ := plainBase_valid hvalid (0x30 :: u)
  have hbefore : before s (pos + 1) = some 0x30 :=
    before_append (show s.drop pos = [0x30] ++ _ from hs) (List.cons_ne_nil _ _)
  obtain ⟨scan, hread, hpos, hreads⟩ := readDigits_text sg hlo hhi hs₁
    (fun _ _ => ⟨_, hbefore, by decide⟩)
  refine ⟨plainBase b (0x30 :: u), pos + 1, scan, hlo, hhi, ?_, hread, ?_, ?_⟩
  · have hbase : (b : ℤ) = 8 ∨ ((b : ℤ) = 16 ∨ (b : ℤ) = 0) ∧ ¬ isX (first u) := by
      by_cases h8 : b = 8
      · exact .inl (by omega)
      · exact .inr ⟨by omega, fun h => hhex ⟨by omega, rfl, h⟩⟩
    rw [readBase_zero hs' hbase, plainBase]
    rcases hb with rfl | rfl | rfl <;> rfl
  · rw [run_zero hlo, hpos]
    omega
  · rwa [run_zero hlo, Nat.add_comm, List.take_succ_cons, numeral_zero]

/-- Without a prefix of the base 16 the run of digits is read, whether a zero is skipped first or
not. -/
theorem exists_scan_plain (hb : IsBase b) (hs : s.drop pos = t ++ 0 :: post)
    (hhex : ¬ ((b = 16 ∨ b = 0) ∧ HexPrefix t)) (hx : ¬ (b = 16 ∧ isX (first t)))
    (hlook : Looks b t → ∃ y, before s pos = some y ∧ ¬ isX y) :
  ∃ (b' pos' : ℕ) (scan : Scan), 2 ≤ b' ∧ b' ≤ 36 ∧ readBase s b pos = some ((b' : ℤ), pos')
    ∧ readDigits some s b' sg.value (s.drop pos') ⟨pos', 0, none⟩ = some scan
    ∧ scan.pos = pos + run (plainBase b t) t
    ∧ scan.Reads sg.value (numeral (plainBase b t) (t.take (run (plainBase b t) t)))
  := by
  by_cases hzero : (b = 16 ∨ b = 8 ∨ b = 0) ∧ first t = 0x30
  · obtain ⟨hb16, hzero⟩ := hzero
    obtain ⟨u, hu⟩ := exists_cons_of_first (t := t) (by rw [hzero]; decide)
    rw [hzero] at hu
    obtain rfl := hu
    apply exists_scan_zero hb16 hs hhex
  · obtain ⟨rest, hrest⟩ := exists_rest t post
    have hs' : s.drop pos = first t :: rest := by rw [hs, hrest]
    have hnone : readBase s b pos = some (if (b : ℤ) = 0 then 10 else (b : ℤ), pos) :=
      readBase_none hs' (fun hb h0 => hzero ⟨by omega, h0⟩) (fun hb h => hx ⟨by omega, h⟩)
    have hbase : (if (b : ℤ) = 0 then 10 else (b : ℤ)) = plainBase b t := by
      unfold plainBase
      by_cases h0 : b = 0
      · rw [if_pos (by omega), if_pos h0, if_neg fun h => hzero ⟨.inr (.inr h0), h⟩]
        rfl
      · rw [if_neg (by omega), if_neg h0]
    obtain ⟨hlo, hhi⟩ := plainBase_valid hb t
    obtain ⟨scan, hread, hpos, hreads⟩ := readDigits_text sg hlo hhi hs <| by
      intro hb16 hbeyond
      have hb : b = 16 := by
        unfold plainBase at hb16
        split at hb16
        · split at hb16 <;> omega
        · exact hb16
      exact hlook ⟨hb, hbeyond, fun h => hx ⟨hb, h⟩⟩
    rw [hbase] at hnone
    exact ⟨_, pos, scan, hlo, hhi, hnone, hread, hpos, hreads⟩

/-- Behind the sign as much is taken in as has been computed from the text. -/
theorem exists_scan (sg : Sign) (hb : IsBase b) (hs : s.drop pos = t ++ 0 :: post)
    (hlook : Looks b t → ∃ y, before s pos = some y ∧ ¬ isX y) :
  ∃ (b' pos' : ℕ) (scan : Scan), 2 ≤ b' ∧ b' ≤ 36 ∧ readBase s b pos = some ((b' : ℤ), pos')
    ∧ readDigits some s b' sg.value (s.drop pos') ⟨pos', 0, none⟩ = some scan
    ∧ scan.pos = pos + taken b t ∧ scan.Reads sg.value (takenValue b t)
  := by
  unfold taken takenValue
  by_cases hhex : (b = 16 ∨ b = 0) ∧ HexPrefix t
  · rw [if_pos hhex, if_pos hhex]
    obtain ⟨x, u, rfl, hx⟩ := hhex.2.exists_cons
    have hs' : s.drop (pos + 2) = u ++ 0 :: post := drop_of_append (t := [0x30, x]) hs
    have hbefore : before s (pos + 2) = some x :=
      before_append (show s.drop pos = [0x30, x] ++ _ from hs) (List.cons_ne_nil _ _)
    obtain ⟨scan, hread, hpos, hreads⟩ :=
      readDigits_behind sg (by decide) hs' hbefore hx
    have hbase : (b : ℤ) = 16 ∨ (b : ℤ) = 0 := by omega
    exact ⟨16, pos + 2, scan, by decide, by decide, readBase_hex hbase hx hs, hread, hpos,
      hreads⟩
  · rw [if_neg hhex, if_neg hhex]
    by_cases hX : b = 16 ∧ isX (first t)
    · rw [if_pos hX, if_pos hX]
      obtain ⟨rfl, hx⟩ := hX
      obtain ⟨x, u, rfl, hx⟩ := exists_cons_of_isX hx
      have hs' : s.drop (pos + 1) = u ++ 0 :: post := drop_of_append (t := [x]) hs
      have hbefore : before s (pos + 1) = some x :=
        before_append (show s.drop pos = [x] ++ _ from hs) (List.cons_ne_nil _ _)
      obtain ⟨scan, hread, hpos, hreads⟩ :=
        readDigits_behind sg (by decide) hs' hbefore hx
      exact ⟨16, pos + 1, scan, by decide, by decide, readBase_x hx hs, hread, hpos, hreads⟩
    · rw [if_neg hX, if_neg hX]
      apply exists_scan_plain hb hs hhex hX hlook

/-! ### The sign and the blanks -/

theorem TwoSigns.exists_cons (h : TwoSigns t) :
  ∃ u, t = 0x2D :: 0x2B :: u
  := by
  obtain ⟨hminus, hplus⟩ := h
  obtain ⟨u, hu⟩ := exists_cons_of_first (t := t) (by rw [hminus]; decide)
  rw [hminus] at hu
  rw [hu, List.tail_cons] at hplus
  obtain ⟨u', hu'⟩ := exists_cons_of_first (t := u) (by rw [hplus]; decide)
  rw [hplus] at hu'
  exact ⟨u', by rw [hu, hu']⟩

/-- Behind a sign there is no other sign that could be taken for its own. -/
theorem first_behindSign (h : ¬ TwoSigns t) :
  (signOf t = .absent → first (behindSign t) ≠ 0x2D)
    ∧ (signOf t ≠ .plus → first (behindSign t) ≠ 0x2B)
  := by
  unfold behindSign signOf
  by_cases hminus : first t = 0x2D
  · rw [if_pos hminus]
    refine ⟨nofun, fun _ hplus => h ⟨hminus, ?_⟩⟩
    rwa [Sign.text, List.length_singleton, List.drop_one] at hplus
  · rw [if_neg hminus]
    by_cases hplus : first t = 0x2B
    · rw [if_pos hplus]
      exact ⟨nofun, fun h => absurd rfl h⟩
    · rw [if_neg hplus]
      exact ⟨fun _ => hminus, fun _ => hplus⟩

theorem readSign_first (hs : s.drop pos = t ++ 0 :: post) :
  readSign s pos = some ((signOf t).value, pos + signLength t)
    ∧ s.drop (pos + signLength t) = t.drop (signLength t) ++ 0 :: post
  := by
  unfold signLength
  by_cases htwo : TwoSigns t
  · rw [if_pos htwo]
    obtain ⟨u, rfl⟩ := htwo.exists_cons
    have hs' : s.drop (pos + 1) = 0x2B :: (u ++ 0 :: post) := drop_of_append (t := [0x2D]) hs
    refine ⟨?_, drop_of_append (t := [0x2D, 0x2B]) hs⟩
    unfold readSign
    simp only [get_of_drop hs, Option.bind_eq_bind, Option.bind_some, if_true,
      skipIf_of_drop hs', decide_true]
    rfl
  · rw [if_neg htwo]
    obtain ⟨rest, hrest⟩ := exists_rest (behindSign t) post
    have hs' : s.drop pos = (signOf t).text ++ first (behindSign t) :: rest := by
      rw [← hrest, ← List.append_assoc, ← signOf_append, hs]
    obtain ⟨hminus, hplus⟩ := first_behindSign htwo
    refine ⟨readSign_text hs' hminus hplus, ?_⟩
    rw [drop_of_append hs', ← hrest]
    rfl

theorem isspace_first_behindBlanks (text : List UInt8) :
  ¬ isspace (first (behindBlanks text))
  := by
  intro hspace
  have hne : text.dropWhile isspace ≠ [] := by
    intro hnil
    rw [behindBlanks, hnil] at hspace
    cases hspace
  have hhead := List.head_dropWhile_not isspace hne
  rw [first, behindBlanks, List.headD_eq_head?_getD, List.head?_eq_some_head hne,
    Option.getD_some, hhead] at hspace
  cases hspace

/-- The text is blanks, signs, and what is scanned. -/
theorem skipped_append (text : List UInt8) :
  text = text.takeWhile isspace
    ++ ((behindBlanks text).take (signLength (behindBlanks text)) ++ scanned text)
  := by
  rw [scanned, List.take_append_drop]
  exact List.takeWhile_append_dropWhile.symm

theorem mem_takeWhile_isspace (text : List UInt8) :
  ∀ x ∈ text.takeWhile isspace, isspace x
  := fun x hx => List.all_eq_true.mp List.all_takeWhile x hx

/-- What is skipped behind the blanks are signs. -/
theorem take_signLength (t : List UInt8) :
  (t.take (signLength t)).length = signLength t
    ∧ ∀ c ∈ t.take (signLength t), c = 0x2D ∨ c = 0x2B
  := by
  unfold signLength
  by_cases htwo : TwoSigns t
  · rw [if_pos htwo]
    obtain ⟨u, rfl⟩ := htwo.exists_cons
    exact ⟨rfl, by simp⟩
  · rw [if_neg htwo]
    have hsigned : (signOf t).text <+: t := ⟨_, (signOf_append t).symm⟩
    rw [← List.prefix_iff_eq_take.mp hsigned]
    refine ⟨rfl, ?_⟩
    cases signOf t <;> simp [Sign.text]

theorem signLength_pos_iff :
  0 < signLength t ↔ first t = 0x2D ∨ first t = 0x2B
  := by
  unfold signLength signOf
  by_cases htwo : TwoSigns t
  · rw [if_pos htwo]
    exact iff_of_true (by decide) (.inl htwo.1)
  · rw [if_neg htwo]
    by_cases hminus : first t = 0x2D
    · simp [hminus, Sign.text]
    · by_cases hplus : first t = 0x2B <;> simp [hminus, hplus, Sign.text]

theorem skipped_pos_iff :
  0 < skipped text ↔ Led text
  := by
  cases text with
  | nil => exact iff_of_false (by decide) (by simp [Led, first, isspace])
  | cons c u =>
      unfold skipped Led behindBlanks
      by_cases hspace : isspace c
      · rw [List.takeWhile_cons_of_pos hspace, List.length_cons]
        exact iff_of_true (by omega) (.inl hspace)
      · rw [List.takeWhile_cons_of_neg hspace, List.dropWhile_cons_of_neg hspace, List.length_nil,
          Nat.zero_add, signLength_pos_iff]
        exact (or_iff_right hspace).symm

theorem scanned_of_skipped (h : skipped text = 0) :
  scanned text = text
  := by
  have hle : (text.takeWhile isspace).length = 0 ∧ signLength (behindBlanks text) = 0 := by
    unfold skipped at h
    omega
  have hnil : text.takeWhile isspace = [] := List.length_eq_zero_iff.mp hle.1
  conv_rhs => rw [skipped_append text]
  rw [hnil, hle.2]
  rfl

/-- Before what is scanned there is a blank or a sign if something has been skipped. -/
theorem exists_before_scanned (hs : s.drop i = text ++ 0 :: post) (h : 0 < skipped text) :
  ∃ y, before s (i + skipped text) = some y ∧ ¬ isX y ∧ ¬ (isdigit y ∨ isalpha y)
  := by
  obtain ⟨hlen, hsigns⟩ := take_signLength (behindBlanks text)
  have hskipped : (text.takeWhile isspace
      ++ (behindBlanks text).take (signLength (behindBlanks text))).length = skipped text := by
    rw [List.length_append, hlen, skipped]
  have hne := List.ne_nil_of_length_pos (hskipped ▸ h)
  have hs' : s.drop i = (text.takeWhile isspace
      ++ (behindBlanks text).take (signLength (behindBlanks text)))
        ++ (scanned text ++ 0 :: post) := by
    rw [hs]
    conv_lhs => rw [skipped_append text]
    simp only [List.append_assoc]
  have hlast := before_append hs' hne
  rw [hskipped] at hlast
  refine ⟨_, hlast, ?_⟩
  have hcase : ∀ y, isspace y ∨ y = 0x2D ∨ y = 0x2B → ¬ isX y ∧ ¬ (isdigit y ∨ isalpha y) := by
    intro y hy
    simp only [isspace, Bool.or_eq_true, decide_eq_true_eq] at hy
    rcases hy with (rfl | rfl) | rfl | rfl <;> decide
  apply hcase
  rcases List.mem_append.mp (List.getLast_mem hne) with hmem | hmem
  · exact .inl (mem_takeWhile_isspace text _ hmem)
  · exact .inr (hsigns _ hmem)

/-- The blanks and the sign are skipped. -/
theorem exists_readSign_text (hs : s.drop i = text ++ 0 :: post) :
  ∃ pos₁ : ℕ, skipBlanks (s.drop i) i = some pos₁
    ∧ readSign s pos₁ = some ((signOf (behindBlanks text)).value, i + skipped text)
    ∧ s.drop (i + skipped text) = scanned text ++ 0 :: post
  := by
  have hsplit : text = text.takeWhile isspace ++ behindBlanks text :=
    List.takeWhile_append_dropWhile.symm
  obtain ⟨rest, hrest⟩ := exists_rest (behindBlanks text) post
  have hs₁ : s.drop i = text.takeWhile isspace ++ (behindBlanks text ++ 0 :: post) := by
    rw [hs, ← List.append_assoc, ← hsplit]
  obtain ⟨hsign, hs₂⟩ := readSign_first (drop_of_append hs₁)
  have hskip : skipBlanks (s.drop i) i = some (i + (text.takeWhile isspace).length) := by
    rw [hs₁, hrest]
    apply skipBlanks_append (mem_takeWhile_isspace text) (isspace_first_behindBlanks text)
  refine ⟨_, hskip, ?_, ?_⟩
  · rw [hsign, skipped, Nat.add_assoc]
  · rw [skipped, ← Nat.add_assoc, hs₂, scanned]

/-! ### The whole conversion -/

/-- Where the loop looks back nothing is taken in. -/
theorem Looks.taken_eq_zero (h : Looks b t) :
  taken b t = 0
  := by
  obtain ⟨rfl, hbeyond, hx⟩ := h
  have hhex : ¬ HexPrefix t := by
    rintro ⟨h0, -⟩
    rw [Beyond, h0] at hbeyond
    exact absurd hbeyond (by decide)
  rw [taken, if_neg fun h => hhex h.2, if_neg fun h => hx h.2]
  apply run_of_beyond hbeyond

/-- There is a first character. -/
theorem first_of_ne_nil (htext : ∀ c ∈ text, c ≠ 0) (hne : text ≠ [])
    (hs : s.drop i = text ++ 0 :: post) :
  s[i]? = some (first text) ∧ first text ≠ 0
  := by
  obtain ⟨c, u, rfl⟩ := List.exists_cons_of_ne_nil hne
  exact ⟨get_of_drop hs, htext c List.mem_cons_self⟩

/-- What `strtol` finds in a text, where the bytes before the text are not looked at, or do not
lead astray. Behind what has been taken in is the end, if something has; otherwise the start is.
Only what does not stand for a `long` sets `errno`. -/
theorem strtol_text (hb : IsBase b) (htext : ∀ c ∈ text, c ≠ 0) (hne : text ≠ [])
    (hs : s.drop i = text ++ 0 :: post)
    (hbefore : skipped text = 0 → taken b text = 0 →
      ∃ y, before s i = some y ∧ (Looks b text → ¬ isX y)) :
  ∃ r, strtolWith some s i b = some r
    ∧ (if taken b (scanned text) = 0 then r.value = 0 ∧ r.endPtr = some i
      else r.endPtr = some (i + skipped text + taken b (scanned text)))
    ∧ (r.errno = none ↔ Fits b text) ∧ (Fits b text → r.value = signedValue b text)
  := by
  obtain ⟨hc, hc0⟩ := first_of_ne_nil htext hne hs
  obtain ⟨pos₁, hskip, hsign, hs'⟩ := exists_readSign_text hs
  have hlook : Looks b (scanned text) → ∃ y, before s (i + skipped text) = some y ∧ ¬ isX y := by
    intro hlooks
    by_cases hzero : skipped text = 0
    · rw [scanned_of_skipped hzero] at hlooks
      obtain ⟨y, hy, hx⟩ := hbefore hzero hlooks.taken_eq_zero
      exact ⟨y, by rwa [hzero], hx hlooks⟩
    · obtain ⟨y, hy, hx, -⟩ := exists_before_scanned hs (Nat.pos_of_ne_zero hzero)
      exact ⟨y, hy, hx⟩
  obtain ⟨b', pos', scan, hlo, hhi, hbase, hread, hpos, hreads⟩ := exists_scan _ hb hs' hlook
  have herrno : scan.errno = none ↔ Fits b text := hreads.errno_eq_none_iff
  have hvalue : Fits b text → scan.sum = signedValue b text := by
    intro hfits
    rw [hreads.sum, Nat.min_eq_left hfits, signedValue]
  rw [strtol_eq hc hc0 hskip hsign hbase hlo hhi, hread, Option.bind_some, hpos]
  by_cases hk : taken b (scanned text) = 0
  · simp only [if_pos hk]
    have hsum : scan.sum = 0 := by
      rw [hreads.sum, takenValue_eq_zero hk, Nat.zero_min]
      apply Int.mul_zero
    rw [hk, Nat.add_zero]
    by_cases hzero : skipped text = 0
    · rw [scanned_of_skipped hzero] at hk
      obtain ⟨y, hy, -⟩ := hbefore hzero hk
      rw [hzero, Nat.add_zero, hy, Option.map_some, ite_self]
      exact ⟨_, rfl, ⟨hsum, rfl⟩, herrno, hvalue⟩
    · obtain ⟨y, hy, -, halnum⟩ := exists_before_scanned hs (Nat.pos_of_ne_zero hzero)
      rw [hy, Option.map_some, if_neg halnum]
      exact ⟨_, rfl, ⟨hsum, rfl⟩, herrno, hvalue⟩
  · simp only [if_neg hk]
    have hlen : ((scanned text).take (taken b (scanned text))).length
        = taken b (scanned text) := List.length_take_of_le taken_le_length
    have hne : (scanned text).take (taken b (scanned text)) ≠ [] := by
      apply List.ne_nil_of_length_pos
      omega
    have hs'' : s.drop (i + skipped text) = (scanned text).take (taken b (scanned text))
        ++ ((scanned text).drop (taken b (scanned text)) ++ 0 :: post) := by
      rw [hs', ← List.append_assoc, List.take_append_drop]
    have hlast := before_append hs'' hne
    rw [hlen] at hlast
    rw [hlast, Option.map_some, if_pos (taken_alnum _ (List.getLast_mem hne))]
    exact ⟨_, rfl, rfl, herrno, hvalue⟩

/-- What `strtol` finds where the loop over the digits starts with looking back. -/
theorem strtol_looks (htext : ∀ c ∈ text, c ≠ 0) (hs : s.drop i = text ++ 0 :: post)
    (hskipped : skipped text = 0) (hlooks : Looks b text) :
  strtolWith some s i b = (before s i).bind fun y =>
    (before s (if isX y then i - 1 else i)).map fun z =>
      ⟨0, some (if isdigit z ∨ isalpha z then if isX y then i - 1 else i else i), none⟩
  := by
  obtain ⟨rfl, hbeyond, hx⟩ := hlooks
  have hfirst : first text ≠ 0 ∧ first text ≠ 0x30 := by
    constructor <;> intro h <;> rw [Beyond, h] at hbeyond <;> exact absurd hbeyond (by decide)
  obtain ⟨u, hu⟩ := exists_cons_of_first hfirst.1
  obtain ⟨hc, hc0⟩ := first_of_ne_nil htext (by rw [hu]; exact List.cons_ne_nil _ _) hs
  obtain ⟨pos₁, hskip, hsign, hs'⟩ := exists_readSign_text hs
  rw [scanned_of_skipped hskipped, hskipped, Nat.add_zero] at hs'
  rw [hskipped, Nat.add_zero] at hsign
  obtain ⟨rest, hrest⟩ := exists_rest text post
  have hbase : readBase s (16 : ℕ) i = some (((16 : ℕ) : ℤ), i) :=
    readBase_none (by rw [hs, hrest]) (fun _ => hfirst.2) (fun _ => hx)
  rw [strtol_eq hc hc0 hskip hsign hbase (by decide) (by decide)]
  change (readDigits some s 16 _ (s.drop i) _).bind _ = _
  rw [readDigits_beyond hs hbeyond]
  cases before s i with
  | none => rfl
  | some y =>
      rw [Option.map_some, Option.bind_some, Option.bind_some]
      by_cases hy : isX y <;> simp only [hy, if_true, if_false, Bool.false_eq_true, ite_self]

/-- Where nothing is skipped nor taken in, there has to be a byte before the text. -/
theorem strtol_eq_none (hb : IsBase b) (htext : ∀ c ∈ text, c ≠ 0) (hne : text ≠ [])
    (hs : s.drop i = text ++ 0 :: post) (hskipped : skipped text = 0) (hk : taken b text = 0)
    (hbefore : before s i = none) :
  strtolWith some s i b = none
  := by
  by_cases hlooks : Looks b text
  · rw [strtol_looks htext hs hskipped hlooks, hbefore]
    rfl
  · obtain ⟨hc, hc0⟩ := first_of_ne_nil htext hne hs
    obtain ⟨pos₁, hskip, hsign, hs'⟩ := exists_readSign_text hs
    rw [scanned_of_skipped hskipped, hskipped, Nat.add_zero] at hs'
    rw [hskipped, Nat.add_zero] at hsign
    obtain ⟨b', pos', scan, hlo, hhi, hbase, hread, hpos, -⟩ :=
      exists_scan _ hb hs' (fun h => absurd h hlooks)
    rw [strtol_eq hc hc0 hskip hsign hbase hlo hhi, hread, Option.bind_some, hpos, hk,
      Nat.add_zero, hbefore]
    rfl

/-- Other bases are refused. -/
theorem strtol_einval (hbase : (base < 2 ∨ 36 < base) ∧ base ≠ 0) (htext : ∀ c ∈ text, c ≠ 0)
    (hne : text ≠ []) (hs : s.drop i = text ++ 0 :: post) :
  strtolWith some s i base = some ⟨0, none, some .einval⟩
  := by
  obtain ⟨hc, hc0⟩ := first_of_ne_nil htext hne hs
  obtain ⟨pos₁, hskip, hsign, hs'⟩ := exists_readSign_text hs
  obtain ⟨rest, hrest⟩ := exists_rest (scanned text) post
  rw [hrest] at hs'
  have hread : readBase s base (i + skipped text) = some (base, i + skipped text) := by
    rw [readBase_none hs' (by omega) (by omega), if_neg hbase.2]
  unfold strtolWith
  simp only [hc, if_neg hc0, hskip, hsign, hread, if_pos hbase, Option.bind_eq_bind,
    Option.bind_some]
  rfl

/-- Where nothing is taken in, no `long` is too small. -/
theorem fits_of_taken (h : taken b (scanned text) = 0) :
  Fits b text
  := by
  rw [Fits, takenValue_eq_zero h]
  apply Nat.zero_le

/-! ### Decimal operands -/

/-- How far `strtol` reads. -/
def readLength (b : ℕ) (text : List UInt8) : ℕ :=
  if taken b (scanned text) = 0 then 0 else skipped text + taken b (scanned text)

theorem readLength_le_length :
  readLength b text ≤ text.length
  := by
  have hlength := congrArg List.length (skipped_append text)
  have htaken := taken_le_length (b := b) (t := scanned text)
  rw [List.length_append, List.length_append, (take_signLength _).1] at hlength
  unfold readLength skipped
  split <;> omega

/-- In decimal a text that ends, with a byte before it, is converted. If it is empty, the end
pointer is left as it was; otherwise it points behind what is read. -/
theorem strtolWith_ten (hi : 0 < i) (htext : ∀ c ∈ text, c ≠ 0)
    (hs : s.drop i = text ++ 0 :: post) :
  ∃ r, strtolWith some s i 10 = some r
    ∧ r.endPtr = (if text = [] then none else some (i + readLength 10 text))
    ∧ (r.errno = none ↔ Fits 10 text) ∧ (Fits 10 text → r.value = signedValue 10 text)
  := by
  by_cases hne : text = []
  · obtain rfl := hne
    rw [strtolWith, get_of_drop hs]
    exact ⟨_, rfl, rfl, iff_of_true rfl (fits_of_taken rfl), fun _ => rfl⟩
  · have hlt : i < s.length := by
      by_contra hle
      rw [List.drop_of_length_le (Nat.not_lt.mp hle)] at hs
      exact List.append_ne_nil_of_left_ne_nil hne _ hs.symm
    have hbefore : before s i = some s[i - 1] := by
      rw [before, if_neg (by omega)]
      apply List.getElem?_eq_getElem
    obtain ⟨r, hr, hfound, hread⟩ := strtol_text (b := 10) (.inr (by decide)) htext hne hs
      fun _ _ => ⟨_, hbefore, fun hlooks => absurd hlooks.1 (by decide)⟩
    refine ⟨r, hr, ?_, hread⟩
    rw [if_neg hne, readLength]
    split_ifs at hfound ⊢
    · exact hfound.2
    · rw [hfound, Nat.add_assoc]

/-- So it is in the program, if what is read is a `long`. -/
theorem exists_strtol_ten (hi : 0 < i) (htext : ∀ c ∈ text, c ≠ 0)
    (hs : s.drop i = text ++ 0 :: post) (hfits : Fits 10 text) :
  ∃ r, strtol s i 10 = some r ∧ r.value = signedValue 10 text
    ∧ r.endPtr = if text = [] then none else some (i + readLength 10 text)
  := by
  obtain ⟨r, hr, hend, herrno, hvalue⟩ := strtolWith_ten hi htext hs
  exact ⟨r, strtol_eq_some_iff.mpr ⟨hr, herrno.mpr hfits⟩, hvalue hfits, hend⟩

/-- Otherwise there is no result. -/
theorem strtol_ten_eq_none (hi : 0 < i) (htext : ∀ c ∈ text, c ≠ 0)
    (hs : s.drop i = text ++ 0 :: post) (hfits : ¬ Fits 10 text) :
  strtol s i 10 = none
  := by
  obtain ⟨r, hr, -, herrno, -⟩ := strtolWith_ten hi htext hs
  rw [strtol_eq_filter, hr]
  apply Option.filter_some_neg
  exact decide_eq_false (mt herrno.mp hfits)

end CString
