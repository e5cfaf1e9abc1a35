import StandaloneSel4.Console.Scanning

/-!
# What is accepted, and what is read

The texts in which `strtol` finds the longest number that they begin with, and those of which it
reads nothing but the characters and the terminator.
-/

namespace CString

/-- `strtol`, which looks at the byte before the text, finds one there, and is not led to look at
yet another one, or does not take that for the end of a number. -/
def LooksBack (b : ℕ) (pre text : List UInt8) : Prop :=
  ∃ pre' y, pre = pre' ++ [y] ∧
    (isX y → Looks b text → ∃ pre'' z, pre' = pre'' ++ [z] ∧ ¬ (isdigit z ∨ isalpha z))

/-- The texts, behind other bytes, of which `strtol`, with an `errno`, makes what the grammar makes
of them. -/
structure Ordinary (b : ℕ) (pre text : List UInt8) : Prop where
  ne_nil : text ≠ []
  one_sign : ∀ u, behindBlanks text = 0x2D :: 0x2B :: u → ¬ Begins b u
  no_hanging : ¬ Hangs b (behindSign (behindBlanks text))
  before : ¬ Led text → ¬ Begins b text → LooksBack b pre text

/-- In the program the text has to stand for a `long` besides. -/
structure Regular (b : ℕ) (pre text : List UInt8) : Prop extends Ordinary b pre text where
  fits : Fits b text

/-- In an object that is the text alone `strtol`, with an `errno`, comes to a result: it reads
nothing but the characters of the text and its terminator. In the program it reads no more. -/
def ReadsText (text : List UInt8) (base : ℤ) : Prop :=
  (strtolWith some (text ++ [0]) 0 base).isSome

variable {s text pre post : List UInt8} {u : List UInt8} {base : ℤ} {b i : ℕ} {y z : UInt8}
  {r : Converted}

/-! ### Accepting -/

/-- Behind two signs there is no number. -/
theorem numberLength_two_signs (h : behindBlanks text = 0x2D :: 0x2B :: u) :
  numberLength b (behindSign (behindBlanks text)) = 0 ∧ ¬ Hangs b (behindSign (behindBlanks text))
    ∧ scanned text = u
  := by
  have hbehind : behindSign (behindBlanks text) = 0x2B :: u := by
    rw [h]
    rfl
  have hplus : ∀ b, ¬ DigitOf b 0x2B := by
    rintro b ⟨d, hd, -⟩
    cases hd
  have hhex : ¬ HexPrefix (0x2B :: u) := by
    rintro ⟨h0, -⟩
    cases h0
  rw [hbehind, scanned, h]
  refine ⟨?_, ?_, rfl⟩
  · rw [numberLength, if_neg fun h => hhex h.2, run_eq_zero_iff]
    apply hplus
  · rintro (⟨-, hx, -⟩ | ⟨-, hprefix, -⟩)
    · cases hx
    · exact hhex hprefix

/-- With one sign at most `strtol` skips what is in front of a number. -/
theorem scanned_one_sign (h : ¬ TwoSigns (behindBlanks text)) :
  scanned text = behindSign (behindBlanks text) ∧ skipped text = start text
  := by
  unfold scanned skipped start signLength
  rw [if_neg h]
  exact ⟨rfl, rfl⟩

/-- What is found is accepted if no more has been taken in than a number, behind one sign. -/
theorem accepts_taken_iff (hb : IsBase b)
    (h : if taken b (scanned text) = 0 then r.value = 0 ∧ r.endPtr = some i
      else r.endPtr = some (i + skipped text + taken b (scanned text))) :
  r.Accepts b text i ↔ (∀ u, behindBlanks text = 0x2D :: 0x2B :: u → ¬ Begins b u)
    ∧ ¬ Hangs b (behindSign (behindBlanks text))
  := by
  rw [accepts_iff hb rfl]
  by_cases htwo : TwoSigns (behindBlanks text)
  · obtain ⟨u, hu⟩ := htwo.exists_cons
    obtain ⟨hlength, hhangs, hscanned⟩ := numberLength_two_signs (b := b) hu
    have hunique : (∀ u, behindBlanks text = 0x2D :: 0x2B :: u → ¬ Begins b u) ↔ ¬ Begins b u := by
      constructor
      · exact fun h => h u hu
      · rintro h u' hu'
        rw [hu] at hu'
        obtain rfl : u = u' := by simpa using hu'
        exact h
    rw [if_pos hlength, hunique, and_iff_left hhangs, ← taken_pos_iff, ← hscanned]
    split at h
    · rename_i hk
      exact iff_of_true h (by omega)
    · rename_i hk
      apply iff_of_false
      · rintro ⟨-, hend⟩
        rw [h] at hend
        have := Option.some.inj hend
        omega
      · omega
  · obtain ⟨hscanned, hskipped⟩ := scanned_one_sign htwo
    have hone : ∀ u, behindBlanks text = 0x2D :: 0x2B :: u → ¬ Begins b u := by
      intro u hu
      apply absurd _ htwo
      rw [hu]
      exact ⟨rfl, rfl⟩
    rw [and_iff_right hone, ← taken_eq_iff]
    rw [hscanned, hskipped] at h
    split at h
    · rename_i hk
      rw [if_pos (numberLength_eq_zero hk), hk, numberLength_eq_zero hk]
      exact iff_of_true h rfl
    · rename_i hk
      rw [h, Option.some.injEq, Option.some.injEq]
      split <;> omega

theorem before_concat (pre rest : List UInt8) (y : UInt8) :
  before (pre ++ [y] ++ rest) (pre ++ [y]).length = some y
  := by
  have hne : (pre ++ [y]).length ≠ 0 := by simp
  rw [before, if_neg hne, List.length_append, List.length_singleton, Nat.add_sub_cancel,
    List.append_assoc, List.getElem?_append_right (Nat.le_refl _), Nat.sub_self]
  rfl

/-- Where nothing is skipped there are no signs, and the text is scanned from its start. -/
theorem behindSign_of_skipped (h : skipped text = 0) :
  ¬ TwoSigns (behindBlanks text) ∧ behindSign (behindBlanks text) = text
  := by
  have htwo : ¬ TwoSigns (behindBlanks text) := by
    intro htwo
    have hlength : signLength (behindBlanks text) = 2 := if_pos htwo
    unfold skipped at h
    omega
  refine ⟨htwo, ?_⟩
  rw [← (scanned_one_sign htwo).1, scanned_of_skipped h]

/-- Where nothing is taken in either, only nothing is accepted. -/
theorem accepts_nothing_iff (hb : IsBase b) (hskipped : skipped text = 0) (hk : taken b text = 0) :
  r.Accepts b text i ↔ r.value = 0 ∧ r.endPtr = some i
  := by
  rw [accepts_iff hb rfl, (behindSign_of_skipped hskipped).2, if_pos (numberLength_eq_zero hk)]

/-- It only remains to look back. -/
theorem ordinary_iff_looksBack (hne : text ≠ []) (hskipped : skipped text = 0)
    (hk : taken b text = 0) :
  Ordinary b pre text ↔ LooksBack b pre text
  := by
  have hled : ¬ Led text := by
    rw [← skipped_pos_iff, hskipped]
    decide
  have hbegins : ¬ Begins b text := by
    rw [← taken_pos_iff, hk]
    decide
  obtain ⟨htwo, hscanned⟩ := behindSign_of_skipped hskipped
  constructor
  · intro h
    apply h.before hled hbegins
  · intro h
    refine ⟨hne, ?_, ?_, fun _ _ => h⟩
    · intro u hu
      apply absurd _ htwo
      rw [hu]
      exact ⟨rfl, rfl⟩
    · rw [hscanned, ← taken_eq_iff, hk, numberLength_eq_zero hk]

/-- There is no byte before the first one. -/
theorem not_looksBack_nil (b : ℕ) (text : List UInt8) :
  ¬ LooksBack b [] text
  := by
  rintro ⟨pre', y, hnil, -⟩
  exact List.append_ne_nil_of_right_ne_nil pre' (List.cons_ne_nil y []) hnil.symm

/-- Behind a byte only the one before that may still matter. -/
theorem looksBack_concat :
  LooksBack b (pre ++ [y]) text ↔
    (isX y → Looks b text → ∃ pre' z, pre = pre' ++ [z] ∧ ¬ (isdigit z ∨ isalpha z))
  := by
  constructor
  · rintro ⟨pre', y', heq, h⟩
    obtain ⟨rfl, rfl⟩ := List.append_singleton_inj.mp heq
    exact h
  · intro h
    exact ⟨pre, y, rfl, h⟩

/-- What `strtol` finds where it looks back over an `x` is accepted if it does not take what is in
front of that for the end of a number. -/
theorem accepts_behind_x_iff (htext : ∀ c ∈ text, c ≠ 0) (hskipped : skipped text = 0)
    (hlooks : Looks b text) (hx : isX y) :
  (∃ r, strtolWith some (pre ++ [y] ++ (text ++ 0 :: post)) (pre ++ [y]).length b = some r
      ∧ r.value = 0 ∧ r.endPtr = some (pre ++ [y]).length)
    ↔ ∃ pre' z, pre = pre' ++ [z] ∧ ¬ (isdigit z ∨ isalpha z)
  := by
  have hs : (pre ++ [y] ++ (text ++ 0 :: post)).drop (pre ++ [y]).length = text ++ 0 :: post :=
    List.drop_left
  rw [strtol_looks htext hs hskipped hlooks, before_concat, Option.bind_some]
  simp only [if_pos hx]
  rcases List.eq_nil_or_concat pre with rfl | ⟨pre', z, rfl⟩
  · apply iff_of_false
    · rintro ⟨r, hr, -⟩
      cases hr
    · rintro ⟨pre', z, hnil, -⟩
      exact List.append_ne_nil_of_right_ne_nil pre' (List.cons_ne_nil z []) hnil.symm
  · rw [List.concat_eq_append]
    have hz := before_concat pre' ([y] ++ (text ++ 0 :: post)) z
    rw [← List.append_assoc] at hz
    have hindex : (pre' ++ [z] ++ [y]).length - 1 = (pre' ++ [z]).length := by simp
    have hne : (pre' ++ [z]).length ≠ (pre' ++ [z] ++ [y]).length := by simp
    rw [hindex, hz, Option.map_some]
    constructor
    · rintro ⟨r, hr, -, hend⟩
      obtain rfl := Option.some.inj hr
      refine ⟨pre', z, rfl, fun halnum => hne ?_⟩
      rw [if_pos halnum] at hend
      exact Option.some.inj hend
    · rintro ⟨pre'', z', heq, halnum⟩
      obtain ⟨rfl, rfl⟩ := List.append_singleton_inj.mp heq
      exact ⟨_, rfl, rfl, congrArg some (if_neg halnum)⟩

/-- What `strtol` finds where it has to look back is accepted if that does not lead it astray. -/
theorem accepts_looks_iff (hb : IsBase b) (htext : ∀ c ∈ text, c ≠ 0) (hne : text ≠ [])
    (hskipped : skipped text = 0) (hk : taken b text = 0) :
  (∃ r, strtolWith some (pre ++ (text ++ 0 :: post)) pre.length b = some r
      ∧ r.Accepts b text pre.length)
    ↔ LooksBack b pre text
  := by
  have hs : (pre ++ (text ++ 0 :: post)).drop pre.length = text ++ 0 :: post := List.drop_left
  simp only [accepts_nothing_iff hb hskipped hk]
  rcases List.eq_nil_or_concat pre with rfl | ⟨pre', y, rfl⟩
  · rw [strtol_eq_none hb htext hne hs hskipped hk rfl]
    apply iff_of_false
    · rintro ⟨r, hr, -⟩
      cases hr
    · apply not_looksBack_nil
  · rw [List.concat_eq_append] at hs ⊢
    rw [looksBack_concat]
    have hy := before_concat pre' (text ++ 0 :: post) y
    by_cases hastray : isX y ∧ Looks b text
    · obtain ⟨hx, hlooks⟩ := hastray
      rw [accepts_behind_x_iff htext hskipped hlooks hx]
      exact ⟨fun h _ _ => h, fun h => h hx hlooks⟩
    · obtain ⟨r, hr, hfound, -⟩ := strtol_text hb htext hne hs fun _ _ =>
        ⟨y, hy, fun hlooks hx => hastray ⟨hx, hlooks⟩⟩
      rw [scanned_of_skipped hskipped, if_pos hk] at hfound
      apply iff_of_true
      · exact ⟨r, hr, hfound⟩
      · exact fun hx hlooks => absurd ⟨hx, hlooks⟩ hastray

/-- In any text that ends, in any base that it knows, `strtol`, with an `errno`, finds the longest
number, or none where there is none, exactly if the text is not empty, does not begin with two signs
and what it would go on to read, nor with an `x` in vain, and the bytes before the text do not
matter. -/
theorem strtolWith_accepts_iff (hb : IsBase b) (htext : ∀ c ∈ text, c ≠ 0) :
  (∃ r, strtolWith some (pre ++ (text ++ 0 :: post)) pre.length b = some r
      ∧ r.Accepts b text pre.length)
    ↔ Ordinary b pre text
  := by
  have hs : (pre ++ (text ++ 0 :: post)).drop pre.length = text ++ 0 :: post := List.drop_left
  by_cases hnil : text = []
  · obtain rfl := hnil
    apply iff_of_false
    · rintro ⟨r, hr, haccepts⟩
      have hzero : numberLength b [] = 0 := by
        rw [numberLength, if_neg fun h => absurd h.2.1 (by decide), run_eq_zero_iff]
        apply not_digitOf_zero
      rw [accepts_iff hb rfl] at haccepts
      rw [strtolWith, get_of_drop hs] at hr
      obtain rfl : (⟨0, none, none⟩ : Converted) = r := Option.some.inj hr
      split at haccepts
      · cases haccepts.2
      · cases haccepts
    · exact fun h => h.ne_nil rfl
  · by_cases hfree : skipped text = 0 ∧ taken b text = 0
    · rw [accepts_looks_iff hb htext hnil hfree.1 hfree.2,
        ordinary_iff_looksBack hnil hfree.1 hfree.2]
    · obtain ⟨r, hr, hfound, -⟩ := strtol_text hb htext hnil hs fun h h' => absurd ⟨h, h'⟩ hfree
      have haccepts := accepts_taken_iff hb hfound
      constructor
      · rintro ⟨r', hr', h⟩
        obtain rfl : r = r' := Option.some.inj (hr ▸ hr')
        obtain ⟨hone, hhangs⟩ := haccepts.mp h
        refine ⟨hnil, hone, hhangs, ?_⟩
        intro hled hbegins
        rw [← skipped_pos_iff] at hled
        rw [← taken_pos_iff] at hbegins
        exact absurd ⟨by omega, by omega⟩ hfree
      · intro h
        exact ⟨r, hr, haccepts.mpr ⟨h.one_sign, h.no_hanging⟩⟩

/-- Only what does not stand for a `long` sets `errno`. -/
theorem strtolWith_errno_iff (hb : IsBase b) (htext : ∀ c ∈ text, c ≠ 0)
    (hs : s.drop i = text ++ 0 :: post) (hr : strtolWith some s i b = some r) :
  r.errno = none ↔ Fits b text
  := by
  by_cases hne : text = []
  · obtain rfl := hne
    rw [strtolWith, get_of_drop hs] at hr
    obtain rfl : (⟨0, none, none⟩ : Converted) = r := Option.some.inj hr
    apply iff_of_true rfl
    apply fits_of_taken
    exact Nat.eq_zero_of_le_zero taken_le_length
  · by_cases hlooks : skipped text = 0 ∧ Looks b text
    · rw [strtol_looks htext hs hlooks.1 hlooks.2] at hr
      obtain ⟨y, -, hr⟩ := Option.bind_eq_some_iff.mp hr
      obtain ⟨z, -, rfl⟩ := Option.map_eq_some_iff.mp hr
      apply iff_of_true rfl
      apply fits_of_taken
      rw [scanned_of_skipped hlooks.1, hlooks.2.taken_eq_zero]
    · by_cases hfree : skipped text = 0 ∧ taken b text = 0
      · cases hbefore : before s i with
        | none =>
            rw [strtol_eq_none hb htext hne hs hfree.1 hfree.2 hbefore] at hr
            cases hr
        | some y =>
            obtain ⟨r', hr', -, herrno, -⟩ := strtol_text hb htext hne hs fun hskipped _ =>
              ⟨y, hbefore, fun h => absurd ⟨hskipped, h⟩ hlooks⟩
            obtain rfl : r' = r := Option.some.inj (hr' ▸ hr)
            exact herrno
      · obtain ⟨r', hr', -, herrno, -⟩ :=
          strtol_text hb htext hne hs fun h h' => absurd ⟨h, h'⟩ hfree
        obtain rfl : r' = r := Option.some.inj (hr' ▸ hr)
        exact herrno

/-- In the program `strtol` finds the longest number, or none, exactly if besides what it takes in
stands for a `long`: otherwise there is no result. -/
theorem strtol_accepts_iff (hb : IsBase b) (htext : ∀ c ∈ text, c ≠ 0) :
  (∃ r, strtol (pre ++ (text ++ 0 :: post)) pre.length b = some r ∧ r.Accepts b text pre.length)
    ↔ Regular b pre text
  := by
  have hs : (pre ++ (text ++ 0 :: post)).drop pre.length = text ++ 0 :: post := List.drop_left
  simp only [strtol_eq_some_iff]
  constructor
  · rintro ⟨r, ⟨hr, herrno⟩, haccepts⟩
    refine ⟨(strtolWith_accepts_iff hb htext).mp ⟨r, hr, haccepts⟩, ?_⟩
    exact (strtolWith_errno_iff hb htext hs hr).mp herrno
  · rintro ⟨hordinary, hfits⟩
    obtain ⟨r, hr, haccepts⟩ := (strtolWith_accepts_iff hb htext).mpr hordinary
    exact ⟨r, ⟨hr, (strtolWith_errno_iff hb htext hs hr).mpr hfits⟩, haccepts⟩

/-- `0x1f`, in base 16. -/
theorem strtol_accepts_hex :
  ∃ r, strtol ([] ++ ([0x30, 0x78, 0x31, 0x66] ++ 0 :: [])) 0 16 = some r
    ∧ r.Accepts 16 [0x30, 0x78, 0x31, 0x66] 0
  := by
  have htext : ∀ c ∈ [0x30, 0x78, 0x31, 0x66], c ≠ (0 : UInt8) := by simp
  have hiff := @strtol_accepts_iff _ [] [] 16 (.inr (by decide)) htext
  apply hiff.mpr
  refine ⟨⟨List.cons_ne_nil _ _, nofun, ?_, ?_⟩, by decide⟩
  · rintro (⟨-, hx, -⟩ | ⟨-, -, -, hdigit⟩)
    · cases hx
    · exact hdigit ⟨1, rfl, by decide⟩
  · intro _ hbegins
    exact absurd (.inl ⟨0, rfl, by decide⟩) hbegins

/-- `-+5` is no number. -/
theorem not_strtol_accepts_two_signs :
  ¬ ∃ r, strtol ([] ++ ([0x2D, 0x2B, 0x35] ++ 0 :: [])) 0 10 = some r
    ∧ r.Accepts 10 [0x2D, 0x2B, 0x35] 0
  := by
  rintro ⟨r, hr, haccepts⟩
  obtain rfl : (⟨-5, some 3, none⟩ : Converted) = r := Option.some.inj hr
  rw [accepts_iff (.inr (by decide)) (numberLength_two_signs (u := [0x35]) rfl).1.symm] at haccepts
  exact absurd haccepts.1 (by decide)

/-! ### Reading -/

/-- `strtol` reads only its text exactly if it is empty, or begins with a blank or a sign, or, in
one of the bases, with what `strtol` takes in. Otherwise the byte before the text is read. -/
theorem readsText_iff (htext : ∀ c ∈ text, c ≠ 0) :
  ReadsText text base
    ↔ text = [] ∨ Led text ∨ ∀ b : ℕ, base = b → IsBase b → Begins b text
  := by
  have hs : (text ++ [0]).drop 0 = text ++ 0 :: [] := rfl
  unfold ReadsText
  by_cases hne : text = []
  · rw [hne]
    exact iff_of_true rfl (.inl rfl)
  · by_cases hbase : ∃ b : ℕ, base = b ∧ IsBase b
    · obtain ⟨b, rfl, hb⟩ := hbase
      have hunique : (∀ b' : ℕ, (b : ℤ) = b' → IsBase b' → Begins b' text) ↔ Begins b text := by
        constructor
        · exact fun h => h b rfl hb
        · rintro h b' heq -
          rwa [← Int.ofNat.inj heq]
      rw [hunique, ← skipped_pos_iff, ← taken_pos_iff]
      by_cases hfree : skipped text = 0 ∧ taken b text = 0
      · rw [strtol_eq_none hb htext hne hs hfree.1 hfree.2 rfl, hfree.1, hfree.2]
        exact iff_of_false nofun (by simpa using hne)
      · obtain ⟨r, hr, -⟩ := strtol_text hb htext hne hs fun h h' => absurd ⟨h, h'⟩ hfree
        rw [hr]
        exact iff_of_true rfl (by omega)
    · have hinvalid : (base < 2 ∨ 36 < base) ∧ base ≠ 0 := by
        unfold IsBase at hbase
        constructor
        · by_contra hvalid
          exact hbase ⟨base.toNat, by omega, by omega⟩
        · rintro rfl
          exact hbase ⟨0, rfl, .inl rfl⟩
      rw [strtol_einval hinvalid htext hne hs]
      exact iff_of_true rfl (.inr (.inr fun b heq hb => absurd ⟨b, heq, hb⟩ hbase))

/-- No more than two bytes before the text are ever missing: with these there is a result. No
`long` overflows, that is. -/
theorem exists_strtol (htext : ∀ c ∈ text, c ≠ 0) (hs : s.drop (i + 2) = text ++ 0 :: post) :
  ∃ r, strtolWith some s (i + 2) base = some r
  := by
  have hlt : i + 2 < s.length := by
    have hlength := congrArg List.length hs
    rw [List.length_drop, List.length_append, List.length_cons] at hlength
    omega
  have hbefore : ∀ pos, i < pos → pos ≤ i + 2 → ∃ y, before s pos = some y := by
    intro pos hlo hhi
    rw [before, if_neg (by omega)]
    exact ⟨_, List.getElem?_eq_getElem (by omega)⟩
  by_cases hne : text = []
  · obtain rfl := hne
    rw [strtolWith, get_of_drop hs]
    exact ⟨_, rfl⟩
  · by_cases hbase : (base < 2 ∨ 36 < base) ∧ base ≠ 0
    · exact ⟨_, strtol_einval hbase htext hne hs⟩
    · obtain ⟨b, rfl⟩ : ∃ b : ℕ, base = b := ⟨base.toNat, by omega⟩
      have hb : IsBase b := by
        unfold IsBase
        omega
      obtain ⟨y, hy⟩ := hbefore (i + 2) (by omega) (Nat.le_refl _)
      by_cases hastray : skipped text = 0 ∧ Looks b text
      · rw [strtol_looks htext hs hastray.1 hastray.2, hy, Option.bind_some]
        obtain ⟨z, hz⟩ := hbefore (if isX y then i + 2 - 1 else i + 2)
          (by split <;> omega) (by split <;> omega)
        rw [hz]
        exact ⟨_, rfl⟩
      · obtain ⟨r, hr, -⟩ := strtol_text hb htext hne hs fun hskipped _ =>
          ⟨y, hy, fun hlooks => absurd ⟨hskipped, hlooks⟩ hastray⟩
        exact ⟨r, hr⟩

/-- `-42 ` in base 10, with the blank behind it. -/
theorem readsText_minus :
  ReadsText [0x2D, 0x34, 0x32, 0x20] 10
  := (readsText_iff (by simp)).mpr (.inr (.inl (.inr (.inl rfl))))

/-- Of `abc` there is nothing to read as a decimal number. -/
theorem not_readsText_abc :
  ¬ ReadsText [0x61, 0x62, 0x63] 10
  := nofun

end CString
