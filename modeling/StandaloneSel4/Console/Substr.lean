import StandaloneSel4.Console.Shell

/-!
# Parts of strings

`substr` copies the text from a position on up to its end, whatever the count, and takes the count
off the size instead of making the count the size. What it makes is the part that was asked for
only when that reaches up to the end without a count, or is the empty part there.
-/

open Prog Shell

/-- The part of a text from a position on, of so many characters or up to the end. -/
def CString.slice (text : List UInt8) (pos count : ℕ) : List UInt8 :=
  (text.take (min (pos + count) text.length)).drop pos

namespace BasicString

/-- What can be observed of the string is the text: what `c_str()` points at is terminated behind
the text, and the size is the length. -/
structure IsText (s : BasicString) (text : List UInt8) : Prop where
  terminated : CString.strlen s.bytes = some text.length
  c_str : s.c_str = text
  size : s.size = text.length

variable {s : BasicString} {text : List UInt8} {newS size pos count : ℕ}
  {tr : List (Event ConsoleSig)} {o : Outcome BasicString}

/-- A string made of a text is that text if it got a block and its size is the length, and no
other. -/
theorem made_isText_iff {text' : List UInt8} (htext : ∀ c ∈ text, c ≠ 0) :
  (made newS (text ++ [0]) size).IsText text' ↔ newS ≠ 0 ∧ text = text' ∧ size = text.length
  := by
  by_cases hnew : newS = 0
  · apply iff_of_false
    · rintro ⟨hterminated, -, -⟩
      rw [made, if_pos hnew] at hterminated
      cases hterminated
    · rintro ⟨hne, -⟩
      exact hne hnew
  · have hbytes : (made newS (text ++ [0]) size).bytes = text ++ [0] := by
      rw [made, if_neg hnew]
    have hc_str : (made newS (text ++ [0]) size).c_str = text := by
      have htake : (text ++ [0]).take (text.length + 1) = text ++ [0] := by
        apply List.take_of_length_le
        simp
      rw [← htake]
      apply c_str_made hnew htext
    have hsize : (made newS (text ++ [0]) size).size = size := by
      rw [made, if_neg hnew]
    constructor
    · rintro ⟨-, rfl, hlen⟩
      rw [hc_str, hsize] at hlen
      exact ⟨hnew, hc_str.symm, hlen⟩
    · rintro ⟨-, rfl, hlen⟩
      constructor
      · rw [hbytes]
        apply CString.strlen_append htext
      · exact hc_str
      · rw [hsize, hlen]

/-- The rest of the text is the part that is asked for, and has the size that `substr` gives it,
exactly without a count, or at the end with the count zero. -/
theorem slice_iff (hlen : text.length < 2 ^ 64) (hpos : pos ≤ text.length)
    (hcount : count < 2 ^ 64) :
  text.drop pos = CString.slice text pos count
      ∧ substrSize text.length pos count = (text.drop pos).length
    ↔ count = npos ∨ count = 0 ∧ pos = text.length
  := by
  have hslice : text.drop pos = CString.slice text pos count
      ↔ pos = text.length ∨ text.length ≤ pos + count := by
    constructor
    · intro heq
      have hlength := congrArg List.length heq
      simp only [CString.slice, List.length_drop, List.length_take] at hlength
      omega
    · rintro (rfl | hle)
      · rw [CString.slice, Nat.min_eq_right (Nat.le_add_right _ _), List.take_length]
      · rw [CString.slice, Nat.min_eq_right hle, List.take_length]
  rw [hslice, List.length_drop]
  unfold substrSize npos Word.sub
  split <;> omega

/-- In an execution of `substr` that has ended it has made the part of the text exactly if there was
memory for it, and no count was given, or the empty part at the end was asked for. -/
theorem substr_isText_iff (h : s.Holds text) (hpos : pos ≤ s.size) (hcount : count < 2 ^ 64)
    (hexec : Exec (s.substr pos count) tr o) (hend : o ≠ .running) :
  (∃ r, o = .ret r ∧ r.IsText (CString.slice text pos count))
    ↔ (∀ e ∈ tr, Allocated e) ∧ (count = npos ∨ count = 0 ∧ pos = s.size)
  := by
  rw [h.size] at hpos ⊢
  rw [h.substr_eq hpos, h.size] at hexec
  cases hexec with
  | stop p => exact absurd rfl hend
  | call c k newS hexec =>
      obtain ⟨rfl, hret⟩ := hexec.ret_inv
      obtain rfl := hret.resolve_right hend
      have hdrop : ∀ c ∈ text.drop pos, c ≠ 0 := by
        intro c hc
        apply h.ne_zero c (List.mem_of_mem_drop hc)
      have hiff := slice_iff h.length_lt hpos hcount
      constructor
      · rintro ⟨r, hr, hpart⟩
        obtain rfl : _ = r := by simpa using hr
        obtain ⟨hnew, htext, hsize⟩ := (made_isText_iff hdrop).mp hpart
        refine ⟨?_, hiff.mp ⟨htext, hsize⟩⟩
        intro e he
        rw [List.mem_singleton.mp he]
        exact hnew
      · rintro ⟨halloc, hcase⟩
        obtain ⟨htext, hsize⟩ := hiff.mpr hcase
        have hnew : newS ≠ (0 : ℕ) := halloc _ List.mem_cons_self
        exact ⟨_, rfl, (made_isText_iff hdrop).mpr ⟨hnew, htext, hsize⟩⟩

theorem holds_abc :
  (⟨64, [0x61, 0x62, 0x63, 0], 3⟩ : BasicString).Holds [0x61, 0x62, 0x63]
  := ⟨rfl, rfl, CString.ne_zero_of_not_mem (by decide), by decide⟩

/-- `substr(1)` of `abc` is `bc`. -/
theorem substr_bc :
  ∃ tr r, Exec ((⟨64, [0x61, 0x62, 0x63, 0], 3⟩ : BasicString).substr 1 npos) tr (.ret r)
    ∧ r.IsText [0x62, 0x63]
  := by
  have hexec : Exec ((⟨64, [0x61, 0x62, 0x63, 0], 3⟩ : BasicString).substr 1 npos)
      [⟨.kmalloc 3, (96 : ℕ)⟩] (.ret ⟨96, [0x62, 0x63, 0], 2⟩) := Exec.call _ _ _ (Exec.ret _)
  have halloc : ∀ e ∈ [(⟨.kmalloc 3, (96 : ℕ)⟩ : Event ConsoleSig)], Allocated e := by
    intro e he
    rw [List.mem_singleton.mp he]
    apply Nat.succ_ne_zero 95
  obtain ⟨r, hr, htext⟩ := (substr_isText_iff holds_abc (by decide) (by decide) hexec nofun).mpr
    ⟨halloc, .inl rfl⟩
  obtain rfl : _ = r := by simpa using hr
  exact ⟨_, _, hexec, htext⟩

/-- `substr(0, 1)` of `abc` is `abc` with the size 2, and not `a`. -/
theorem substr_not_a :
  ∃ tr r, Exec ((⟨64, [0x61, 0x62, 0x63, 0], 3⟩ : BasicString).substr 0 1) tr (.ret r)
    ∧ r.c_str = [0x61, 0x62, 0x63] ∧ r.size = 2
    ∧ ¬ r.IsText (CString.slice [0x61, 0x62, 0x63] 0 1)
  := by
  have hexec : Exec ((⟨64, [0x61, 0x62, 0x63, 0], 3⟩ : BasicString).substr 0 1)
      [⟨.kmalloc 4, (96 : ℕ)⟩] (.ret ⟨96, [0x61, 0x62, 0x63, 0], 2⟩) := Exec.call _ _ _ (Exec.ret _)
  refine ⟨_, _, hexec, by decide, rfl, ?_⟩
  intro htext
  exact absurd htext.size (by decide)

end BasicString
