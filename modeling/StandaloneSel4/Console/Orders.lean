import StandaloneSel4.Console.Priority

/-!
# What lines order

Of all lines only those with one of three verbs concern the memory of the heap. Such a line orders
something for the number behind its verb, and nothing if that is zero or missing. The number is
what `strtol` reads, and it does not depend on the memory around the text.
-/

open Prog

/-! ### The number of a text -/

namespace CString

/-- The number that a text begins with, if it begins with one. -/
def numberOf (text : List UInt8) : ℤ :=
  ((strtol (0 :: (text ++ [0])) 1 10).map Converted.value).getD 0

/-- If it is a `long`, it can be told from the text. -/
theorem numberOf_eq {text : List UInt8} (htext : ∀ c ∈ text, c ≠ 0) (hfits : Fits 10 text) :
  numberOf text = signedValue 10 text
  := by
  have hs : ((0 : UInt8) :: (text ++ [0])).drop 1 = text ++ 0 :: [] := rfl
  obtain ⟨r, hr, hvalue, -⟩ := exists_strtol_ten Nat.one_pos htext hs hfits
  rw [numberOf, hr, Option.map_some, Option.getD_some, hvalue]

end CString

/-! ### Orders -/

namespace Shell

open CString (ascii numberOf)

/-- The verbs of the lines that concern the memory. -/
inductive Verb where
  | kmalloc
  | touch
  | kfree
  deriving DecidableEq

namespace Verb

/-- The verb as it is typed. -/
def name : Verb → String
  | kmalloc => "kmalloc"
  | touch => "touch"
  | kfree => "kfree"

/-- The line begins with the verb. -/
def Begins (v : Verb) (text : List UInt8) : Prop :=
  (ascii v.name).isPrefixOf text = true

instance (v : Verb) (text : List UInt8) : Decidable (v.Begins text) :=
  inferInstanceAs (Decidable (_ = _))

/-- Where the operand begins: behind the verb and one character. -/
def pos (v : Verb) : ℕ :=
  (ascii v.name).length + 1

/-- The number behind the verb. -/
def operand (v : Verb) (text : List UInt8) : ℤ :=
  if text.length < v.pos + 1 then 0 else numberOf (text.drop v.pos)

/-- The verb that a line begins with. -/
def ofText (text : List UInt8) : Option Verb :=
  if kmalloc.Begins text then some kmalloc
  else if touch.Begins text then some touch
  else if kfree.Begins text then some kfree
  else none

end Verb

/-- What a line orders: something for a number, or nothing that concerns the memory. -/
def order (text : List UInt8) : Option (Verb × ℤ) :=
  (Verb.ofText text).map fun v => (v, v.operand text)

variable {text lit : List UInt8} {v : Verb} {cmd args : BasicString} {n : ℕ}
  {k : ℤ}

/-- Of two literals of which neither begins with the other no text begins with both. -/
theorem not_isPrefixOf {lit' : List UInt8} (h : lit.isPrefixOf text = true)
    (hlit : lit.isPrefixOf lit' = false) (hlit' : lit'.isPrefixOf lit = false) :
  lit'.isPrefixOf text = false
  := by
  rw [List.isPrefixOf_iff_prefix] at h
  rw [Bool.eq_false_iff, ne_eq, List.isPrefixOf_iff_prefix] at hlit hlit' ⊢
  intro h'
  exact (List.prefix_or_prefix_of_prefix h h').elim hlit hlit'

/-- A line that begins with no verb orders nothing. -/
theorem order_none (h : ∀ v : Verb, (ascii v.name).isPrefixOf text = false) :
  order text = none
  := by
  have hnot (v : Verb) : ¬ v.Begins text := by
    rw [Verb.Begins, h v]
    exact Bool.false_ne_true
  rw [order, Verb.ofText, if_neg (hnot _), if_neg (hnot _), if_neg (hnot _)]
  rfl

/-- Nor does one that begins with something else. -/
theorem order_other (h : lit.isPrefixOf text = true)
    (hlit : ∀ v : Verb, lit.isPrefixOf (ascii v.name) = false
      ∧ (ascii v.name).isPrefixOf lit = false) :
  order text = none
  := by
  apply order_none
  intro v
  apply not_isPrefixOf h (hlit v).1 (hlit v).2

/-- The verbs are not confused. -/
theorem order_verb (h : v.Begins text) :
  order text = some (v, v.operand text)
  := by
  have hnot (v' : Verb) (hne : v' ≠ v) : ¬ v'.Begins text := by
    unfold Verb.Begins at h ⊢
    rw [not_isPrefixOf h]
    · exact Bool.false_ne_true
    · revert hne
      cases v <;> cases v' <;> decide
    · revert hne
      cases v <;> cases v' <;> decide
  unfold order Verb.ofText
  cases v with
  | kmalloc => rw [if_pos h, Option.map_some]
  | touch => rw [if_neg (hnot .kmalloc nofun), if_pos h, Option.map_some]
  | kfree =>
      rw [if_neg (hnot .kmalloc nofun), if_neg (hnot .touch nofun), if_pos h, Option.map_some]

/-- What a string is converted to is the number of its text, if that is a `long`. -/
theorem exists_strtol_numberOf (ctx : Context) (h : args.Holds text)
    (hfits : CString.Fits 10 text) :
  ∃ r, ctx.strtol args 1 = .ret r ∧ r.value = numberOf text
  := by
  obtain ⟨r, hr, hvalue, -⟩ := exists_strtol ctx h (Nat.zero_le _) hfits
  refine ⟨r, hr, ?_⟩
  rw [hvalue, CString.numberOf_eq h.ne_zero hfits, List.drop_zero]

end Shell
