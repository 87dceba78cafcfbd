import Mathlib.Data.List.TakeWhile

/-!
# Numbers typed as text

A text is trimmed, and read as the decimal numeral of an unsigned integer with a bound:
an optional `+`, then digits at least one, with any number of zeros in front.  A
numeral whose value reaches the bound is refused at the digit where it does.

The numeral that a number is printed as is read back as that number.
-/
namespace Numeral

/-- A text without the blanks around it. -/
def trim (isBlank : Char → Bool) (text : List Char) : List Char :=
  ((text.dropWhile isBlank).reverse.dropWhile isBlank).reverse

/-- Blanks behind a text without any. -/
theorem trim_append {isBlank : Char → Bool} {text blanks : List Char}
    (htext : ∀ c ∈ text, isBlank c = false) (hblanks : ∀ c ∈ blanks, isBlank c = true) :
    trim isBlank (text ++ blanks) = text := by
  have hend : (blanks.reverse ++ text.reverse).dropWhile isBlank = text.reverse := by
    rw [List.dropWhile_append_of_pos (by simpa using hblanks)]
    exact List.dropWhile_eq_self_iff.mpr
      (fun hl => Bool.eq_false_iff.mp (htext _ (List.mem_reverse.mp (List.getElem_mem hl))))
  rw [trim]
  cases text with
  | nil =>
    rw [List.nil_append, List.dropWhile_eq_nil_iff.mpr hblanks]
    rfl
  | cons c text =>
    have hhead : isBlank c = false := htext c List.mem_cons_self
    rw [List.cons_append, List.dropWhile_cons_of_neg (by simp [hhead]), ← List.cons_append,
      List.reverse_append, hend, List.reverse_reverse]

/-- The digits after those whose value is `value`. -/
def parseDigits (size value : Nat) : List Char → Option Nat
  | [] => some value
  | c :: cs =>
    if c.isDigit then
      let tens := 10 * value
      if tens < size then
        let next := tens + (c.toNat - '0'.toNat)
        if next < size then parseDigits size next cs else none
      else none
    else none

/-- The value of a numeral below `size`. -/
def parse (size : Nat) : List Char → Option Nat
  | [] => none
  | c :: cs =>
    if c = '+' then if cs = [] then none else parseDigits size 0 cs
    else parseDigits size 0 (c :: cs)

theorem le_ofDigitChars (value : Nat) (cs : List Char) : value ≤ Nat.ofDigitChars 10 cs value := by
  induction cs generalizing value with
  | nil => simp
  | cons c cs ih =>
    rw [Nat.ofDigitChars_cons]
    have hrest := ih (10 * value + (c.toNat - '0'.toNat))
    omega

/-- The bound is on the whole value, although it is checked digit by digit. -/
theorem parseDigits_eq_some {size value n : Nat} {cs : List Char} (hvalue : value < size) :
    parseDigits size value cs = some n ↔
      cs.all Char.isDigit = true ∧ Nat.ofDigitChars 10 cs value = n ∧ n < size := by
  induction cs generalizing value with
  | nil =>
    simp only [parseDigits, Option.some.injEq, List.all_nil, Nat.ofDigitChars_nil, true_and]
    exact ⟨fun h => ⟨h, h ▸ hvalue⟩, And.left⟩
  | cons c cs ih =>
    simp only [parseDigits, List.all_cons, Bool.and_eq_true, Nat.ofDigitChars_cons]
    by_cases hdigit : c.isDigit = true
    · have hle := le_ofDigitChars (10 * value + (c.toNat - '0'.toNat)) cs
      rw [if_pos hdigit]
      by_cases hnext : 10 * value + (c.toNat - '0'.toNat) < size
      · rw [if_pos (Nat.lt_of_le_of_lt (Nat.le_add_right _ _) hnext), if_pos hnext, ih hnext]
        simp [hdigit]
      · rw [if_neg hnext, ite_self]
        refine iff_of_false nofun ?_
        rintro ⟨-, hn, hlt⟩
        omega
    · simp [hdigit]

/-- **What is read as a number.**  Digits, with or without a `+`, whose value is below the
bound. -/
theorem parse_eq_some {size n : Nat} (hsize : 0 < size) {cs : List Char} :
    parse size cs = some n ↔ ∃ digits : List Char, (cs = digits ∨ cs = '+' :: digits) ∧
      digits ≠ [] ∧ digits.all Char.isDigit = true ∧ Nat.ofDigitChars 10 digits 0 = n ∧
      n < size := by
  cases cs with
  | nil =>
    refine iff_of_false nofun ?_
    rintro ⟨digits, rfl | h, hne, -⟩
    · exact hne rfl
    · cases h
  | cons c cs =>
    by_cases hplus : c = '+'
    · subst hplus
      rw [parse, if_pos rfl]
      by_cases hnil : cs = []
      · subst hnil
        refine iff_of_false (by simp) ?_
        rintro ⟨digits, rfl | h, hne, hdigits, -⟩
        · exact absurd hdigits (by decide)
        · exact hne (List.cons.inj h).2.symm
      · rw [if_neg hnil, parseDigits_eq_some hsize]
        constructor
        · exact fun h => ⟨cs, .inr rfl, hnil, h⟩
        · rintro ⟨digits, rfl | h, -, hdigits, hrest⟩
          · exact absurd hdigits (by simp [Char.isDigit])
          · obtain rfl := (List.cons.inj h).2
            exact ⟨hdigits, hrest⟩
    · rw [parse, if_neg hplus, parseDigits_eq_some hsize]
      constructor
      · exact fun h => ⟨c :: cs, .inl rfl, List.cons_ne_nil _ _, h⟩
      · rintro ⟨digits, rfl | h, -, hrest⟩
        · exact hrest
        · exact absurd (List.cons.inj h).1 hplus

/-- **A printed number is read back.** -/
theorem parse_toDigits {size n : Nat} (h : n < size) : parse size (Nat.toDigits 10 n) = some n := by
  refine (parse_eq_some (Nat.zero_lt_of_lt h)).mpr
    ⟨_, .inl rfl, Nat.toDigits_ne_nil, ?_, Nat.ofDigitChars_ten_toDigits, h⟩
  rw [List.all_eq_true]
  exact fun c hc => Nat.isDigit_of_mem_toDigits (by decide) (by decide) hc

end Numeral
