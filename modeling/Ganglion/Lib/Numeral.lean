import Mathlib.Data.List.Basic
import Mathlib.Data.List.TakeWhile

/-!
# Decimal numbers below a bound

Reading an unsigned decimal number from the left, as the parsers of standard libraries do it: the digit is checked
before the value, and the value at every digit. So a number that is too large is found before a character further on
that is no digit (`readDigits_eq`). What is accepted are digits with a value below the bound, with a plus sign or
without (`readUnsigned_eq_ok`), and every number is read back from its decimal text (`readUnsigned_toDigits`).
-/

namespace Numeral

/-- What is wrong with a text that is not a number. -/
inductive Fault where
  | empty
  | invalidDigit
  | posOverflow
  deriving DecidableEq

/-- Reads the digits of a number that starts with the value `acc`. -/
def readDigits (bound : Nat) (acc : Nat) : List Char → Except Fault Nat
  | [] => .ok acc
  | c :: cs =>
    if c.isDigit then
      let next := 10 * acc + (c.toNat - '0'.toNat)
      if next < bound then readDigits bound next cs else .error .posOverflow
    else .error .invalidDigit

/-- Reads an unsigned number. A sign alone is no number, and a minus sign is no digit. -/
def readUnsigned (bound : Nat) : List Char → Except Fault Nat
  | [] => .error .empty
  | ['+'] => .error .invalidDigit
  | '+' :: cs => readDigits bound 0 cs
  | cs => readDigits bound 0 cs

/-- Some digits. -/
structure Digits (cs : List Char) : Prop where
  ne_nil : cs ≠ []
  digits : cs.all Char.isDigit = true

/-- The value of some digits. -/
abbrev value (cs : List Char) : Nat := Nat.ofDigitChars 10 cs 0

/-- More digits do not make the number smaller. -/
theorem le_ofDigitChars (acc : Nat) (cs : List Char) : acc ≤ Nat.ofDigitChars 10 cs acc := by
  induction cs generalizing acc with
  | nil => simp
  | cons c cs ih =>
    rw [Nat.ofDigitChars_cons]
    have h := ih (10 * acc + (c.toNat - '0'.toNat))
    omega

variable {bound : Nat}

/-- **What is read**: the digits at the front decide first whether the number is too large, and then the rest whether it
is one. -/
theorem readDigits_eq {acc : Nat} (hacc : acc < bound) (cs : List Char) :
    readDigits bound acc cs =
      if bound ≤ Nat.ofDigitChars 10 (cs.takeWhile Char.isDigit) acc then .error .posOverflow
      else if cs.all Char.isDigit then .ok (Nat.ofDigitChars 10 cs acc) else .error .invalidDigit := by
  induction cs generalizing acc with
  | nil => simp [readDigits, Nat.not_le.2 hacc]
  | cons c cs ih =>
    simp only [readDigits, List.takeWhile_cons, List.all_cons]
    by_cases hc : c.isDigit = true
    · simp only [hc, if_true, Nat.ofDigitChars_cons, Bool.true_and]
      by_cases hnext : 10 * acc + (c.toNat - '0'.toNat) < bound
      · rw [if_pos hnext, ih hnext]
      · have hle := le_ofDigitChars (10 * acc + (c.toNat - '0'.toNat)) (cs.takeWhile Char.isDigit)
        rw [if_neg hnext, if_pos (by omega)]
    · simp [hc, Nat.not_le.2 hacc]

theorem readDigits_eq_ok (hbound : 0 < bound) {cs : List Char} {n : Nat} :
    readDigits bound 0 cs = .ok n ↔ cs.all Char.isDigit = true ∧ value cs = n ∧ n < bound := by
  rw [readDigits_eq hbound]
  by_cases hall : cs.all Char.isDigit = true
  · have hfront : cs.takeWhile Char.isDigit = cs := List.takeWhile_eq_self_iff.2 (List.all_eq_true.1 hall)
    rw [hfront, if_pos hall]
    by_cases hle : bound ≤ value cs
    · rw [if_pos hle]
      simp only [reduceCtorEq, false_iff]
      rintro ⟨_, rfl, hlt⟩
      omega
    · rw [if_neg hle, Except.ok.injEq]
      constructor
      · rintro rfl
        exact ⟨hall, rfl, Nat.not_le.1 hle⟩
      · exact fun h => h.2.1
  · rw [if_neg hall]
    simp only [hall]
    split <;> simp

/-- **What is accepted**: digits with a value below the bound, after a plus sign or without one. -/
theorem readUnsigned_eq_ok (hbound : 0 < bound) {s : List Char} {n : Nat} :
    readUnsigned bound s = .ok n ↔
      ∃ cs, (s = cs ∨ s = '+' :: cs) ∧ Digits cs ∧ value cs = n ∧ n < bound := by
  have hplus : ∀ cs, ¬Digits ('+' :: cs) := fun cs h => absurd h.digits (by simp)
  unfold readUnsigned
  split
  · simp only [reduceCtorEq, false_iff]
    rintro ⟨cs, hs | hs, hdigits, _⟩
    · exact hdigits.ne_nil hs.symm
    · cases hs
  · simp only [reduceCtorEq, false_iff]
    rintro ⟨cs, hs | hs, hdigits, _⟩
    · exact hplus [] (hs ▸ hdigits)
    · cases hs
      exact hdigits.ne_nil rfl
  · next cs hne =>
    rw [readDigits_eq_ok hbound]
    constructor
    · rintro ⟨hall, hn⟩
      exact ⟨cs, .inr rfl, ⟨fun h => hne (by rw [h]), hall⟩, hn⟩
    · rintro ⟨ds, hs | hs, hdigits, hn⟩
      · exact absurd (hs ▸ hdigits) (hplus cs)
      · cases hs
        exact ⟨hdigits.digits, hn⟩
  · next hnil _ hcons =>
    rw [readDigits_eq_ok hbound]
    constructor
    · rintro ⟨hall, hn⟩
      exact ⟨_, .inl rfl, ⟨hnil, hall⟩, hn⟩
    · rintro ⟨ds, rfl | hs, hdigits, hn⟩
      · exact ⟨hdigits.digits, hn⟩
      · exact absurd hs (hcons ds)

theorem digits_toDigits (n : Nat) : Digits (Nat.toDigits 10 n) := by
  refine ⟨Nat.toDigits_ne_nil, List.all_eq_true.2 fun c hc => ?_⟩
  exact Nat.isDigit_of_mem_toDigits (by decide) (by decide) hc

/-- The decimal text of a number is read back. -/
theorem readUnsigned_toDigits {n : Nat} (h : n < bound) : readUnsigned bound (Nat.toDigits 10 n) = .ok n :=
  (readUnsigned_eq_ok (Nat.zero_lt_of_lt h)).2
    ⟨_, .inl rfl, digits_toDigits n, Nat.ofDigitChars_ten_toDigits, h⟩

end Numeral
