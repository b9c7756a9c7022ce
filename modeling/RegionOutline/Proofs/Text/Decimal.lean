import RegionOutline.Text.Decimal
import Mathlib.Data.List.Basic
import Mathlib.Logic.Function.Basic

/-!
# Numerals and their values

A digit has its value back in every base that has the digit, and a decimal numeral denotes the
number that it was made of. It is all digits, and the first of them is a zero only if it is the
only one.
-/

namespace RegionOutline.Text

variable {n : Nat}

theorem digitValue?_digitChar {base d : Nat} (hd : d < base) (hbase : base ≤ 16) :
    digitValue? base (digitChar d) = some d := by
  have known : ∀ d < 16, ((if '0' ≤ digitChar d ∧ digitChar d ≤ '9' then
      some ((digitChar d).toNat - 48)
      else if 'a' ≤ digitChar d ∧ digitChar d ≤ 'f' then some ((digitChar d).toNat - 87)
      else if 'A' ≤ digitChar d ∧ digitChar d ≤ 'F' then some ((digitChar d).toNat - 55)
      else none) : Option Nat) = some d := by
    decide
  rw [digitValue?, known d (by omega)]
  exact Option.filter_some_pos (by simpa using hd)

theorem isDigit_digitChar : ∀ d < 10, (digitChar d).isDigit = true := by
  decide

theorem digitChar_eq_zero : ∀ d < 10, digitChar d = '0' → d = 0 := by
  decide

theorem decimal_of_lt (h : n < 10) : decimal n = [digitChar n] := by
  rw [decimal, if_pos h]

theorem decimal_of_le (h : 10 ≤ n) : decimal n = decimal (n / 10) ++ [digitChar (n % 10)] := by
  rw [decimal, if_neg (Nat.not_lt.2 h)]

/-- A numeral grows by its last digit. -/
theorem decimal_induction {motive : Nat → List Char → Prop}
    (one : ∀ d < 10, motive d [digitChar d])
    (more : ∀ n d, n ≠ 0 → d < 10 → motive n (decimal n) →
      motive (n * 10 + d) (decimal n ++ [digitChar d])) (n : Nat) : motive n (decimal n) := by
  induction n using Nat.strongRecOn with
  | ind n ih =>
      by_cases h : n < 10
      · rw [decimal_of_lt h]
        exact one n h
      · rw [decimal_of_le (by omega)]
        have longer := more (n / 10) (n % 10) (by omega) (by omega) (ih (n / 10) (by omega))
        rwa [Nat.div_add_mod' n 10] at longer

theorem decimal_ne_nil (n : Nat) : decimal n ≠ [] := by
  induction n using decimal_induction with
  | one d hd => simp
  | more n d hn hd ih => simp

theorem isDigit_of_mem_decimal (n : Nat) : ∀ c ∈ decimal n, c.isDigit = true := by
  induction n using decimal_induction with
  | one d hd => simpa using isDigit_digitChar d hd
  | more n d hn hd ih =>
      intro c hc
      rcases List.mem_append.1 hc with hc | hc
      · exact ih c hc
      · rw [List.mem_singleton.1 hc]
        exact isDigit_digitChar d hd

/-- Only the numeral of zero starts with a zero. -/
theorem head?_decimal_ne_zero (hn : n ≠ 0) : (decimal n).head? ≠ some '0' := by
  induction n using decimal_induction with
  | one d hd =>
      intro hzero
      exact hn (digitChar_eq_zero d hd (Option.some.inj hzero))
  | more n d hpos hd ih =>
      rw [List.head?_append_of_ne_nil _ (decimal_ne_nil n)]
      exact ih hpos

theorem readDigits?_append (base value : Nat) (first second : List Char) :
    readDigits? base value (first ++ second) =
      (readDigits? base value first).bind (readDigits? base · second) := by
  induction first generalizing value with
  | nil => rfl
  | cons c rest ih =>
      simp only [List.cons_append, readDigits?]
      cases digitValue? base c with
      | none => rfl
      | some d => exact ih (value * base + d)

theorem readDigits?_digitChar {base d : Nat} (hd : d < base) (hbase : base ≤ 16) (value : Nat)
    (rest : List Char) : readDigits? base value (digitChar d :: rest) =
      readDigits? base (value * base + d) rest := by
  rw [readDigits?, digitValue?_digitChar hd hbase, Option.bind_some]

theorem readDigits?_decimal (n : Nat) : readDigits? 10 0 (decimal n) = some n := by
  induction n using decimal_induction with
  | one d hd =>
      rw [readDigits?_digitChar hd (by omega), Nat.zero_mul, Nat.zero_add]
      rfl
  | more n d hn hd ih =>
      rw [readDigits?_append, ih, Option.bind_some, readDigits?_digitChar hd (by omega)]
      rfl

theorem numeral?_of_ne_nil {base : Nat} {digits : List Char} (h : digits ≠ []) :
    numeral? base digits = readDigits? base 0 digits := by
  cases digits with
  | nil => exact absurd rfl h
  | cons c rest => rfl

/-- A number is what its numeral denotes. -/
theorem numeral?_decimal (n : Nat) : numeral? 10 (decimal n) = some n := by
  rw [numeral?_of_ne_nil (decimal_ne_nil n), readDigits?_decimal]

theorem decimal_injective : Function.Injective decimal := by
  intro first second h
  apply Option.some.inj
  rw [← numeral?_decimal first, ← numeral?_decimal second, h]

end RegionOutline.Text
