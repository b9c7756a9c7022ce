/-! # Decimal numerals

Natural numbers written without leading zeros, and read back digit by digit. -/

namespace RegionOutline.Text

/-- The digit of a number below sixteen, lower case beyond nine. -/
def digitChar (d : Nat) : Char :=
  Char.ofNat (if d < 10 then 48 + d else 87 + d)

/-- The value of a digit in the given base, letters of either case beyond nine. -/
def digitValue? (base : Nat) (c : Char) : Option Nat :=
  let value? :=
    if '0' ≤ c ∧ c ≤ '9' then some (c.toNat - 48)
    else if 'a' ≤ c ∧ c ≤ 'f' then some (c.toNat - 87)
    else if 'A' ≤ c ∧ c ≤ 'F' then some (c.toNat - 55)
    else none
  value?.filter (· < base)

/-- The decimal numeral of a number. -/
def decimal (n : Nat) : List Char :=
  if n < 10 then [digitChar n] else decimal (n / 10) ++ [digitChar (n % 10)]

/-- Read digits of the given base after an already read value. -/
def readDigits? (base : Nat) : Nat → List Char → Option Nat
  | value, [] => some value
  | value, c :: rest =>
      (digitValue? base c).bind fun d => readDigits? base (value * base + d) rest

/-- The value of a numeral of the given base, which has at least one digit. -/
def numeral? (base : Nat) : List Char → Option Nat
  | [] => none
  | digits => readDigits? base 0 digits

/-- The greatest number that a 64-bit word holds. -/
def wordMax : Nat := 0xFFFFFFFFFFFFFFFF

/-- Read a numeral and refuse what no 64-bit word holds. -/
def wordNumeral? (base : Nat) (digits : List Char) : Option Nat :=
  (numeral? base digits).filter (· ≤ wordMax)

end RegionOutline.Text
