import SchemaMarkup.Text.Blank

/-!
# Numerals

Lengths, precisions and scales are unsigned 32-bit numbers. A numeral is an
optional `+` and at least one ASCII digit; leading zeros are allowed, and a value
that does not fit 32 bits is no numeral. Other notations also use other bases.
-/

namespace SchemaMarkup.Numeral

/-- The value of one ASCII digit. -/
def digitValue (digit : Char) : Nat :=
  digit.toNat - '0'.toNat

/-- The value that a run of digits denotes. -/
def value (digits : Text) : Nat :=
  digits.foldl (fun total digit => 10 * total + digitValue digit) 0

/-- The value of one digit in a base up to sixteen. -/
def digitIn? (base : Nat) (digit : Char) : Option Nat :=
  let number :=
    if digit.isDigit then digitValue digit
    else if 'a' <= digit && digit <= 'f' then digit.toNat - 'a'.toNat + 10
    else if 'A' <= digit && digit <= 'F' then digit.toNat - 'A'.toNat + 10
    else base
  if number < base then some number else none

/-- The value of at least one digit in a base up to sixteen. -/
def valueIn? (base : Nat) (digits : Text) : Option Nat :=
  if digits.isEmpty then none
  else (digits.mapM (digitIn? base)).map fun numbers =>
    numbers.foldl (fun total number => base * total + number) 0

/-- The digits of a numeral, without its sign. -/
def unsigned : Text -> Text
  | '+' :: digits => digits
  | digits => digits

/-- Reads an unsigned 32-bit number. -/
def read? (text : Text) : Option UInt32 :=
  let digits := unsigned text
  if !digits.isEmpty && digits.all Char.isDigit && value digits < UInt32.size then
    some (UInt32.ofNat (value digits))
  else
    none

end SchemaMarkup.Numeral
