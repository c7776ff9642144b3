/-!
# Digits

The values of decimal and hexadecimal digits.

* `hexValue?_of_isDigit`: a decimal digit has its own value among the hexadecimal ones.
-/

namespace TypeScribe

/-- The value of a decimal digit. -/
def digitValue (c : Char) : Nat := c.toNat - '0'.toNat

/-- The value of a hexadecimal digit with letters of any size. -/
def hexValue? (c : Char) : Option Nat :=
  if '0' ≤ c && c ≤ '9' then some (digitValue c)
  else if 'a' ≤ c && c ≤ 'f' then some (c.toNat - 'a'.toNat + 10)
  else if 'A' ≤ c && c ≤ 'F' then some (c.toNat - 'A'.toNat + 10)
  else none

theorem hexValue?_of_isDigit {c : Char} (h : c.isDigit = true) : hexValue? c = some (digitValue c) := by
  have h' : ('0' ≤ c && c ≤ '9') = true := by simpa [Char.isDigit, Char.le_def] using h
  simp only [hexValue?, h', if_true]

/-- The value of decimal digits. -/
def decimalValue (digits : List Char) : Nat :=
  digits.foldl (fun value c => value * 10 + digitValue c) 0

end TypeScribe
