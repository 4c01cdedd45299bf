/-!
# Decimal numerals

A natural numeral is one or more ASCII digits, leading zeros allowed. A signed numeral may carry
one sign, plus or minus, in front. Nothing else is read: no blanks, no grouping marks.
-/

namespace PriorityDonation.Text

def natural? (digits : List Char) : Option Nat :=
  if digits.isEmpty || !digits.all Char.isDigit then none
  else some (Nat.ofDigitChars 10 digits 0)

def integer? : List Char → Option Int
  | '+' :: digits => (natural? digits).map Int.ofNat
  | '-' :: digits => (natural? digits).map fun n => -Int.ofNat n
  | digits => (natural? digits).map Int.ofNat

example : integer? "-007".toList = some (-7) := by decide
example : integer? "+-7".toList = none := by decide

end PriorityDonation.Text
