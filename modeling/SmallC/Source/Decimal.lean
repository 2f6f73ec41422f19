/-! Whole numbers in decimal digits, with a bound on their value. -/

namespace SmallC

/-- The value of a run of decimal digits. -/
def digitsValue (digits : List Char) : Nat :=
  digits.foldl (fun value digit => value * 10 + (digit.toNat - '0'.toNat)) 0

/-- The number that a text of digits, perhaps after a plus sign, denotes below the bound. -/
def decimalBelow? (bound : Nat) (text : String) : Option Nat :=
  -- The whole text must be digits, at least one, and leading zeros do not count.
  let digits := match text.toList with
    | '+' :: rest => rest
    | all => all
  if digits.isEmpty || !digits.all Char.isDigit then none
  else
    let value := digitsValue digits
    if value < bound then some value else none

end SmallC
