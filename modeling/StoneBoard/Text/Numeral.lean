/-!
# Unsigned numbers in text

Counts, coordinates and durations are written in decimal and are below `2 ^ 64`.
-/

namespace StoneBoard.Text

def maxCount : Nat := 18446744073709551615

def digitsValue (digits : List Char) : Nat :=
  digits.foldl (fun value digit => 10 * value + (digit.toNat - '0'.toNat)) 0

/-- Reads decimal digits after an optional plus sign; at least one digit, and a value of
at most `maxCount`. -/
def readCount? (text : String) : Option Nat :=
  let digits := match text.toList with
    | '+' :: rest => rest
    | characters => characters
  if digits.isEmpty || !digits.all Char.isDigit then none
  else
    let value := digitsValue digits
    if value ≤ maxCount then some value else none

end StoneBoard.Text
