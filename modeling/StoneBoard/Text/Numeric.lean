import StoneBoard.Text.Ranges

/-!
# Numeric characters

A numeric character belongs to one of the Unicode categories `Nd`, `Nl` and `No`.
Only the ASCII digits form numbers; the others may stand inside a name.
-/

namespace StoneBoard.Text

def numericRanges : List (Nat × Nat) :=
  ofRuns 0x80 [50,1,5,0,2,2,1441,9,134,9,198,9,412,9,118,9,4,5,108,9,118,9,118,9,2,5,110,12,115,9,8,
    6,103,9,104,6,7,18,109,9,96,9,118,9,70,19,268,9,70,9,719,19,881,2,239,9,6,9,22,9,300,9,128,10,
    165,9,6,9,182,9,86,9,134,9,6,9,1046,0,3,5,6,9,198,50,2,4,726,59,78,21,630,29,1385,0,777,0,25,8,
    14,2,343,3,138,9,30,7,1,14,32,9,39,14,29536,9,188,9,320,5,154,9,38,9,198,9,22,9,86,9,406,9,
    21270,9,493,44,12,56,17,1,341,26,36,3,29,0,8,0,134,4,202,9,942,7,25,6,39,8,75,4,22,5,160,1,2,15,
    2,45,64,8,52,1,30,2,75,4,104,7,24,7,41,6,330,5,48,9,6,9,278,30,158,9,42,3,112,6,134,29,128,9,60,
    9,144,9,7,19,251,9,342,9,118,9,374,9,102,9,6,19,76,11,420,18,93,9,662,9,86,28,227,9,70,9,54,9,
    358,9,102,20,1067,110,15553,9,2342,9,86,9,134,9,1,6,526,9,262,22,349,2,23801,9,1478,19,12,19,
    108,24,1109,49,2368,9,422,9,502,9,247,9,716,8,128,9,791,58,1,2,1,3,76,44,1,14,962,12,2787,9]

def isNumeric (character : Char) : Bool :=
  if isAscii character then character.isDigit else covers numericRanges character

end StoneBoard.Text
