import StoneBoard.Text.Ranges

/-!
# Capital letters

A capital is a character with the Unicode property `Uppercase`.  Title case digraphs
are no capitals.
-/

namespace StoneBoard.Text

/-- So many single capitals, each with a small letter behind it. -/
def alternating (count : Nat) : List Nat := (List.replicate count [0, 1]).flatten

def capitalRanges : List (Nat × Nat) :=
  ofRuns 0x80 ([64,22,1,6,33] ++ alternating 27 ++ [0,2,0,1,0,1,0,1,0,1,0,1,0,1,0,1,0,2] ++
    alternating 23 ++ [1,1,0,1,0,3,1,1,0,1,1,1,2,2,3,1,1,1,2,3,1,1,1,1,0,1,0,1,1,1,0,2,0,1,1,1,2,1,
    0,1,1,3,0,7,0,2,0,2,0,2,0,1,0,1,0,1,0,1,0,1,0,1,0,1,0,2] ++ alternating 8 ++ [0,2,0,2,0,1,2,1]
    ++ alternating 28 ++ [0,7,1,1,1,2,0,1,3,1,0,1,0,1,0,1,0,289,0,1,0,3,0,8,0,6,0,1,2,1,0,1,1,1,16,
    1,8,35,0,2,2,3] ++ alternating 11 ++ [0,5,0,2,0,1,1,2,50,48] ++ alternating 16 ++ [0,9] ++
    alternating 27 ++ [1,1,0,1,0,1,0,1,0,1,0,1,0,2] ++ alternating 47 ++ [0,2,37,2889,37,1,0,5,0,
    722,85,2195,0,6,42,2,2,320] ++ alternating 74 ++ [0,9] ++ alternating 48 ++ [0,9,7,8,5,10,7,8,7,
    8,5,11,0,1,0,1,0,1,0,8,7,72,3,12,3,12,3,12,4,11,3,262,0,4,0,3,2,2,2,2,0,3,4,6,0,1,0,1,0,1,3,2,3,
    10,1,5,0,26,15,19,0,818,25,1840,47,48,0,1,2,2,0,1,0,1,0,1,3,1,0,2,0,8,2,1] ++ alternating 48 ++
    [0,8,0,1,0,4,0,31053] ++ alternating 22 ++ [0,19] ++ alternating 13 ++ [0,135,0,1,0,1,0,1,0,1,0,
    1,0,1,0,3] ++ alternating 30 ++ [0,10,0,1,0,1,1,1,0,1,0,1,0,1,0,4,0,1,0,2,0,1,0,3] ++
    alternating 10 ++ [4,1,4,1,0,1,0,1,0,1,0,1,0,1,0,1,0,1,3,1,0,1,1,1,0,1,0,1,0,1,0,1,0,1,0,1,0,1,
    0,24,0,22315,25,1221,39,136,35,156,10,1,14,1,6,1,1,1770,50,157,21,2874,31,21888,31,64,24,25927,
    25,26,25,26,25,26,0,1,1,2,0,2,1,2,3,1,7,26,25,26,1,1,3,2,7,1,6,27,1,1,3,1,4,1,0,3,6,27,25,26,25,
    26,25,26,25,26,25,26,25,30,24,33,24,33,24,33,24,33,24,33,0,4405,33,2062,25,6,25,6,25])

/-- A name that starts with a capital is a procedure, a constant or a module. -/
def isCapital (character : Char) : Bool :=
  if isAscii character then character.isUpper else covers capitalRanges character

end StoneBoard.Text
