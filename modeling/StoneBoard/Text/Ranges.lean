/-!
# Ranges of code points

A property of characters beyond ASCII is an ascending list of inclusive ranges of code points.
Long lists are given by the lengths of the runs without and with the property.  All of them are
for version 17 of Unicode.
-/

namespace StoneBoard.Text

/-- The ranges from a code point on: in turn, how many code points are left out before a
range, and how many belong to it besides its first one. -/
def ofRuns (first : Nat) : List Nat → List (Nat × Nat)
  | gap :: more :: rest =>
      (first + gap, first + gap + more) :: ofRuns (first + gap + more + 1) rest
  | _ => []

def covers (ranges : List (Nat × Nat)) (character : Char) : Bool :=
  ranges.any fun range => range.1 ≤ character.toNat && character.toNat ≤ range.2

def isAscii (character : Char) : Bool :=
  character.toNat < 0x80

end StoneBoard.Text
