/-!
# Text in columns

Padding to a width.  A text that is longer than the width is left as it is.
-/

namespace StoneBoard.Text

def fill (count : Nat) (character : Char) : String :=
  String.ofList (List.replicate count character)

def alignRight (width : Nat) (text : String) (padding : Char) : String :=
  fill (width - text.length) padding ++ text

/-- Pads with spaces on both sides; an odd space goes to the right. -/
def centre (width : Nat) (text : String) : String :=
  let missing := width - text.length
  fill (missing / 2) ' ' ++ text ++ fill (missing - missing / 2) ' '

end StoneBoard.Text
