import StoneBoard.Text.Ranges

/-!
# White space, words and lines

Blank characters are those with the Unicode property `White_Space`.  Text is cut into
words at runs of blanks and into lines at line feeds; a carriage return right before a
line feed belongs to the line end.
-/

namespace StoneBoard.Text

def blankRanges : List (Nat × Nat) :=
  [(0x85, 0x85), (0xA0, 0xA0), (0x1680, 0x1680), (0x2000, 0x200A), (0x2028, 0x2029),
   (0x202F, 0x202F), (0x205F, 0x205F), (0x3000, 0x3000)]

/-- White space: the ASCII space, the controls from tab to carriage return, and the
blanks beyond ASCII. -/
def isBlank (character : Char) : Bool :=
  if isAscii character then
    character == ' ' || (0x9 ≤ character.toNat && character.toNat ≤ 0xD)
  else covers blankRanges character

def trimmed (characters : List Char) : List Char :=
  ((characters.dropWhile isBlank).reverse.dropWhile isBlank).reverse

def trim (text : String) : String :=
  String.ofList (trimmed text.toList)

/-- Words of the characters, where `word` holds the word begun so far, last character
first. -/
def wordsFrom (word : List Char) : List Char → List (List Char)
  | [] => if word.isEmpty then [] else [word.reverse]
  | character :: rest =>
      if isBlank character then
        if word.isEmpty then wordsFrom [] rest else word.reverse :: wordsFrom [] rest
      else wordsFrom (character :: word) rest

def words (text : String) : List String :=
  (wordsFrom [] text.toList).map String.ofList

/-- Removes the carriage return that ends a line, given last character first. -/
def withoutReturn : List Char → List Char
  | '\r' :: line => line
  | line => line

/-- Lines of the characters, where `line` holds the line begun so far, last character
first.  Only a line that a line feed ends loses its carriage return. -/
def linesFrom (line : List Char) : List Char → List (List Char)
  | [] => if line.isEmpty then [] else [line.reverse]
  | character :: rest =>
      if character = '\n' then (withoutReturn line).reverse :: linesFrom [] rest
      else linesFrom (character :: line) rest

def lines (text : String) : List String :=
  (linesFrom [] text.toList).map String.ofList

end StoneBoard.Text
