import StoneBoard.Text.Combining
import StoneBoard.Text.Hidden

/-!
# Quoted text

A text in double quotes in which everything that could not be read off the page is
escaped: quotes and backslashes by a backslash, the usual controls by a letter, and
combining or hidden characters by their number in hexadecimal.
-/

namespace StoneBoard.Text

def numericEscape (character : Char) : String :=
  "\\u\x7b" ++ String.ofList (Nat.toDigits 16 character.toNat) ++ "\x7d"

def quotedCharacter (character : Char) : String :=
  match character with
  | '\x00' => "\\0"
  | '\t' => "\\t"
  | '\r' => "\\r"
  | '\n' => "\\n"
  | '"' => "\\\""
  | '\\' => "\\\\"
  | _ =>
      if isCombining character || isHidden character then numericEscape character
      else character.toString

def quoted (text : String) : String :=
  "\"" ++ String.join (text.toList.map quotedCharacter) ++ "\""

/-- A single character between apostrophes; of the quotes, only an apostrophe is
escaped. -/
def quotedSingle (character : Char) : String :=
  match character with
  | '\x27' => "'\\''"
  | '"' => "'\"'"
  | _ => "'" ++ quotedCharacter character ++ "'"

end StoneBoard.Text
