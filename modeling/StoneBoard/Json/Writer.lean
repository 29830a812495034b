import StoneBoard.Json

/-!
# Writing JSON

JSON without blanks or line breaks.  In strings, quotes, backslashes and controls are
escaped and nothing else is.
-/

namespace StoneBoard.Json

def controlEscape (character : Char) : String :=
  let digits := String.ofList (Nat.toDigits 16 character.toNat)
  "\\u00" ++ (if digits.length < 2 then "0" ++ digits else digits)

def writtenCharacter (character : Char) : String :=
  match character with
  | '"' => "\\\""
  | '\\' => "\\\\"
  | '\x08' => "\\b"
  | '\x0c' => "\\f"
  | '\n' => "\\n"
  | '\r' => "\\r"
  | '\t' => "\\t"
  | _ => if character.toNat < 0x20 then controlEscape character else character.toString

def writtenString (text : String) : String :=
  "\"" ++ String.join (text.toList.map writtenCharacter) ++ "\""

mutual

def render : Json → String
  | .null => "null"
  | .bool true => "true"
  | .bool false => "false"
  | .int number => toString number
  | .real text => text
  | .string text => writtenString text
  | .array items => "[" ++ String.intercalate "," (renderItems items) ++ "]"
  | .object fields => "\x7b" ++ String.intercalate "," (renderFields fields) ++ "\x7d"

def renderItems : List Json → List String
  | [] => []
  | first :: rest => render first :: renderItems rest

def renderFields : List (String × Json) → List String
  | [] => []
  | (key, value) :: rest =>
      (writtenString key ++ ":" ++ render value) :: renderFields rest

end

end StoneBoard.Json
