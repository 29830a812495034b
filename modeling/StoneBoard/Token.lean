import StoneBoard.Span

/-!
# Tokens

The smallest units of a program text: numbers, strings, names, keywords and marks.
-/

namespace StoneBoard

inductive Keyword where
  | procedure | function | returnWord | ifWord | elseWord | whileWord | repeatWith
  | inWord | case | of | fromWord | importWord | not | div | mod | skip | boom
deriving DecidableEq, Repr

namespace Keyword

def all : List Keyword :=
  [procedure, function, returnWord, ifWord, elseWord, whileWord, repeatWith, inWord, case, of,
   fromWord, importWord, not, div, mod, skip, boom]

def text : Keyword → String
  | procedure => "procedure"
  | function => "function"
  | returnWord => "return"
  | ifWord => "if"
  | elseWord => "else"
  | whileWord => "while"
  | repeatWith => "repeatWith"
  | inWord => "in"
  | case => "case"
  | of => "of"
  | fromWord => "from"
  | importWord => "import"
  | not => "not"
  | div => "div"
  | mod => "mod"
  | skip => "Skip"
  | boom => "BOOM"

def ofText? (word : String) : Option Keyword :=
  all.find? fun keyword => keyword.text == word

end Keyword

inductive Mark where
  | plus | minus | star | caret | assign
  | equal | notEqual | less | lessEqual | greater | greaterEqual | and | or
  | arrow | dots | underscore
  | leftParen | rightParen | leftBrace | rightBrace | leftBracket | rightBracket
  | comma | semicolon
deriving DecidableEq, Repr

namespace Mark

def text : Mark → String
  | plus => "+"
  | minus => "-"
  | star => "*"
  | caret => "^"
  | assign => ":="
  | equal => "=="
  | notEqual => "/="
  | less => "<"
  | lessEqual => "<="
  | greater => ">"
  | greaterEqual => ">="
  | and => "&&"
  | or => "||"
  | arrow => "->"
  | dots => ".."
  | underscore => "_"
  | leftParen => "("
  | rightParen => ")"
  | leftBrace => "\x7b"
  | rightBrace => "\x7d"
  | leftBracket => "["
  | rightBracket => "]"
  | comma => ","
  | semicolon => ";"

end Mark

inductive TokenKind where
  | number (value : Nat)
  | string (value : String)
  /-- a name that starts with a capital -/
  | upper (name : String)
  /-- any other name -/
  | lower (name : String)
  | keyword (word : Keyword)
  | mark (sign : Mark)
  | endOfInput
deriving DecidableEq, Repr

namespace TokenKind

def text : TokenKind → String
  | number value => toString value
  | string value => "\"" ++ value ++ "\""
  | upper name => name
  | lower name => name
  | keyword word => word.text
  | mark sign => sign.text
  | endOfInput => "end of input"

end TokenKind

structure Token where
  kind : TokenKind
  span : Span
  lexeme : String
deriving DecidableEq, Repr

end StoneBoard
