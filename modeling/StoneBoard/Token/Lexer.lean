import StoneBoard.Error
import StoneBoard.Text.Capital
import StoneBoard.Text.Letter
import StoneBoard.Text.Numeric
import StoneBoard.Token

/-!
# Cutting a text into tokens

Between tokens stand white space and comments.  A comment runs from `//` or `--` to the
end of the line, or between `/*` and `*/`, or between `{-` and `-}`; comments do not
nest.  A token takes as many characters as it can.
-/

namespace StoneBoard.Lexer

/-- What the text between two tokens is part of. -/
inductive Gap where
  | blank
  | line
  /-- a comment that began at a position and ends with a pair of characters -/
  | block (opening : Position) (first second : Char)
deriving DecidableEq, Repr

def commentOf? (position : Position) (first second : Char) : Option Gap :=
  match first, second with
  | '/', '/' => some .line
  | '-', '-' => some .line
  | '/', '*' => some (.block position '*' '/')
  | '{', '-' => some (.block position '-' '}')
  | _, _ => none

def skip : Gap → Position → List Char → Except Error (Position × List Char)
  | .blank, position, [] => .ok (position, [])
  | .line, position, [] => .ok (position, [])
  | .block opening _ _, _, [] =>
      .error (.located .unterminatedComment (.between opening (opening.offset + 2)))
  | .blank, position, first :: rest =>
      if Text.isBlank first then skip .blank (position.after first) rest
      else
        match rest with
        | [] => .ok (position, [first])
        | second :: later =>
            match commentOf? position first second with
            | some gap => skip gap ((position.after first).after second) later
            | none => .ok (position, first :: second :: later)
  | .line, position, first :: rest =>
      if first = '\n' then skip .blank (position.after first) rest
      else skip .line (position.after first) rest
  | .block opening closing closingEnd, position, first :: rest =>
      match rest with
      | [] => .error (.located .unterminatedComment (.between opening (opening.offset + 2)))
      | second :: later =>
          if first = closing ∧ second = closingEnd then
            skip .blank ((position.after first).after second) later
          else skip (.block opening closing closingEnd) (position.after first) (second :: later)

def pairMark? (first second : Char) : Option Mark :=
  match first, second with
  | '-', '>' => some .arrow
  | ':', '=' => some .assign
  | '.', '.' => some .dots
  | '=', '=' => some .equal
  | '/', '=' => some .notEqual
  | '<', '=' => some .lessEqual
  | '>', '=' => some .greaterEqual
  | '&', '&' => some .and
  | '|', '|' => some .or
  | _, _ => none

def singleMark? (character : Char) : Option Mark :=
  match character with
  | '(' => some .leftParen
  | ')' => some .rightParen
  | '{' => some .leftBrace
  | '}' => some .rightBrace
  | '[' => some .leftBracket
  | ']' => some .rightBracket
  | ',' => some .comma
  | ';' => some .semicolon
  | '+' => some .plus
  | '-' => some .minus
  | '*' => some .star
  | '^' => some .caret
  | '<' => some .less
  | '>' => some .greater
  | '_' => some .underscore
  | _ => none

def unescape (character : Char) : Char :=
  match character with
  | 'n' => '\n'
  | 't' => '\t'
  | other => other

/-- A token kind, the characters it is spelled with, and the characters after it. -/
structure Scanned where
  kind : TokenKind
  lexeme : List Char
  rest : List Char

/-- The value and the spelling of a string after its opening quote, and the characters
after its closing quote. -/
def scanString : List Char → Option (List Char × List Char × List Char)
  | [] => none
  | '"' :: rest => some ([], ['"'], rest)
  | '\\' :: [] => none
  | '\\' :: character :: rest =>
      match scanString rest with
      | some (value, spelling, later) =>
          some (unescape character :: value, '\\' :: character :: spelling, later)
      | none => none
  | character :: rest =>
      match scanString rest with
      | some (value, spelling, later) => some (character :: value, character :: spelling, later)
      | none => none

/-- Names continue with letters, numeric characters, underscores and primes. -/
def continuesName (character : Char) : Bool :=
  Text.isLetter character || Text.isNumeric character || character == '_' || character == '\x27'

/-- A name is a keyword, or it is told apart by its first letter. -/
def nameKind (name : List Char) : TokenKind :=
  let text := String.ofList name
  match Keyword.ofText? text with
  | some word => .keyword word
  | none =>
      match name with
      | first :: _ => if Text.isCapital first then .upper text else .lower text
      | [] => .lower text

/-- The mark at the front of the characters, the longer one first. -/
def scanMark (first : Char) (rest : List Char) : Option Scanned :=
  let single := (singleMark? first).map fun mark => ⟨.mark mark, [first], rest⟩
  match rest with
  | [] => single
  | second :: later =>
      match pairMark? first second with
      | some mark => some ⟨.mark mark, [first, second], later⟩
      | none => single

def scan (first : Char) (rest : List Char) : Except Cause Scanned :=
  match scanMark first rest with
  | some scanned => .ok scanned
  | none =>
      if first = '"' then
        match scanString rest with
        | some (value, spelling, later) =>
            .ok ⟨.string (String.ofList value), first :: spelling, later⟩
        | none => .error .unterminatedString
      else if first.isDigit then
        let digits := first :: rest.takeWhile Char.isDigit
        .ok ⟨.number (Text.digitsValue digits), digits, rest.dropWhile Char.isDigit⟩
      else if Text.isLetter first then
        let name := first :: rest.takeWhile continuesName
        .ok ⟨nameKind name, name, rest.dropWhile continuesName⟩
      else .error (.unexpectedCharacter first)

/-- Where a token that cannot be read ends: an open string runs to the end of the text. -/
def faultStop (position : Position) (first : Char) (rest : List Char) : Cause → Nat
  | .unterminatedString => (position.afterAll (first :: rest)).offset
  | _ => (position.after first).offset

theorem skip_length_le {gap : Gap} {position : Position} {characters : List Char}
    {result : Position × List Char} (skipped : skip gap position characters = .ok result) :
    result.2.length ≤ characters.length := by
  fun_induction skip gap position characters <;> grind

theorem scanString_length_lt {characters value spelling later : List Char}
    (scanned : scanString characters = some (value, spelling, later)) :
    later.length < characters.length := by
  fun_induction scanString characters generalizing value spelling later <;> grind

theorem scanMark_length_le {first : Char} {rest : List Char} {scanned : Scanned}
    (isMark : scanMark first rest = some scanned) : scanned.rest.length ≤ rest.length := by
  cases rest with
  | nil => cases single : singleMark? first <;> grind [scanMark]
  | cons second later => cases single : singleMark? first <;> grind [scanMark]

theorem scan_length_le {first : Char} {rest : List Char} {scanned : Scanned}
    (isToken : scan first rest = .ok scanned) : scanned.rest.length ≤ rest.length := by
  have digitsShorter := (List.dropWhile_sublist Char.isDigit (l := rest)).length_le
  have nameShorter := (List.dropWhile_sublist continuesName (l := rest)).length_le
  unfold scan at isToken
  split at isToken
  next found isMark => cases isToken; exact scanMark_length_le isMark
  next =>
    split at isToken
    next =>
      split at isToken
      next closed =>
        cases isToken
        exact Nat.le_of_lt (scanString_length_lt closed)
      next => cases isToken
    next => grind

/-- The tokens of the characters from a position on.  The last token is the end of the
input. -/
def tokensFrom (position : Position) (characters : List Char) : Except Error (List Token) :=
  match skipped : skip .blank position characters with
  | .error error => .error error
  | .ok (position, []) => .ok [⟨.endOfInput, .between position position.offset, ""⟩]
  | .ok (position, first :: rest) =>
      match isToken : scan first rest with
      | .error cause =>
          .error (.located cause (.between position (faultStop position first rest cause)))
      | .ok scanned =>
          let stop := position.afterAll scanned.lexeme
          let token := ⟨scanned.kind, .between position stop.offset,
            String.ofList scanned.lexeme⟩
          match tokensFrom stop scanned.rest with
          | .error error => .error error
          | .ok tokens => .ok (token :: tokens)
termination_by characters.length
decreasing_by
  have shorter := skip_length_le skipped
  have shorterStill := scan_length_le isToken
  simp only [List.length_cons] at shorter
  omega

end StoneBoard.Lexer

namespace StoneBoard

def tokenize (source : String) : Except Error (List Token) :=
  Lexer.tokensFrom .start source.toList

end StoneBoard
