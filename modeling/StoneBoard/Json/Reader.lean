import StoneBoard.Json

/-!
# Reading JSON

The text is first cut into tokens, character by character; then the tokens build the
value on a stack of open arrays and objects.  How deep these may nest is limited.
-/

namespace StoneBoard.Json

def isSpace (character : Char) : Bool :=
  character == ' ' || character == '\n' || character == '\t' || character == '\r'

inductive Token where
  | openArray | closeArray | openObject | closeObject | comma | colon
  | scalar (value : Json)
deriving Repr

/-! ## Numbers -/

structure Numeral where
  negative : Bool
  whole : List Char
  fraction : List Char
  exponent : Int
  /-- whether there is neither point nor exponent -/
  plain : Bool

def digitsToNat (digits : List Char) : Nat :=
  digits.foldl (fun value digit => 10 * value + (digit.toNat - '0'.toNat)) 0

def readExponent? (characters : List Char) : Option Int :=
  let (negative, digits) := match characters with
    | '+' :: digits => (false, digits)
    | '-' :: digits => (true, digits)
    | digits => (false, digits)
  if digits.isEmpty || !digits.all Char.isDigit then none
  else
    let value : Int := digitsToNat digits
    some (if negative then -value else value)

def readTail? (negative : Bool) (whole : List Char) : List Char → Option Numeral
  | [] => some ⟨negative, whole, [], 0, true⟩
  | '.' :: rest =>
      let fraction := rest.takeWhile Char.isDigit
      if fraction.isEmpty then none
      else
        match rest.dropWhile Char.isDigit with
        | [] => some ⟨negative, whole, fraction, 0, false⟩
        | 'e' :: digits | 'E' :: digits =>
            (readExponent? digits).map fun value => ⟨negative, whole, fraction, value, false⟩
        | _ => none
  | 'e' :: digits | 'E' :: digits =>
      (readExponent? digits).map fun value => ⟨negative, whole, [], value, false⟩
  | _ => none

/-- A number.  Zero is the only number before the point that starts with a zero. -/
def readNumeral? (characters : List Char) : Option Numeral :=
  let (negative, rest) := match characters with
    | '-' :: rest => (true, rest)
    | rest => (false, rest)
  let whole := rest.takeWhile Char.isDigit
  let leadingZero := whole.head? == some '0' && 1 < whole.length
  if whole.isEmpty || leadingZero then none
  else readTail? negative whole (rest.dropWhile Char.isDigit)

/-- Whether a number is below the largest that double precision can round to. -/
def Numeral.isFinite (numeral : Numeral) : Bool :=
  let significand := digitsToNat (numeral.whole ++ numeral.fraction)
  let scale : Int := numeral.exponent - numeral.fraction.length
  let limit : Nat := Nat.pow 2 1024 - Nat.pow 2 970
  if significand == 0 || scale < -20000 then true
  else if 400 < scale then false
  else if 0 ≤ scale then significand * Nat.pow 10 scale.toNat < limit
  else significand < limit * Nat.pow 10 (-scale).toNat

def isWord (value : Int) : Bool :=
  -9223372036854775808 ≤ value && value ≤ 18446744073709551615

def number? (characters : List Char) : Option Json := do
  let numeral ← readNumeral? characters
  let magnitude : Int := digitsToNat numeral.whole
  let value := if numeral.negative then -magnitude else magnitude
  let negativeZero := numeral.negative && magnitude == 0
  if numeral.plain && !negativeZero && isWord value then some (.int value)
  else if numeral.isFinite then some (.real (String.ofList characters))
  else none

/-! ## Strings -/

inductive StringState where
  | plain
  | escape
  /-- inside a number of four hexadecimal digits: how many are missing, their value so
  far, and the first half of a pair if there is one -/
  | hex (missing value : Nat) (high : Option Nat)
  /-- before the backslash of the second half of a pair -/
  | pair (high : Nat)
  /-- after that backslash -/
  | pairEscape (high : Nat)
deriving DecidableEq, Repr

inductive StringStep where
  | more (state : StringState) (read : List Char)
  | done (read : List Char)
  | bad

def escaped? (character : Char) : Option Char :=
  match character with
  | '"' => some '"'
  | '\\' => some '\\'
  | '/' => some '/'
  | 'b' => some '\x08'
  | 'f' => some '\x0c'
  | 'n' => some '\n'
  | 'r' => some '\r'
  | 't' => some '\t'
  | _ => none

def hexDigit? (character : Char) : Option Nat :=
  if character.isDigit then some (character.toNat - '0'.toNat)
  else if 'a' ≤ character ∧ character ≤ 'f' then some (character.toNat - 'a'.toNat + 10)
  else if 'A' ≤ character ∧ character ≤ 'F' then some (character.toNat - 'A'.toNat + 10)
  else none

/-- A complete number of an escape: a character, or half of a pair. -/
def unitStep (unit : Nat) (high : Option Nat) (read : List Char) : StringStep :=
  let isHigh := 0xD800 ≤ unit && unit < 0xDC00
  let isLow := 0xDC00 ≤ unit && unit < 0xE000
  match high with
  | some first =>
      if isLow then
        let code := 0x10000 + (first - 0xD800) * 0x400 + (unit - 0xDC00)
        .more .plain (Char.ofNat code :: read)
      else .bad
  | none =>
      if isHigh then .more (.pair unit) read
      else if isLow then .bad
      else .more .plain (Char.ofNat unit :: read)

/-- One more character of a string; `read` holds the value so far, last character
first. -/
def stringStep (state : StringState) (read : List Char) (character : Char) : StringStep :=
  match state with
  | .plain =>
      if character = '"' then .done read
      else if character = '\\' then .more .escape read
      else if character.toNat < 0x20 then .bad
      else .more .plain (character :: read)
  | .escape =>
      if character = 'u' then .more (.hex 4 0 none) read
      else
        match escaped? character with
        | some value => .more .plain (value :: read)
        | none => .bad
  | .hex missing value high =>
      match hexDigit? character with
      | none => .bad
      | some digit =>
          let value := 16 * value + digit
          if missing ≤ 1 then unitStep value high read
          else .more (.hex (missing - 1) value high) read
  | .pair high => if character = '\\' then .more (.pairEscape high) read else .bad
  | .pairEscape high => if character = 'u' then .more (.hex 4 0 (some high)) read else .bad

/-! ## Tokens -/

inductive Mode where
  | between
  /-- a number, its characters so far last first -/
  | number (read : List Char)
  /-- a word, its characters so far last first -/
  | word (read : List Char)
  | string (state : StringState) (read : List Char)

def word? (characters : List Char) : Option Json :=
  match String.ofList characters with
  | "null" => some .null
  | "true" => some (.bool true)
  | "false" => some (.bool false)
  | _ => none

def inNumber (character : Char) : Bool :=
  character.isDigit || character == '-' || character == '+' || character == '.' ||
    character == 'e' || character == 'E'

/-- The first character of a token: the tokens that it completes, and how to go on. -/
def begin? (character : Char) : Option (List Token × Mode) :=
  match character with
  | '[' => some ([.openArray], .between)
  | ']' => some ([.closeArray], .between)
  | '{' => some ([.openObject], .between)
  | '}' => some ([.closeObject], .between)
  | ',' => some ([.comma], .between)
  | ':' => some ([.colon], .between)
  | '"' => some ([], .string .plain [])
  | _ =>
      if isSpace character then some ([], .between)
      else if character.isDigit || character == '-' then some ([], .number [character])
      else if character.isAlpha then some ([], .word [character])
      else none

def tokensFrom (tokens : List Token) : Mode → List Char → Option (List Token)
  | .between, [] => some tokens.reverse
  | .number read, [] =>
      match number? read.reverse with
      | some value => some (.scalar value :: tokens).reverse
      | none => none
  | .word read, [] =>
      match word? read.reverse with
      | some value => some (.scalar value :: tokens).reverse
      | none => none
  | .string _ _, [] => none
  | .between, character :: rest =>
      match begin? character with
      | some (begun, mode) => tokensFrom (begun ++ tokens) mode rest
      | none => none
  | .number read, character :: rest =>
      if inNumber character then tokensFrom tokens (.number (character :: read)) rest
      else
        match number? read.reverse, begin? character with
        | some value, some (begun, mode) =>
            tokensFrom (begun ++ .scalar value :: tokens) mode rest
        | _, _ => none
  | .word read, character :: rest =>
      if character.isAlpha then tokensFrom tokens (.word (character :: read)) rest
      else
        match word? read.reverse, begin? character with
        | some value, some (begun, mode) =>
            tokensFrom (begun ++ .scalar value :: tokens) mode rest
        | _, _ => none
  | .string state read, character :: rest =>
      match stringStep state read character with
      | .more state read => tokensFrom tokens (.string state read) rest
      | .done read =>
          tokensFrom (.scalar (.string (String.ofList read.reverse)) :: tokens) .between rest
      | .bad => none

/-! ## Values -/

/-- An array or object whose end has not been reached, its contents last first. -/
inductive Open where
  | array (items : List Json)
  | object (fields : List (String × Json))
  /-- an object after a key -/
  | field (fields : List (String × Json)) (key : String)

inductive Expectation where
  | value
  /-- right after the start of an array or object, which may end at once -/
  | start
  /-- after a comma in an object -/
  | key
  | colon
  | separator
  /-- nothing: the value is complete -/
  | nothing (value : Json)

/-- The open arrays and objects, innermost first, and what may come next. -/
structure Building where
  pending : List Open
  expects : Expectation

def place (value : Json) : List Open → Option Building
  | [] => some ⟨[], .nothing value⟩
  | .array items :: outer => some ⟨.array (value :: items) :: outer, .separator⟩
  | .field fields key :: outer => some ⟨.object ((key, value) :: fields) :: outer, .separator⟩
  | .object _ :: _ => none

def nest? (limit : Nat) (inner : Open) (pending : List Open) : Option Building :=
  if pending.length < limit then some ⟨inner :: pending, .start⟩ else none

def build (limit : Nat) (state : Building) (token : Token) : Option Building :=
  match state.expects, token, state.pending with
  | .value, .scalar value, pending => place value pending
  | .value, .openArray, pending => nest? limit (.array []) pending
  | .value, .openObject, pending => nest? limit (.object []) pending
  | .start, .scalar value, .array items :: outer => place value (.array items :: outer)
  | .start, .openArray, .array items :: outer => nest? limit (.array []) (.array items :: outer)
  | .start, .openObject, .array items :: outer =>
      nest? limit (.object []) (.array items :: outer)
  | .start, .closeArray, .array items :: outer => place (.array items.reverse) outer
  | .start, .closeObject, .object fields :: outer => place (.object fields.reverse) outer
  | .start, .scalar (.string key), .object fields :: outer =>
      some ⟨.field fields key :: outer, .colon⟩
  | .key, .scalar (.string key), .object fields :: outer =>
      some ⟨.field fields key :: outer, .colon⟩
  | .colon, .colon, pending => some ⟨pending, .value⟩
  | .separator, .comma, .array items :: outer => some ⟨.array items :: outer, .value⟩
  | .separator, .comma, .object fields :: outer => some ⟨.object fields :: outer, .key⟩
  | .separator, .closeArray, .array items :: outer => place (.array items.reverse) outer
  | .separator, .closeObject, .object fields :: outer => place (.object fields.reverse) outer
  | _, _, _ => none

def buildAll (limit : Nat) : Building → List Token → Option Json
  | ⟨_, .nothing value⟩, [] => some value
  | _, [] => none
  | state, token :: rest =>
      match build limit state token with
      | some state => buildAll limit state rest
      | none => none

/-- The value of a JSON text in which arrays and objects nest at most `limit` deep. -/
def read? (limit : Nat) (text : String) : Option Json :=
  match tokensFrom [] .between text.toList with
  | some tokens => buildAll limit ⟨[], .value⟩ tokens
  | none => none

end StoneBoard.Json
