import StoneBoard.Error
import StoneBoard.Json
import StoneBoard.Value

/-!
# Values and errors as JSON

How values, spans and errors are written between a worker and its caller, and how they are read
back.  A choice between constructors is written as the name alone, or as an object with one field:
the name and what comes with it.

A `lenient` reader also accepts records written as arrays of their fields, and an empty object
where nothing comes with a name.
-/

namespace StoneBoard

namespace Wire

def tagged (tag : String) (payload : Json) : Json := .object [(tag, payload)]

def plainTag? (lenient : Bool) : Json → Option String
  | .string tag => some tag
  | .object [(tag, .null)] => some tag
  | .object [(tag, .object [])] => if lenient then some tag else none
  | _ => none

/-! ## Integers -/

def base : Nat := 4294967296

/-- The digits of a number, least significant first and without leading zeros. -/
def digits (number : Nat) : List Nat :=
  if positive : 0 < number then
    number % base :: digits (number / base)
  else []
termination_by number
decreasing_by exact Nat.div_lt_self positive (by decide)

def ofDigits (digits : List Nat) : Nat :=
  digits.foldr (fun digit number => digit + base * number) 0

def integerToJson (number : Int) : Json :=
  .array [.int number.sign, .array ((digits number.natAbs).map Json.nat)]

def digit? (json : Json) : Option Nat :=
  json.nat?.filter fun digit => digit < base

/-- An integer; leading zeros do no harm, and the sign zero means zero. -/
def integerOfJson? : Json → Option Int
  | .array [.int sign, .array items] => do
      let magnitude := ofDigits (← items.mapM digit?)
      if sign = 0 then return 0
      else if sign = 1 then return magnitude
      else if sign = -1 then return -magnitude
      else none
  | _ => none

end Wire

open Wire

/-! ## Values -/

namespace Value

mutual

def toJson : Value → Json
  | .int number => tagged "Int" (integerToJson number)
  | .bool truth => tagged "Bool" (.bool truth)
  | .color shade => tagged "Color" (.string shade.name)
  | .direction heading => tagged "Dir" (.string heading.name)
  | .list items => tagged "List" (.array (toJsonAll items))

def toJsonAll : List Value → List Json
  | [] => []
  | first :: rest => toJson first :: toJsonAll rest

end

mutual

def ofJson? (lenient : Bool) : Json → Option Value
  | .object [("Int", payload)] => (integerOfJson? payload).map .int
  | .object [("Bool", .bool truth)] => some (.bool truth)
  | .object [("Color", payload)] => do
      return .color (← Color.ofName? (← plainTag? lenient payload))
  | .object [("Dir", payload)] => do
      return .direction (← Direction.ofName? (← plainTag? lenient payload))
  | .object [("List", .array items)] => (ofJsonAll? lenient items).map .list
  | _ => none

def ofJsonAll? (lenient : Bool) : List Json → Option (List Value)
  | [] => some []
  | first :: rest => do
      return (← ofJson? lenient first) :: (← ofJsonAll? lenient rest)

end

end Value

namespace Wire

def bindingToJson (binding : String × Value) : Json :=
  .array [.string binding.1, binding.2.toJson]

def bindingOfJson? (lenient : Bool) : Json → Option (String × Value)
  | .array [.string name, value] => (Value.ofJson? lenient value).map fun value => (name, value)
  | _ => none

end Wire

/-! ## Spans -/

namespace Span

def toJson (span : Span) : Json :=
  .object [("start", .nat span.start), ("end", .nat span.stop), ("line", .nat span.line),
    ("column", .nat span.column)]

def ofJson? (lenient : Bool) (json : Json) : Option Span :=
  match json.record? lenient ["start", "end", "line", "column"] with
  | some [some start, some stop, some line, some column] => do
      return ⟨← start.nat?, ← stop.nat?, ← line.nat?, ← column.nat?⟩
  | _ => none

end Span

/-! ## Causes -/

namespace Cause

def tag : Cause → String
  | unexpectedCharacter _ => "UnexpectedCharacter"
  | unterminatedString => "UnterminatedString"
  | unterminatedComment => "UnterminatedComment"
  | unexpectedToken _ => "UnexpectedToken"
  | expectedToken _ _ => "ExpectedToken"
  | semantic _ => "Semantic"
  | typeMismatch _ _ => "TypeMismatch"
  | unknownRoutine _ => "UnknownRoutine"
  | moduleNotFound _ => "ModuleNotFound"
  | recursiveModules _ => "RecursiveModules"
  | inModule _ _ _ => "InModule"
  | boardFormat _ => "BoardFormat"
  | io _ => "Io"
  | argumentType _ => "ArgumentType"
  | incomparableValues _ _ => "IncomparableValues"
  | divisionByZero => "DivisionByZero"
  | negativeExponent => "NegativeExponent"
  | emptyList => "EmptyList"
  | emptyColor _ => "EmptyColor"
  | stoneOverflow _ => "StoneOverflow"
  | cannotMove _ => "CannotMove"
  | undefinedRoutine _ => "UndefinedRoutine"
  | uninitializedVariable _ => "UninitializedVariable"
  | wrongArity _ _ _ => "WrongArity"
  | conditionNotBoolean => "ConditionNotBoolean"
  | noMain => "NoMain"
  | stackOverflow _ => "StackOverflow"
  | boom _ => "Boom"
  | interrupted => "Interrupted"
  | protocol _ => "Protocol"
  | internal _ => "Internal"

def toJson (cause : Cause) : Json :=
  match cause with
  | unterminatedString | unterminatedComment | divisionByZero | negativeExponent | emptyList
  | conditionNotBoolean | noMain | interrupted => .string cause.tag
  | unexpectedCharacter character => tagged cause.tag (.string character.toString)
  | unexpectedToken text | semantic text | unknownRoutine text | moduleNotFound text
  | recursiveModules text | boardFormat text | io text | argumentType text
  | undefinedRoutine text | uninitializedVariable text | boom text | protocol text
  | internal text => tagged cause.tag (.string text)
  | expectedToken expected found | typeMismatch expected found =>
      tagged cause.tag
        (.object [("expected", .string expected), ("found", .string found)])
  | inModule name location inner =>
      tagged cause.tag
        (.object [("module", .string name), ("location", .string location),
          ("inner", inner.toJson)])
  | incomparableValues first second => tagged cause.tag (Json.strings [first, second])
  | emptyColor color | stoneOverflow color => tagged cause.tag (.string color.name)
  | cannotMove direction => tagged cause.tag (.string direction.name)
  | wrongArity routine expected found =>
      tagged cause.tag
        (.object [("routine", .string routine), ("expected", .nat expected),
          ("found", .nat found)])
  | stackOverflow limit => tagged cause.tag (.nat limit)

def ofTag? (tag : String) : Option Cause :=
  [unterminatedString, unterminatedComment, divisionByZero, negativeExponent, emptyList,
    conditionNotBoolean, noMain, interrupted].find? fun cause => cause.tag == tag

def ofText? (tag text : String) : Option Cause :=
  [unexpectedToken text, semantic text, unknownRoutine text, moduleNotFound text,
    recursiveModules text, boardFormat text, io text, argumentType text,
    undefinedRoutine text, uninitializedVariable text, boom text, protocol text,
    internal text].find? fun cause => cause.tag == tag

def singleCharacter? (text : String) : Option Char :=
  match text.toList with
  | [character] => some character
  | _ => none

def ofPayload? (lenient : Bool) (tag : String) (payload : Json) : Option Cause :=
  match tag with
  | "UnexpectedCharacter" => do
      return unexpectedCharacter (← singleCharacter? (← payload.string?))
  | "ExpectedToken" =>
      match payload.record? lenient ["expected", "found"] with
      | some [some expected, some found] => do
          return expectedToken (← expected.string?) (← found.string?)
      | _ => none
  | "TypeMismatch" =>
      match payload.record? lenient ["expected", "found"] with
      | some [some expected, some found] => do
          return typeMismatch (← expected.string?) (← found.string?)
      | _ => none
  | "IncomparableValues" =>
      match payload with
      | .array [.string first, .string second] => some (incomparableValues first second)
      | _ => none
  | "EmptyColor" => do
      return emptyColor (← Color.ofName? (← plainTag? lenient payload))
  | "StoneOverflow" => do
      return stoneOverflow (← Color.ofName? (← plainTag? lenient payload))
  | "CannotMove" => do
      return cannotMove (← Direction.ofName? (← plainTag? lenient payload))
  | "WrongArity" =>
      match payload.record? lenient ["routine", "expected", "found"] with
      | some [some routine, some expected, some found] => do
          return wrongArity (← routine.string?) (← expected.nat?) (← found.nat?)
      | _ => none
  | "StackOverflow" => payload.nat?.map stackOverflow
  | _ =>
      match payload with
      | .string text => ofText? tag text
      | _ => (plainTag? lenient (tagged tag payload)).bind ofTag?

mutual

def ofJson? (lenient : Bool) : Json → Option Cause
  | .string tag => ofTag? tag
  | .object [("InModule", .object fields)] =>
      match (Json.object fields).record? lenient ["module", "location", "inner"] with
      | some [some name, some location, some _] => do
          return inModule (← name.string?) (← location.string?) (← innerOfJson? lenient fields)
      | _ => none
  | .object [("InModule", .array [name, location, inner])] =>
      if lenient then do
        return inModule (← name.string?) (← location.string?) (← ofJson? lenient inner)
      else none
  | .object [(tag, payload)] => ofPayload? lenient tag payload
  | _ => none

def innerOfJson? (lenient : Bool) : List (String × Json) → Option Cause
  | [] => none
  | (key, value) :: rest =>
      if key = "inner" then ofJson? lenient value else innerOfJson? lenient rest

end

end Cause

/-! ## Reports -/

namespace ErrorClass

def tag : ErrorClass → String
  | static => "Static"
  | dynamic => "Dynamic"

def ofTag? (tag : String) : Option ErrorClass :=
  if tag = "Static" then some static
  else if tag = "Dynamic" then some dynamic
  else none

end ErrorClass

namespace ErrorReport

def toJson (report : ErrorReport) : Json :=
  .object [("class", .string report.errorClass.tag), ("kind", report.cause.toJson),
    ("span", Json.ofOption Span.toJson report.span),
    ("file", Json.ofOption .string report.file),
    ("backtrace", Json.ofOption .string report.backtrace)]

/-- A field that may be absent or `null`. -/
def optional? {α : Type} (read? : Json → Option α) : Option Json → Option (Option α)
  | none => some none
  | some .null => some none
  | some json => (read? json).map some

def ofJson? (lenient : Bool) (json : Json) : Option ErrorReport :=
  match json.record? lenient ["class", "kind", "span", "file", "backtrace"] with
  | some [some errorClass, some cause, span, file, backtrace] => do
      return {
        errorClass := ← ErrorClass.ofTag? (← plainTag? lenient errorClass)
        cause := ← Cause.ofJson? lenient cause
        span := ← optional? (Span.ofJson? lenient) span
        file := ← optional? Json.string? file
        backtrace := ← optional? Json.string? backtrace }
  | _ => none

end ErrorReport

end StoneBoard
